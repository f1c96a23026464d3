/-
# Filling in defaults

`applyDefaults` of `internal/profilebundle/profilebundle.go`: the defaults a schema states, written
into a document the way the API server does.  The walk is by the schema, since a default that is an
object is walked in its turn.

Filling in twice is filling in once (`applyDefaults_idem`), and a schema whose defaults are pruned,
as the API server asks of it, may prune before or after (`prune_applyDefaults`).
-/

import Gentian.Base.GoJson

namespace Gentian.Profilebundle

open Documents GoJson Option Schema Json

/-- What a property is filled with: its default where it is absent, or null where null is not
allowed. -/
def fill (p : Schema) (current : Option Json) : Option Json :=
  match p.default with
  | none => current
  | some d =>
    match current with
    | none => some d
    | some v => if v = .null ∧ p.nullable = false then some d else some v

/-- `applyDefaults`. -/
def applyDefaults : Schema → Json → Json
  | .absent, j => j
  | .node _ _ _ names property _ values items, j =>
    match j with
    | .object keys fields =>
      .build (keys.union (names.filter fun k => (property k).default.isSome)) fun k =>
        if k ∈ names ∧ (property k).present then
          applyDefaults (property k)
            ((fill (property k) ((Json.object keys fields).field k)).getD .null)
        else applyDefaults values ((Json.object keys fields).get k)
    | .list n xs => .list n fun i => applyDefaults items (xs i)
    | .null => .null
    | .bool b => .bool b
    | .number text => .number text
    | .string text => .string text

variable {s : Schema} {j v : Json} {k : String}

@[simp] theorem applyDefaults_absent : applyDefaults .absent = id := rfl

@[simp] theorem applyDefaults_null (s : Schema) : applyDefaults s .null = .null := by
  cases s <;> rfl

@[simp] theorem isObject_applyDefaults (s : Schema) (j : Json) :
    (applyDefaults s j).isObject = j.isObject := by
  cases s <;> cases j <;> rfl

theorem applyDefaults_eq_null : applyDefaults s j = .null ↔ j = .null := by
  cases s <;> cases j <;> simp [applyDefaults, build]

@[simp] theorem fill_absent (current : Option Json) : fill .absent current = current := rfl

/-- The schema that what is under a key is filled in by. -/
def inner (s : Schema) (k : String) : Schema :=
  if (s.property k).present then s.property k else s.values

/-- **What a key holds**: what it was filled with, with the defaults of its own schema. -/
theorem field_applyDefaults (hj : j.isObject) : (applyDefaults s j).field k =
      (fill (s.property k) (j.field k)).map (applyDefaults (inner s k)) := by
  cases s with
  | absent => simp [inner]
  | node _ _ _ names property _ _ _ =>
    cases j with
    | object keys fields =>
      simp only [applyDefaults, Json.field_build, Keys.mem_union, Keys.mem_filter, inner,
        property_node]
      by_cases hn : k ∈ names
      · cases hd : (property k).default with
        | none =>
          by_cases hk : k ∈ keys <;> by_cases hp : (property k).present = true <;>
            simp [hn, hd, hk, hp, fill, Json.get, Json.field_object, Json.field_object_of_not_mem]
        | some d =>
          have hp : (property k).present := by
            cases hq : property k with
            | absent => simp [hq, Schema.default] at hd
            | node => rfl
          have hsome : ∃ w, fill (property k) ((Json.object keys fields).field k) = some w := by
            unfold fill
            simp only [hd]
            split
            · exact ⟨_, rfl⟩
            · split_ifs <;> exact ⟨_, rfl⟩
          obtain ⟨w, hw⟩ := hsome
          simp [hn, hp, hw]
      · by_cases hk : k ∈ keys <;>
          simp [hn, hk, Json.get, Json.field_object, Json.field_object_of_not_mem]
    | _ => cases hj

/-- A list is filled in item by item. -/
theorem applyDefaults_list {n : ℕ} {xs : Fin n → Json} :
    applyDefaults s (.list n xs) = .list n fun i => applyDefaults s.items (xs i) := by
  cases s <;> rfl

variable {current : Option Json} {p : Schema}

variable {f : Json → Json} {m : Matching}

/-- Filling in twice is filling in once, at one place. -/
theorem fill_map_fill (hnull : ∀ v, f v = .null ↔ v = .null)
    (hidem : ∀ v, f (f v) = f v) :
    (fill p ((fill p current).map f)).map f = (fill p current).map f := by
  cases hd : p.default with
  | none => cases current <;> simp [fill, hd, hidem]
  | some d =>
    cases current with
    | none =>
      simp only [fill, hd, map_some]
      split_ifs <;> simp [hidem]
    | some v =>
      by_cases hv : v = .null ∧ p.nullable = false
      · simp only [fill, hd, if_pos hv, map_some]
        split_ifs <;> simp [hidem]
      · have hfv : ¬(f v = .null ∧ p.nullable = false) := by rwa [hnull]
        simp [fill, hd, if_neg hv, if_neg hfv, hidem]

/-- **Filling in defaults twice is filling them in once.** -/
theorem applyDefaults_idem (s : Schema) :
    ∀ j, applyDefaults s (applyDefaults s j) = applyDefaults s j := by
  induction s using parts_induction with
  | habsent => exact fun _ => rfl
  | hparts s hproperty hvalues hitems =>
    intro j
    cases j with
    | object _ _ =>
      refine ext_of_isObject (by simp) (by simp) fun k => ?_
      rw [field_applyDefaults (by simp), field_applyDefaults rfl]
      refine fill_map_fill (fun _ => applyDefaults_eq_null) ?_
      unfold inner
      split_ifs
      · exact hproperty k
      · exact hvalues
    | list n _ => simp only [applyDefaults_list, hitems]
    | null => simp
    | _ => cases s <;> rfl

/-! ### Pruning -/

/-- The defaults of a schema hold nothing it does not keep, as the API server asks of one. -/
def defaultsPruned : Schema → Prop
  | .absent => True
  | .node _ _ _ names property _ values items =>
    (∀ k ∈ names, (∀ d, (property k).default = some d → (property k).prune d = d) ∧
      defaultsPruned (property k)) ∧ defaultsPruned values ∧ defaultsPruned items

theorem defaultsPruned_of_parts
    (hdefault : ∀ k d, (s.property k).default = some d → (s.property k).prune d = d)
    (hproperty : ∀ k, defaultsPruned (s.property k)) (hvalues : defaultsPruned s.values)
    (hitems : defaultsPruned s.items) : defaultsPruned s := by
  cases s with
  | absent => trivial
  | node _ _ _ _ property _ values items =>
    refine ⟨fun k hk => ?_, hvalues, hitems⟩
    have hd := hdefault k
    have hp := hproperty k
    rw [property_node_of_mem hk] at hd hp
    exact ⟨hd, hp⟩

section DefaultsPruned

variable (h : defaultsPruned s)

include h

theorem prune_default {d : Json} (hd : (s.property k).default = some d) :
    (s.property k).prune d = d := by
  cases s with
  | absent => cases hd
  | node _ _ _ names property _ _ _ =>
    have hk : k ∈ names := mem_names_of_property (present_of_default hd)
    rw [property_node_of_mem hk] at hd ⊢
    exact (h.1 k hk).1 d hd

theorem defaultsPruned_property (k : String) : defaultsPruned (s.property k) := by
  cases s with
  | absent => trivial
  | node _ _ _ _ property _ _ _ =>
    rw [property_node]
    split_ifs with hk
    · exact (h.1 k hk).2
    · trivial

theorem defaultsPruned_values : defaultsPruned s.values := by
  cases s with
  | absent => trivial
  | node => exact h.2.1

theorem defaultsPruned_items : defaultsPruned s.items := by
  cases s with
  | absent => trivial
  | node => exact h.2.2

end DefaultsPruned

/-- Pruning and filling in commute at one place. -/
theorem fill_map_prune {g : Json → Json} (hnull : ∀ v, g v = .null ↔ v = .null)
    (hcomm : ∀ v, g (f v) = f (g v)) (hdefault : ∀ d, p.default = some d → g d = d) :
    (fill p (current.map g)).map f = ((fill p current).map f).map g := by
  cases hd : p.default with
  | none => cases current <;> simp [fill, hd, hcomm]
  | some d =>
    cases current with
    | none => simp [fill, hd, hcomm, hdefault d hd]
    | some v =>
      by_cases hv : v = .null ∧ p.nullable = false
      · have hgv : g v = .null ∧ p.nullable = false := by rwa [hnull]
        simp [fill, hd, if_pos hv, if_pos hgv, hcomm, hdefault d hd]
      · have hgv : ¬(g v = .null ∧ p.nullable = false) := by rwa [hnull]
        simp [fill, hd, if_neg hv, if_neg hgv, hcomm]

theorem inner_eq_child (s : Schema) (k : String) : inner s k = s.child k ∨ inner s k = .absent := by
  unfold inner child
  by_cases hp : (s.property k).present
  · exact .inl (by rw [if_pos hp, if_pos hp])
  · rw [if_neg hp, if_neg hp]
    by_cases hv : s.values.present
    · exact .inl (by rw [if_pos hv])
    · exact .inr (eq_absent (by simpa using hv))

theorem items_eq_element (s : Schema) : s.items = s.element ∨ s.items = .absent := by
  unfold element
  by_cases hi : s.items.present
  · exact .inl (by rw [if_pos hi])
  · exact .inr (eq_absent (by simpa using hi))

/-- **Pruning and filling in defaults come to the same in either order**, when the defaults are
pruned themselves. -/
theorem prune_applyDefaults (s : Schema) :
    defaultsPruned s → ∀ j, s.prune (applyDefaults s j) = applyDefaults s (s.prune j) := by
  induction s using parts_induction with
  | habsent => exact fun _ _ => rfl
  | hparts s hproperty hvalues hitems =>
    intro hs j
    cases j with
    | object _ _ =>
      refine ext_of_isObject (by simp) (by simp) fun k => ?_
      rw [field_prune, field_applyDefaults rfl, field_applyDefaults (by simp), field_prune]
      by_cases hkeeps : s.keeps k
      · rw [if_pos hkeeps, if_pos hkeeps]
        refine (fill_map_prune (fun _ => prune_eq_null) (fun v => ?_) fun d hd => ?_).symm
        · rcases inner_eq_child s k with hinner | hinner
          · rw [← hinner, inner]
            split_ifs
            · exact hproperty k (defaultsPruned_property hs k) v
            · exact hvalues (defaultsPruned_values hs) v
          · rw [hinner]
            rfl
        · rw [child, if_pos (present_of_default hd)]
          exact prune_default hs hd
      · have hp : s.property k = .absent := by
          refine eq_absent ?_
          simp only [keeps, Bool.or_eq_true, not_or] at hkeeps
          simpa using hkeeps.1.1.1
        rw [if_neg hkeeps, if_neg hkeeps, hp, fill_absent, map_none]
    | list n xs =>
      rw [applyDefaults_list, prune, prune, applyDefaults_list]
      refine congrArg _ (funext fun i => ?_)
      rcases items_eq_element s with hitem | hitem
      · rw [← hitem]
        exact hitems (defaultsPruned_items hs) (xs i)
      · rw [hitem]
        rfl
    | null => simp [prune]
    | _ => cases s <;> rfl

/-- **What a type reads of a stored document is what it reads of the document**: pruning before the
defaults are filled in takes away nothing that the type sees. -/
theorem read_stored {t : GoType} (hpruned : defaultsPruned s) (hfits : Fits t s)
    (hexact : Exact m t (applyDefaults s j)) :
    read m t (applyDefaults s (s.prune j)) = read m t (applyDefaults s j) := by
  rw [← prune_applyDefaults s hpruned]
  exact read_prune t s _ hfits hexact

theorem applyDefaults_bare {preserve null allow : Bool} {value : Option Json}
    {below : String → Schema} (j : Json) :
    applyDefaults (.node preserve null value ⟨[], .nil⟩ below allow .absent .absent) j = j := by
  cases j with
  | object _ _ =>
    refine ext_of_isObject (by simp) rfl fun k => ?_
    have hk : ¬k ∈ (⟨[], .nil⟩ : Keys) := List.not_mem_nil
    rw [field_applyDefaults rfl]
    simp [property_node, inner, hk]
  | _ => rfl

/-- The parts of a schema that every resource has state no default. -/
def rootPlain (s : Schema) : Prop :=
  ∀ k ∈ Schema.rootKeys, (s.property k).default = none ∧ ∀ j, applyDefaults (inner s k) j = j

/-- The root's own keys have no defaults. -/
theorem applyDefaults_atRoot (h : rootPlain s) (j : Json) :
    applyDefaults s.atRoot j = applyDefaults s j := by
  by_cases hs : s.present
  · cases j with
    | object keys fields =>
      refine ext_of_isObject (by simp) (by simp) fun k => ?_
      rw [field_applyDefaults rfl, field_applyDefaults rfl, inner, property_atRoot hs,
        values_atRoot]
      split_ifs with hk hp hp
      · have hfill : fill (s.property k) ((object keys fields).field k) =
            (object keys fields).field k := by
          rw [fill, (h k hk).1]
        rw [hfill, funext (h k hk).2, everything, funext applyDefaults_bare]
        rfl
      · exact absurd rfl hp
      · rw [inner, if_pos hp]
      · rw [inner, if_neg hp]
    | list n _ => rw [applyDefaults_list, applyDefaults_list, items_atRoot]
    | null => simp
    | _ => cases s <;> rfl
  · obtain rfl : s = .absent := eq_absent (Bool.eq_false_iff.2 hs)
    rfl

/-! ### Exact documents -/

/-- The keys of the defaults are names of fields, or match none. -/
def DefaultsExact (m : Matching) : GoType → Schema → Prop
  | .leaf .., _ | .free, _ => True
  | .pointer t, s => DefaultsExact m t s
  | .slice t, s => DefaultsExact m t s.items
  | .map t, s => ∀ k, (∀ d, (s.property k).default = some d → Exact m t d) ∧
      DefaultsExact m t (inner s k)
  | .struct names field _, s =>
    (∀ k d, (s.property k).default = some d →
      (∀ f ∈ names, m.fold k = m.fold f → k = f) ∧ (k ∈ names → Exact m (field k) d)) ∧
      ∀ f ∈ names, DefaultsExact m (field f) (inner s f)

theorem fill_eq_some (h : fill p current = some v) : p.default = some v ∨ current = some v := by
  unfold fill at h
  split at h
  · exact .inr h
  next d hd =>
    rw [hd]
    split at h
    · exact .inl h
    · split_ifs at h
      · exact .inl h
      · exact .inr h

/-- A new key has a default. -/
theorem mem_keysOf_applyDefaults (hk : k ∈ (applyDefaults s j).keysOf) :
    k ∈ j.keysOf ∨ ∃ d, (s.property k).default = some d := by
  rw [mem_keysOf] at hk ⊢
  by_cases hj : j.isObject
  · rw [field_applyDefaults hj, isSome_map] at hk
    obtain ⟨v, hv⟩ := isSome_iff_exists.1 hk
    rcases fill_eq_some hv with hd | hfield
    · exact .inr ⟨v, hd⟩
    · exact .inl (by rw [hfield]; rfl)
  · have hres : (applyDefaults s j).isObject = false := by simpa using hj
    obtain ⟨v, hv⟩ := isSome_iff_exists.1 hk
    obtain ⟨_, _, _, hobject, -⟩ := field_eq_some.1 hv
    rw [hobject] at hres
    cases hres

/-- What is under a key was there or is a default. -/
theorem get_applyDefaults :
    (applyDefaults s j).get k = .null ∨ ∃ w, (applyDefaults s j).get k = applyDefaults (inner s k) w ∧
      ((s.property k).default = some w ∨ j.get k = w) := by
  by_cases hj : j.isObject
  · rw [Json.get, field_applyDefaults hj]
    cases hfill : fill (s.property k) (j.field k) with
    | none => exact .inl rfl
    | some w =>
      refine .inr ⟨w, rfl, (fill_eq_some hfill).imp_right fun hfield => ?_⟩
      rw [Json.get, hfield, getD_some]
  · exact .inl (get_of_not_isObject (by simpa using hj))

theorem get_applyDefaults_of_none (hd : (s.property k).default = none) :
    (applyDefaults s j).get k = applyDefaults (inner s k) (j.get k) := by
  by_cases hj : j.isObject
  · rw [Json.get, Json.get, field_applyDefaults hj, fill, hd]
    cases j.field k with
    | none => simp
    | some v => rfl
  · have hj : j.isObject = false := by simpa using hj
    rw [get_of_not_isObject hj, get_of_not_isObject (by simpa using hj), applyDefaults_null]

/-- **Filling in defaults leaves an exact document exact.** -/
theorem exact_applyDefaults (t : GoType) :
    ∀ s j, DefaultsExact m t s → Exact m t j → Exact m t (applyDefaults s j) := by
  induction t with
  | leaf | free => exact fun _ _ _ _ => trivial
  | pointer t ih => exact ih
  | slice t ih =>
    intro s j hs hj v hv
    cases j with
    | list n _ =>
      rw [applyDefaults_list] at hv
      obtain ⟨i, rfl⟩ := List.mem_ofFn.1 hv
      exact ih _ _ hs (hj _ (List.mem_ofFn.2 ⟨i, rfl⟩))
    | object _ _ =>
      cases s <;> cases hv
    | _ => cases s <;> cases hv
  | map t ih =>
    intro s j hs hj k hk
    rcases get_applyDefaults with hnull | ⟨w, hget, hw⟩
    · rw [hnull]
      exact exact_null t
    · rw [hget]
      refine ih _ _ (hs k).2 ?_
      rcases hw with hd | rfl
      · exact (hs k).1 w hd
      · by_cases hmem : k ∈ j.keysOf
        · exact hj k hmem
        · rw [get_eq_null_of_not_mem hmem]
          exact exact_null t
  | struct _ _ _ ih =>
    intro s j hs hj
    refine ⟨fun k hk => ?_, fun f hf => ?_⟩
    · rcases mem_keysOf_applyDefaults hk with hmem | ⟨d, hd⟩
      · exact hj.1 k hmem
      · exact (hs.1 k d hd).1
    · rcases get_applyDefaults with hnull | ⟨w, hget, hw⟩
      · rw [hnull]
        exact exact_null _
      · rw [hget]
        refine ih f _ _ (hs.2 f hf) ?_
        rcases hw with hd | rfl
        · exact (hs.1 f w hd).2 hf
        · exact hj.2 f hf

end Gentian.Profilebundle
