/-
# The API server's defaults

What the API server makes of the defaults a schema states when it stores a document, written down
on its own: a property that is absent, or null where null is not allowed, holds its default; such a
null without a default is dropped; and a null among the values of a map or the items of a list
gives way to the default of its schema.

`applyDefaults` keeps the nulls that the server drops and leaves those in maps and lists alone.  A
type reads the same of either document (`read_serverDefaults`), where the schema has the shape that
is generated for the type (`Shaped`).
-/

import Gentian.Profilebundle.Defaults

namespace Gentian.Profilebundle

open Documents GoJson Option Schema Json

/-- What the API server takes a place to hold: what is stated there, where a null that the schema
does not allow counts as nothing, or else the default. -/
def held (s : Schema) (current : Option Json) : Option Json :=
  (current.filter fun v => decide (v ≠ .null) || s.nullable).or s.default

/-- Structural defaulting as the API server does it on a document it stores.  A property holds its
default where nothing is stated, and a null that is not allowed and has no default is dropped.  A
value of a map or an item of a list that is such a null is replaced by the default of its schema. -/
def serverDefaults : Schema → Json → Json
  | .absent, j => j
  | .node _ _ _ names property _ values items, j =>
    match j with
    | .object keys fields =>
      .build (keys.filter (fun k => !(decide (k ∈ names) && (property k).present)) |>.union
          (names.filter fun k => (property k).present &&
            (held (property k) ((Json.object keys fields).field k)).isSome)) fun k =>
        if k ∈ names ∧ (property k).present then
          serverDefaults (property k)
            ((held (property k) ((Json.object keys fields).field k)).getD .null)
        else
          serverDefaults values
            ((held values (some ((Json.object keys fields).get k))).getD .null)
    | .list n xs => .list n fun i => serverDefaults items ((held items (some (xs i))).getD .null)
    | .null => .null
    | .bool b => .bool b
    | .number text => .number text
    | .string text => .string text

variable {s : Schema} {j : Json} {k : String} {m : Matching}

@[simp] theorem serverDefaults_absent : serverDefaults .absent = id := rfl

@[simp] theorem serverDefaults_null (s : Schema) : serverDefaults s .null = .null := by
  cases s <;> rfl

@[simp] theorem isObject_serverDefaults (s : Schema) (j : Json) :
    (serverDefaults s j).isObject = j.isObject := by
  cases s <;> cases j <;> rfl

theorem serverDefaults_eq_null : serverDefaults s j = .null ↔ j = .null := by
  cases s <;> cases j <;> simp [serverDefaults, build]

/-- A value of a map, or an item of a list, whose schema has no default is left as it is. -/
theorem getD_held (hd : s.default = none) (v : Json) : (held s (some v)).getD .null = v := by
  rw [held, hd, Option.or_none, Option.filter_some]
  split_ifs with h
  · rfl
  · simp only [Bool.or_eq_true, decide_eq_true_eq, not_or, not_not] at h
    exact h.1.symm

/-- A list is filled in item by item. -/
theorem serverDefaults_list {n : ℕ} {xs : Fin n → Json} (hd : s.items.default = none) :
    serverDefaults s (.list n xs) = .list n fun i => serverDefaults s.items (xs i) := by
  cases s with
  | absent => rfl
  | node _ _ _ _ _ _ _ items =>
    have hd : items.default = none := hd
    simp only [serverDefaults, items_node, getD_held hd]

/-- **What a key holds on the API server**, where the values of maps have no default. -/
theorem field_serverDefaults (hj : j.isObject) (hd : s.values.default = none) :
    (serverDefaults s j).field k =
      (if (s.property k).present then held (s.property k) (j.field k) else j.field k).map
        (serverDefaults (inner s k)) := by
  cases s with
  | absent => simp [inner]
  | node _ _ _ names property _ values _ =>
    cases j with
    | object keys fields =>
      have hd : values.default = none := hd
      simp only [serverDefaults, Json.field_build, Keys.mem_union, Keys.mem_filter, inner,
        property_node, getD_held hd]
      by_cases hp : k ∈ names ∧ (property k).present = true
      · obtain ⟨hn, hp⟩ := hp
        cases hh : held (property k) ((Json.object keys fields).field k) <;> simp [hn, hp, hh]
      · by_cases hk : k ∈ keys <;> by_cases hn : k ∈ names <;>
          simp_all [Json.get, Json.field_object, Json.field_object_of_not_mem]
    | _ => cases hj

/-- What the API server holds and what is filled in differ in a null alone, which it drops. -/
theorem held_eq_fill (p : Schema) (current : Option Json) :
    held p current = fill p current ∨ (held p current = none ∧ fill p current = some .null) := by
  cases hd : p.default with
  | none =>
    cases current with
    | none => exact .inl (by simp [held, fill, hd])
    | some v =>
      by_cases hv : v = .null ∧ p.nullable = false
      · exact .inr (by simp [held, fill, hd, hv])
      · refine .inl ?_
        simp only [not_and, Bool.not_eq_false] at hv
        by_cases hnull : v = .null
        · simp [held, fill, hd, hnull, hv hnull]
        · simp [held, fill, hd, hnull]
  | some d =>
    refine .inl ?_
    cases current with
    | none => simp [held, fill, hd]
    | some v =>
      by_cases hnull : v = .null
      · cases hn : p.nullable <;> simp [held, fill, hd, hnull, hn, Option.filter_some]
      · simp [held, fill, hd, hnull, Option.filter_some]

/-- **A key of the API server's document and of the code's come from one value**, each with the
defaults of the key's own schema. -/
theorem get_serverDefaults (hd : s.values.default = none) (j : Json) (k : String) :
    ∃ v, (applyDefaults s j).get k = applyDefaults (inner s k) v ∧
      (serverDefaults s j).get k = serverDefaults (inner s k) v := by
  by_cases hj : j.isObject
  · rw [Json.get, Json.get, field_applyDefaults hj, field_serverDefaults hj hd]
    by_cases hp : (s.property k).present
    · rw [if_pos hp]
      rcases held_eq_fill (s.property k) (j.field k) with heq | ⟨hnone, hnull⟩
      · rw [heq]
        cases fill (s.property k) (j.field k) with
        | none => exact ⟨.null, by simp⟩
        | some v => exact ⟨v, rfl, rfl⟩
      · rw [hnone, hnull]
        exact ⟨.null, by simp⟩
    · rw [if_neg hp, eq_absent (Bool.eq_false_iff.2 hp), fill_absent]
      cases j.field k with
      | none => exact ⟨.null, by simp⟩
      | some v => exact ⟨v, rfl, rfl⟩
  · have hj : j.isObject = false := Bool.eq_false_iff.2 hj
    refine ⟨.null, ?_⟩
    rw [get_of_not_isObject (by simpa using hj), get_of_not_isObject (by simpa using hj)]
    simp

/-- The API server adds no key that the code does not fill in. -/
theorem mem_keysOf_serverDefaults (hd : s.values.default = none)
    (hk : k ∈ (serverDefaults s j).keysOf) : k ∈ (applyDefaults s j).keysOf := by
  rw [mem_keysOf] at hk ⊢
  by_cases hj : j.isObject
  · rw [field_serverDefaults hj hd, isSome_map] at hk
    rw [field_applyDefaults hj, isSome_map]
    split_ifs at hk with hp
    · rcases held_eq_fill (s.property k) (j.field k) with heq | ⟨-, hnull⟩
      · rwa [← heq]
      · rw [hnull]
        rfl
    · rwa [eq_absent (Bool.eq_false_iff.2 hp), fill_absent]
  · rw [field_of_not_isObject (by simpa using hj)] at hk
    cases hk

/-- The shape of the schema of a type, as it is generated: a map has no properties of its own, raw
JSON has no parts, and only properties state defaults. -/
def Shaped : GoType → Schema → Prop
  | .leaf .., _ => True
  | .free, s => (∀ k, s.property k = .absent) ∧ s.values = .absent ∧ s.items = .absent
  | .pointer t, s => Shaped t s
  | .slice t, s => s.items.default = none ∧ Shaped t s.items
  | .map t, s => (∀ k, s.property k = .absent) ∧ s.values.default = none ∧ Shaped t s.values
  | .struct names field _, s => s.values.default = none ∧ ∀ f ∈ names, Shaped (field f) (inner s f)

/-- What is no property is a value of the map. -/
theorem inner_of_absent (hp : s.property k = .absent) : inner s k = s.values := by
  rw [inner, hp]
  rfl

section Bare

variable (hp : ∀ k, s.property k = .absent)

include hp

theorem field_applyDefaults_map (hj : j.isObject) :
    (applyDefaults s j).field k = (j.field k).map (applyDefaults s.values) := by
  rw [field_applyDefaults hj, inner_of_absent (hp k), hp, fill_absent]

theorem field_serverDefaults_map (hj : j.isObject) (hd : s.values.default = none) :
    (serverDefaults s j).field k = (j.field k).map (serverDefaults s.values) := by
  rw [field_serverDefaults hj hd, inner_of_absent (hp k), hp]
  rfl

/-- A schema without parts fills nothing in. -/
theorem defaults_of_bare (hv : s.values = .absent) (hi : s.items = .absent) (j : Json) :
    applyDefaults s j = j ∧ serverDefaults s j = j := by
  cases j with
  | object keys fields =>
    have hd : s.values.default = none := by rw [hv]; rfl
    refine ⟨ext_of_isObject (by simp) rfl fun k => ?_, ext_of_isObject (by simp) rfl fun k => ?_⟩
    · rw [field_applyDefaults_map hp rfl, hv, applyDefaults_absent, Option.map_id_fun, id]
    · rw [field_serverDefaults_map hp rfl hd, hv, serverDefaults_absent, Option.map_id_fun, id]
  | list n xs =>
    rw [applyDefaults_list, serverDefaults_list (by rw [hi]; rfl), hi]
    exact ⟨rfl, rfl⟩
  | null => simp
  | _ => cases s <;> exact ⟨rfl, rfl⟩

end Bare

/-- **A type reads of the API server's document what it reads of the code's.**  The induction is on
the type: the one difference is a null, which reads as an absent field does. -/
theorem read_serverDefaults (t : GoType) : ∀ s j, Shaped t s → Exact m t (applyDefaults s j) →
      read m t (serverDefaults s j) = read m t (applyDefaults s j) := by
  induction t with
  | leaf _ _ =>
    intro s j _ _
    cases s <;> cases j <;> rfl
  | free =>
    intro s j hs _
    obtain ⟨happly, hserver⟩ := defaults_of_bare hs.1 hs.2.1 hs.2.2 j
    rw [happly, hserver]
  | pointer t ih =>
    intro s j hs hx
    simp [GoJson.read, serverDefaults_eq_null, applyDefaults_eq_null, ih s j hs hx]
  | slice t ih =>
    intro s j hs hx
    cases j with
    | list n xs =>
      rw [applyDefaults_list] at hx ⊢
      rw [serverDefaults_list hs.1, GoJson.read, GoJson.read]
      congr 2
      rw [List.map_ofFn, List.map_ofFn]
      refine congrArg _ (funext fun i => ?_)
      exact ih _ _ hs.2 (hx _ (List.mem_ofFn.2 ⟨i, rfl⟩))
    | object _ _ => cases s <;> rfl
    | _ => cases s <;> rfl
  | map t ih =>
    intro s j hs hx
    obtain ⟨hp, hd, hs⟩ := hs
    have hkeys : (serverDefaults s j).keysOf = (applyDefaults s j).keysOf := by
      refine Keys.ext_iff_mem.2 fun k => ⟨mem_keysOf_serverDefaults hd, fun hk => ?_⟩
      rw [mem_keysOf] at hk ⊢
      by_cases hj : j.isObject
      · rw [field_applyDefaults_map hp hj, isSome_map] at hk
        rwa [field_serverDefaults_map hp hj hd, isSome_map]
      · rw [field_of_not_isObject (by simpa using hj)] at hk
        cases hk
    have hvalues : ∀ k ∈ (applyDefaults s j).keysOf.list,
        GoJson.read m t ((serverDefaults s j).get k) =
          GoJson.read m t ((applyDefaults s j).get k) := by
      intro k hk
      have hxk := hx k hk
      obtain ⟨v, happly, hget⟩ := get_serverDefaults hd j k
      rw [happly, inner_of_absent (hp k)] at hxk
      rw [happly, hget, inner_of_absent (hp k), ih _ _ hs hxk]
    simp only [GoJson.read, serverDefaults_eq_null, applyDefaults_eq_null, isObject_serverDefaults,
      isObject_applyDefaults, hkeys]
    rw [List.map_congr_left fun k hk => by rw [hvalues k hk]]
  | struct names field _ ih =>
    intro s j hs hx
    have hserver : ∀ k ∈ (serverDefaults s j).keysOf, ∀ f ∈ names, m.fold k = m.fold f → k = f :=
      fun k hk => hx.1 k (mem_keysOf_serverDefaults hs.1 hk)
    have hvalues : ∀ f ∈ names, read m (field f) (m.value names (serverDefaults s j) f) =
        read m (field f) (m.value names (applyDefaults s j) f) := by
      intro f hf
      rw [value_eq_get hf hserver, value_eq_get hf hx.1]
      have hxf := hx.2 f hf
      obtain ⟨v, happly, hget⟩ := get_serverDefaults hs.1 j f
      rw [happly] at hxf ⊢
      rw [hget, ih f _ _ (hs.2 f hf) hxf]
    simp only [GoJson.read, serverDefaults_eq_null, applyDefaults_eq_null, isObject_serverDefaults,
      isObject_applyDefaults]
    rw [List.map_congr_left fun f hf => by rw [hvalues f hf]]

end Gentian.Profilebundle
