/-
# Reading JSON through a Go type

`encoding/json` reads a document into a value of a Go type and writes it out again.  A field that
the type does not have is dropped, an absent one is its zero value, and with `omitempty` an empty
one is left out.

A key is matched to the field of its very name, or else to one that differs from it in case alone
(`Matching.fold`); what several keys of one field come to is left open (`Matching.merge`).  Of a
document whose keys are the fields' own names (`Exact`) the type sees nothing that a schema which
fits the type would prune (`read_prune`).
-/

import Gentian.Base.GoStrings
import Gentian.Base.Schema

namespace GoJson

open Documents List Schema Json GoErrors Bool

/-- How keys of a document are matched to fields of a type. -/
structure Matching where
  /-- Two names that differ in case alone fold to one. -/
  fold : String → String
  /-- What the values of several keys come to in one field. -/
  merge : List Json → Json
  merge_singleton : ∀ v, merge [v] = v

/-- A Go type, as far as `encoding/json` can tell. -/
inductive GoType where
  /-- A value without parts, with its zero and what is read from a scalar. -/
  | leaf (zero : Json) (parse : Json → Except String Json)
  /-- Raw JSON. -/
  | free
  | pointer (t : GoType)
  | slice (t : GoType)
  | map (t : GoType)
  | struct (names : List String) (field : String → GoType) (omitempty : String → Bool)

/-- What `omitempty` leaves out. -/
def isEmpty : GoType → Json → Bool
  | .leaf zero _, v => v = zero
  | .pointer _, v => v = .null
  | .slice _, v => v.itemsOf = []
  | .map _, v => v.keysOf.list = []
  | .free, _ | .struct .., _ => false

namespace Matching

variable (m : Matching)

/-- Whether a key is read into a field. -/
def targets (names : List String) (f k : String) : Bool :=
  k = f || (!decide (k ∈ names) && m.fold k = m.fold f)

/-- What is read into a field. -/
def value (names : List String) (x : Json) (f : String) : Json :=
  match x.keysOf.list.filter (m.targets names f) with
  | [] => .null
  | ks => m.merge (ks.map x.get)

end Matching

variable (m : Matching)

/-- A document, read through a type and written out again.  Null is the zero value. -/
def read : GoType → Json → Except String Json
  | .leaf zero parse, x =>
    match x with
    | .null => .ok zero
    | .object .. => .error "cannot unmarshal object"
    | .list .. => .error "cannot unmarshal array"
    | .bool b => parse (.bool b)
    | .number text => parse (.number text)
    | .string text => parse (.string text)
  | .free, x => .ok x
  | .pointer t, x => if x = .null then .ok .null else read t x
  | .slice t, x =>
    match x with
    | .null => .ok .null
    | .list _ items => ((ofFn items).map (read t)).mapM id |>.map .ofItems
    | _ => .error "cannot unmarshal into a slice"
  | .map t, x =>
    if x = .null then .ok .null
    else if x.isObject then
      (x.keysOf.list.map fun k => (read t (x.get k)).map fun v => (k, v)).mapM id |>.map .ofPairs
    else .error "cannot unmarshal into a map"
  | .struct names field omitempty, x =>
    if x = .null ∨ x.isObject then
      (names.map fun f => (read (field f) (m.value names x f)).map fun v => (f, v)).mapM id |>.map
        fun entries =>
          .ofPairs (entries.filter fun e => !(omitempty e.1 && isEmpty (field e.1) e.2))
    else .error "cannot unmarshal into a struct"

/-- Every key of a document that matches a field is that field's own name. -/
def Exact : GoType → Json → Prop
  | .leaf .., _ | .free, _ => True
  | .pointer t, x => Exact t x
  | .slice t, x => ∀ v ∈ x.itemsOf, Exact t v
  | .map t, x => ∀ k ∈ x.keysOf, Exact t (x.get k)
  | .struct names field _, x =>
    (∀ k ∈ x.keysOf, ∀ f ∈ names, m.fold k = m.fold f → k = f) ∧
      ∀ f ∈ names, Exact (field f) (x.get f)

/-- Whether a document is exact can be decided. -/
def decideExact : (t : GoType) → (x : Json) → Decidable (Exact m t x)
  | .leaf .., _ | .free, _ => .isTrue trivial
  | .pointer t, x => decideExact t x
  | .slice t, x => @List.decidableBAll _ _ (fun v => decideExact t v) x.itemsOf
  | .map t, x => @List.decidableBAll _ _ (fun k => decideExact t (x.get k)) x.keysOf.list
  | .struct names field _, x =>
    @instDecidableAnd _ _
      (decidableBAll
        (fun k => ∀ f ∈ names, m.fold k = m.fold f → k = f) x.keysOf.list)
      (@List.decidableBAll _ _ (fun f => decideExact (field f) (x.get f)) names)

instance (t : GoType) (x : Json) : Decidable (Exact m t x) := decideExact m t x

/-- A schema keeps every key that a type sees. -/
def Fits : GoType → Schema → Prop
  | .leaf .., _ => True
  | .free, s => ∀ j, s.prune j = j
  | .pointer t, s => Fits t s
  | .slice t, s => Fits t s.element
  | .map t, s => ∀ k, s.keeps k = true ∧ Fits t (s.child k)
  | .struct names field _, s => ∀ f ∈ names, s.keeps f = true ∧ Fits (field f) (s.child f)

variable {m}

/-- Null has no keys. -/
theorem exact_null (t : GoType) : Exact m t .null := by
  induction t with
  | leaf | free => trivial
  | pointer t ih => exact ih
  | slice t ih => exact nofun
  | map t ih => exact nofun
  | struct _ _ _ ih =>
    exact ⟨nofun, fun f _ => ih f⟩

variable {v x : Json} {names : List String} {f : String}

/-- **Where keys are exact, a field is read from the key of its name.** -/
theorem value_eq_get (hf : f ∈ names)
    (hx : ∀ k ∈ x.keysOf, ∀ f ∈ names, m.fold k = m.fold f → k = f) :
    m.value names x f = x.get f := by
  have hfilter : x.keysOf.list.filter (m.targets names f) = x.keysOf.list.filter (· == f) := by
    refine filter_congr fun k hk => ?_
    rw [Matching.targets, Bool.eq_iff_iff]
    simp only [or_eq_true, and_eq_true, decide_eq_true_iff, beq_iff_eq, or_iff_left_iff_imp]
    exact fun h => hx k hk f hf h.2
  unfold Matching.value
  rw [hfilter, filter_beq]
  by_cases hk : f ∈ x.keysOf
  · rw [count_eq_one_of_mem x.keysOf.nodup hk]
    exact m.merge_singleton _
  · rw [count_eq_zero_of_not_mem hk, get_eq_null_of_not_mem hk]
    rfl

theorem lookup_of_mem {ps : List (String × Json)} {k : String}
    (hnodup : (ps.map Prod.fst).Nodup) (hm : (k, v) ∈ ps) : ps.lookup k = some v := by
  obtain ⟨w, hw⟩ : ∃ w, ps.lookup k = some w := by
    cases hl : ps.lookup k with
    | none => exact absurd (lookup_eq_none_iff.1 hl _ hm) (by simp)
    | some w => exact ⟨w, rfl⟩
  obtain ⟨l1, l2, rfl, -⟩ := lookup_eq_some_iff.1 hw
  have heq : (k, v) = (k, w) := inj_on_of_nodup_map hnodup hm (by simp) rfl
  rw [hw, (Prod.mk.inj heq).2]

/-- Entries that were all read. -/
theorem mapM_entries {α : Type} {r : α → Except String Json} {xs : List α} : ∀ {es},
      (xs.map fun x => (r x).map fun v => (x, v)).mapM id = .ok es →
        es.map Prod.fst = xs ∧ ∀ e ∈ es, r e.1 = .ok e.2 := by
  induction xs with
  | nil =>
    intro es h
    cases h
    exact ⟨rfl, by simp⟩
  | cons x xs ih =>
    intro es h
    rw [map_cons, mapM_cons] at h
    obtain ⟨e, he, h⟩ := bind_eq_ok.1 h
    obtain ⟨rest, hrest, h⟩ := bind_eq_ok.1 h
    obtain ⟨v, hv, rfl⟩ := map_eq_ok.1 he
    cases h
    obtain ⟨hfst, hall⟩ := ih hrest
    exact ⟨by rw [map_cons, hfst], forall_mem_cons.2 ⟨hv, hall⟩⟩

/-- A map keeps its keys. -/
theorem keysOf_read_map {t : GoType} (h : read m (.map t) x = .ok v) : v.keysOf = x.keysOf := by
  rw [read] at h
  split_ifs at h with hnull hobject
  · cases h
    rw [hnull]
  · obtain ⟨es, hes, rfl⟩ := map_eq_ok.1 h
    obtain ⟨hfst, -⟩ := mapM_entries hes
    refine Keys.ext_iff_mem.2 fun k => ?_
    rw [ofPairs, build, keysOf, Keys.mem_ofList, hfst]
    exact Iff.rfl

/-- **A field of a struct is what was read for it**, or was left out as empty. -/
theorem get_read_struct {field : String → GoType} {omitempty : String → Bool} {out : Json}
    (h : read m (.struct names field omitempty) x = .ok out) (hnodup : names.Nodup)
    (hf : f ∈ names) : ∃ v, read m (field f) (m.value names x f) = .ok v ∧
      (out.get f = v ∨ (out.get f = .null ∧ isEmpty (field f) v)) := by
  rw [read] at h
  split_ifs at h
  obtain ⟨es, hes, rfl⟩ := map_eq_ok.1 h
  obtain ⟨hfst, hall⟩ := mapM_entries hes
  obtain ⟨⟨f, v⟩, hm, rfl⟩ := mem_map.1 (hfst ▸ hf)
  have hkeys : (es.map Prod.fst).Nodup := hfst ▸ hnodup
  refine ⟨v, hall _ hm, ?_⟩
  rw [Json.get, Json.field_ofPairs]
  by_cases hout : (omitempty f && isEmpty (field f) v)
  · refine .inr ⟨?_, (and_eq_true_iff.1 hout).2⟩
    rw [lookup_eq_none_iff.2, Option.getD_none]
    intro e he
    obtain ⟨he, hkept⟩ := mem_filter.1 he
    rw [bne_iff_ne]
    rintro rfl
    have heq : (e.1, v) = e := inj_on_of_nodup_map hkeys hm he rfl
    rw [← heq] at hkept
    simp [hout] at hkept
  · refine .inl ?_
    have hkept : (f, v) ∈ es.filter fun e => !(omitempty e.1 && isEmpty (field e.1) e.2) :=
      mem_filter.2 ⟨hm, by rw [eq_false_iff.2 hout]; rfl⟩
    rw [lookup_of_mem (hkeys.sublist (filter_sublist.map _)) hkept, Option.getD_some]

/-- **A type sees nothing that a schema which fits it prunes.** -/
theorem read_prune (t : GoType) :
    ∀ s x, Fits t s → Exact m t x → read m t (s.prune x) = read m t x := by
  induction t with
  | leaf _ _ =>
    intro s x _ _
    cases x <;> rfl
  | free =>
    intro s x hfits _
    rw [hfits x]
  | pointer t ih =>
    intro s x hfits hexact
    simp [read, prune_eq_null, ih s x hfits hexact]
  | slice t ih =>
    intro s x hfits hexact
    cases x with
    | list n items =>
      rw [prune, read]
      congr 2
      rw [show (ofFn fun i => prune (items i) s.element) =
        (ofFn items).map fun v => prune v s.element from itemsOf_prune (.list n items) s, map_map]
      exact map_congr_left fun v hv => ih _ v hfits (hexact v hv)
    | _ => rfl
  | map t ih =>
    intro s x hfits hexact
    have hkeys : (s.prune x).keysOf.list = x.keysOf.list := by
      rw [keysOf_prune]
      exact filter_eq_self.2 fun k _ => (hfits k).1
    have hvalues : ∀ k ∈ x.keysOf.list, read m t ((s.prune x).get k) = read m t (x.get k) := by
      intro k hk
      rw [get_prune (hfits k).1, ih _ _ (hfits k).2 (hexact k hk)]
    simp only [read, prune_eq_null, isObject_prune, hkeys]
    rw [map_congr_left fun k hk => by rw [hvalues k hk]]
  | struct names field _ ih =>
    intro s x hfits hexact
    have hpruned : ∀ k ∈ (s.prune x).keysOf, ∀ f ∈ names, m.fold k = m.fold f → k = f := by
      intro k hk
      rw [keysOf_prune, Keys.mem_filter] at hk
      exact hexact.1 k hk.1
    have hvalues : ∀ f ∈ names, read m (field f) (m.value names (s.prune x) f) =
        read m (field f) (m.value names x f) := by
      intro f hf
      rw [value_eq_get hf hpruned, value_eq_get hf hexact.1, get_prune (hfits f hf).1,
        ih f _ _ (hfits f hf).2 (hexact.2 f hf)]
    simp only [read, prune_eq_null, isObject_prune]
    rw [map_congr_left fun f hf => by rw [hvalues f hf]]

/-- Pruning leaves an exact document exact. -/
theorem exact_prune (t : GoType) :
    ∀ s x, Fits t s → Exact m t x → Exact m t (s.prune x) := by
  induction t with
  | leaf | free => exact fun _ _ _ _ => trivial
  | pointer t ih => exact ih
  | slice t ih =>
    intro s x hfits hx v hv
    rw [itemsOf_prune] at hv
    obtain ⟨w, hw, rfl⟩ := List.mem_map.1 hv
    exact ih _ _ hfits (hx w hw)
  | map t ih =>
    intro s x hfits hx k hk
    rw [keysOf_prune, Keys.mem_filter] at hk
    rw [get_prune (hfits k).1]
    exact ih _ _ (hfits k).2 (hx k hk.1)
  | struct names field _ ih =>
    intro s x hfits hx
    refine ⟨fun k hk => ?_, fun f hf => ?_⟩
    · rw [keysOf_prune, Keys.mem_filter] at hk
      exact hx.1 k hk.1
    · rw [get_prune (hfits f hf).1]
      exact ih f _ _ (hfits f hf).2 (hx.2 f hf)

end GoJson
