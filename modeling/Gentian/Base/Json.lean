/-
# JSON documents

A JSON value up to what `encoding/json` writes for it: an object is its keys, in their order
and each once, with a value for each.  A number is the text it is written as.  `Json.get` is
Go's `m[key]` on a value that may be no map at all, which answers `nil` there.
-/

import Mathlib

namespace Documents

open List Option

/-! ### Keys -/

/-- The keys of an object, in order and each once. -/
structure Keys where
  list : List String
  sorted : list.Pairwise (· < ·)
deriving DecidableEq

namespace Keys

variable {ks ls : Keys} {k : String}

instance : Membership String Keys := ⟨fun ks k => k ∈ ks.list⟩

instance (k : String) (ks : Keys) : Decidable (k ∈ ks) := inferInstanceAs (Decidable (k ∈ ks.list))

theorem mem_def : k ∈ ks ↔ k ∈ ks.list := Iff.rfl

theorem sorted_nil : ([] : List String).Pairwise (· < ·) := .nil

theorem mem_attach (ks : Keys) (k : {k // k ∈ ks.list}) : k.1 ∈ ks := k.2

theorem nodup (ks : Keys) : ks.list.Nodup := ks.sorted.imp fun h => h.ne

/-- **Keys are the set of them.** -/
theorem ext_iff_mem : ks = ls ↔ ∀ k, k ∈ ks ↔ k ∈ ls := by
  refine ⟨fun h => by simp [h], fun h => ?_⟩
  have hperm : ks.list.Perm ls.list := (perm_ext_iff_of_nodup ks.nodup ls.nodup).2 h
  have hlist : ks.list = ls.list :=
    hperm.eq_of_pairwise (fun _ _ _ _ hab hba => absurd hba hab.asymm) ks.sorted ls.sorted
  cases ks
  cases ls
  simpa using hlist

/-- The keys that pass a test. -/
def filter (p : String → Bool) (ks : Keys) : Keys := ⟨ks.list.filter p, ks.sorted.filter p⟩

@[simp] theorem mem_filter {p : String → Bool} : k ∈ ks.filter p ↔ k ∈ ks ∧ p k :=
  List.mem_filter

/-- A key put into its place. -/
def insertInto (k : String) : List String → List String
  | [] => [k]
  | l :: ls => if k < l then k :: l :: ls else if k = l then l :: ls else l :: insertInto k ls

variable {xs : List String}

theorem mem_insertInto {l : String} : l ∈ insertInto k xs ↔ l = k ∨ l ∈ xs := by
  induction xs with
  | nil => simp [insertInto]
  | cons a xs ih =>
    unfold insertInto
    split_ifs with hlt heq
    · simp
    · simp [heq]
    · simp [ih, or_left_comm]

theorem pairwise_insertInto (h : xs.Pairwise (· < ·)) : (insertInto k xs).Pairwise (· < ·) := by
  induction xs with
  | nil => simp [insertInto]
  | cons a xs ih =>
    obtain ⟨hfirst, hrest⟩ := pairwise_cons.1 h
    unfold insertInto
    split_ifs with hlt heq
    · exact pairwise_cons.2 ⟨fun b hb => (mem_cons.1 hb).elim (· ▸ hlt)
        fun hb => hlt.trans (hfirst b hb), h⟩
    · exact h
    · have ha : a < k := lt_of_le_of_ne (not_lt.1 hlt) (Ne.symm heq)
      exact pairwise_cons.2 ⟨fun b hb => (mem_insertInto.1 hb).elim (· ▸ ha) (hfirst b), ih hrest⟩

/-- The keys of a list. -/
def ofList (ls : List String) : Keys :=
  ⟨ls.foldr insertInto [], by
    induction ls with
    | nil => exact List.Pairwise.nil
    | cons l ls ih => exact pairwise_insertInto ih⟩

@[simp] theorem mem_ofList : k ∈ ofList xs ↔ k ∈ xs := by
  change k ∈ xs.foldr insertInto [] ↔ k ∈ xs
  induction xs with
  | nil => rfl
  | cons l xs ih => rw [foldr_cons, mem_insertInto, ih, mem_cons]

theorem head_ofList_eq_none : (ofList xs).list.head? = none ↔ xs = [] := by
  rw [head?_eq_none_iff, eq_nil_iff_forall_not_mem, eq_nil_iff_forall_not_mem]
  exact forall_congr' fun _ => not_congr mem_ofList

/-- The keys of either. -/
def union (ks ls : Keys) : Keys := ofList (ks.list ++ ls.list)

@[simp] theorem mem_union : k ∈ ks.union ls ↔ k ∈ ks ∨ k ∈ ls := by
  rw [union, mem_ofList, mem_append]
  rfl

end Keys

/-! ### Values -/

/-- A JSON value; a number is its text. -/
inductive Json where
  | null
  | bool (b : Bool)
  | number (text : String)
  | string (text : String)
  | list (n : ℕ) (items : Fin n → Json)
  | object (keys : Keys) (fields : {k // k ∈ keys} → Json)

/-- A step into a value. -/
inductive Step where
  | key (k : String)
  | index (i : ℕ)
deriving DecidableEq

namespace Json

variable {j : Json} {k : String}

/-- Whether two values are equal can be decided. -/
def decEq : (a b : Json) → Decidable (a = b)
  | .null, .null => isTrue rfl
  | .bool x, .bool y => decidable_of_iff (x = y) (by simp)
  | .number x, .number y => decidable_of_iff (x = y) (by simp)
  | .string x, .string y => decidable_of_iff (x = y) (by simp)
  | .list n xs, .list m ys =>
    if h : n = m then
      have := fun i : Fin n => decEq (xs i) (ys (i.cast h))
      decidable_of_iff (∀ i, xs i = ys (i.cast h)) (by subst h; simp [funext_iff])
    else isFalse (by simp [h])
  | .object ks f, .object ls g =>
    if h : ks = ls then
      have := fun k : {k // k ∈ ks} => decEq (f k) (g ⟨k.1, h ▸ k.2⟩)
      decidable_of_iff (∀ k ∈ ks.list.attach, f ⟨k.1, k.2⟩ = g ⟨k.1, h ▸ k.2⟩) (by
        subst h
        simp only [object.injEq, heq_eq_eq, true_and, funext_iff]
        exact ⟨fun h k => h ⟨k.1, k.2⟩ (mem_attach _ _), fun h k _ => h ⟨k.1, k.2⟩⟩)
    else isFalse (by simp [h])
  | .null, .bool _ | .null, .number _ | .null, .string _ | .null, .list _ _ | .null, .object _ _
  | .bool _, .null | .bool _, .number _ | .bool _, .string _ | .bool _, .list _ _
  | .bool _, .object _ _ | .number _, .null | .number _, .bool _ | .number _, .string _
  | .number _, .list _ _ | .number _, .object _ _ | .string _, .null | .string _, .bool _
  | .string _, .number _ | .string _, .list _ _ | .string _, .object _ _ | .list _ _, .null
  | .list _ _, .bool _ | .list _ _, .number _ | .list _ _, .string _ | .list _ _, .object _ _
  | .object _ _, .null | .object _ _, .bool _ | .object _ _, .number _ | .object _ _, .string _
  | .object _ _, .list _ _ => isFalse (by simp)

instance : DecidableEq Json := decEq

/-- `m[key]` and whether it is there, for a value that is a map. -/
def field (j : Json) (k : String) : Option Json :=
  match j with
  | .object keys fields => if h : k ∈ keys then some (fields ⟨k, h⟩) else none
  | _ => none

/-- An item of a list. -/
def item (j : Json) (i : ℕ) : Option Json :=
  match j with
  | .list n items => if h : i < n then some (items ⟨i, h⟩) else none
  | _ => none

/-- `m[key]`, `nil` where there is none. -/
def get (j : Json) (k : String) : Json := (j.field k).getD .null

/-- The keys of a value, none where it is no object. -/
def keysOf : Json → Keys
  | .object keys _ => keys
  | _ => ⟨[], .nil⟩

/-- The items of a value, none where it is no list. -/
def itemsOf : Json → List Json
  | .list _ items => ofFn items
  | _ => []

/-- `v.(string)`, empty for any other value. -/
def text : Json → String
  | .string s => s
  | _ => ""

/-- `v.(map[string]any)` succeeds. -/
def isObject : Json → Bool
  | .object _ _ => true
  | _ => false

/-- What one step reaches. -/
def step (j : Json) : Step → Option Json
  | .key k => j.field k
  | .index i => j.item i

/-- What a way into a value reaches. -/
def valueAt : Json → List Step → Option Json
  | j, [] => some j
  | j, s :: ss => (j.step s).bind fun child => child.valueAt ss

/-- What a way into a value reaches, null where it ends before. -/
def reach (j : Json) (ss : List Step) : Json := (j.valueAt ss).getD .null

/-- The keys in which two values differ. -/
def differing (a b : Json) : List String :=
  (a.keysOf.union b.keysOf).list.filter fun k => a.field k ≠ b.field k

/-- The object of these keys. -/
def build (keys : Keys) (f : String → Json) : Json := .object keys fun k => f k.1

/-- The object of these entries; of two for a key the first counts. -/
def ofPairs (ps : List (String × Json)) : Json :=
  build (.ofList (ps.map Prod.fst)) fun k => (ps.lookup k).getD .null

/-- The list of these items. -/
def ofItems (xs : List Json) : Json := .list xs.length xs.get

/-- A value with the text of each number replaced. -/
def mapNumbers (f : String → String) : Json → Json
  | .null => .null
  | .bool b => .bool b
  | .number text => .number (f text)
  | .string text => .string text
  | .list n items => .list n fun i => mapNumbers f (items i)
  | .object keys fields => .object keys fun k => mapNumbers f (fields k)

/-- Every number of the value is as `p` says. -/
def Numbers (p : String → Prop) : Json → Prop
  | .null | .bool _ | .string _ => True
  | .number text => p text
  | .list _ items => ∀ i, Numbers p (items i)
  | .object _ fields => ∀ k, Numbers p (fields k)

/-- Only the texts of its numbers matter. -/
theorem mapNumbers_congr {f g : String → String}
    (h : j.Numbers fun text => f text = g text) : j.mapNumbers f = j.mapNumbers g := by
  induction j with
  | null | bool | string => rfl
  | number text => exact congrArg _ h
  | list n _ ih => exact congrArg _ (funext fun i => ih i (h i))
  | object _ _ ih => exact congrArg _ (funext fun k => ih k (h k))

@[simp] theorem valueAt_nil (j : Json) : j.valueAt [] = some j := rfl

@[simp] theorem valueAt_cons (j : Json) (s : Step) (ss : List Step) :
    j.valueAt (s :: ss) = (j.step s).bind fun child => child.valueAt ss := rfl

@[simp] theorem reach_nil (j : Json) : j.reach [] = j := rfl

@[simp] theorem reach_null (ss : List Step) : Json.null.reach ss = .null := by
  cases ss with
  | nil => rfl
  | cons s ss => cases s <;> rfl

theorem reach_cons (j : Json) (s : Step) (ss : List Step) :
    j.reach (s :: ss) = ((j.step s).getD .null).reach ss := by
  cases h : j.step s with
  | none =>
    rw [getD_none, reach_null]
    simp [reach, h]
  | some _ => simp [reach, h]

variable {v : Json}

variable {a b : Json} {ss : List Step}

theorem reach_eq_of_valueAt (h : j.valueAt ss = some v) : j.reach ss = v := by
  rw [reach, h, getD_some]

/-- What is reached and not null is there. -/
theorem valueAt_of_reach (h : j.reach ss = v) (hv : v ≠ .null) : j.valueAt ss = some v := by
  cases hf : j.valueAt ss with
  | none =>
    rw [reach, hf] at h
    exact absurd h.symm hv
  | some w =>
    rw [reach, hf, getD_some] at h
    rw [h]

variable {keys : Keys} {fields : {k // k ∈ keys} → Json}

theorem field_object (h : k ∈ keys) :
    (object keys fields).field k = some (fields ⟨k, h⟩) := dif_pos h

theorem field_object_of_not_mem (h : k ∉ keys) : (object keys fields).field k = none := dif_neg h

@[simp] theorem field_build (keys : Keys) (f : String → Json) :
    (build keys f).field k = if k ∈ keys then some (f k) else none := by
  change dite _ _ _ = ite _ _ _
  split_ifs <;> rfl

/-- The field of an object of entries. -/
theorem field_ofPairs {ps : List (String × Json)} : (ofPairs ps).field k = ps.lookup k := by
  rw [ofPairs, field_build]
  split_ifs with hk <;> rw [Keys.mem_ofList] at hk
  · cases hl : ps.lookup k with
    | none =>
      obtain ⟨⟨l, v⟩, hm, rfl⟩ := mem_map.1 hk
      have hne := lookup_eq_none_iff.1 hl _ hm
      simp at hne
    | some v => rfl
  · refine (lookup_eq_none_iff.2 fun e he => ?_).symm
    simpa using fun h : k = e.1 => hk (mem_map.2 ⟨e, he, h.symm⟩)

@[simp] theorem isSome_field_object : ((object keys fields).field k).isSome ↔ k ∈ keys := by
  change (dite _ _ _ : Option Json).isSome ↔ _
  split_ifs with h <;> simp [h]

/-- **An object is what its keys answer.** -/
theorem object_ext {ks ls : Keys} {f : {k // k ∈ ks} → Json} {g : {k // k ∈ ls} → Json}
    (h : ∀ k, (object ks f).field k = (object ls g).field k) : object ks f = object ls g := by
  have hkeys : ks = ls := Keys.ext_iff_mem.2 fun k => by
    rw [← (isSome_field_object : _ ↔ k ∈ ks), h k, isSome_field_object]
  subst hkeys
  refine congrArg _ (funext fun ⟨k, hk⟩ => ?_)
  have := h k
  rwa [field_object hk, field_object hk, some.injEq] at this

@[simp] theorem isObject_object : (object keys fields).isObject := rfl

/-- Two objects are equal when their fields are. -/
theorem ext_of_isObject (ha : a.isObject) (hb : b.isObject)
    (h : ∀ k, a.field k = b.field k) : a = b := by
  cases a with
  | object _ f =>
    cases b with
    | object _ g => exact object_ext h
    | _ => cases hb
  | _ => cases ha

/-- The keys are those with a field. -/
theorem mem_keysOf : k ∈ j.keysOf ↔ (j.field k).isSome := by
  cases j with
  | object _ _ => exact isSome_field_object.symm
  | _ => exact iff_of_false not_mem_nil (by simp [field])

/-- Values that differ in no key have the same fields. -/
theorem differing_eq_nil : a.differing b = [] ↔ ∀ k, a.field k = b.field k := by
  rw [differing, filter_eq_nil_iff]
  constructor
  · intro h k
    by_cases hk : k ∈ a.keysOf.union b.keysOf
    · simpa using h k hk
    · rw [Keys.mem_union, not_or, mem_keysOf, mem_keysOf] at hk
      rw [not_isSome_iff_eq_none.1 hk.1, not_isSome_iff_eq_none.1 hk.2]
  · intro h k _
    simp [h k]

theorem get_eq_null_of_not_mem (h : k ∉ j.keysOf) : j.get k = .null := by
  cases hf : j.field k with
  | none => rw [get, hf, getD_none]
  | some v => exact absurd (mem_keysOf.2 (by rw [hf]; rfl)) h

/-- What is no object has no fields. -/
theorem field_of_not_isObject (h : j.isObject = false) : j.field k = none := by
  cases j with
  | object _ _ => cases h
  | _ => rfl

theorem get_of_not_isObject (h : j.isObject = false) : j.get k = .null := by
  cases j with
  | object _ _ => cases h
  | _ => rfl

theorem field_of_get (h : j.get k = v) (hv : v ≠ .null) : j.field k = some v := by
  cases hf : j.field k with
  | none =>
    rw [get, hf] at h
    exact absurd h.symm hv
  | some w =>
    rw [get, hf, getD_some] at h
    rw [h]

theorem field_eq_some : j.field k = some v ↔
    ∃ keys fields, ∃ h, j = object keys fields ∧ fields ⟨k, h⟩ = v := by
  constructor
  · intro h
    cases j with
    | object keys fields =>
      by_cases hk : k ∈ keys
      · rw [field_object hk] at h
        exact ⟨keys, fields, hk, rfl, some.inj h⟩
      · simp [field_object_of_not_mem hk] at h
    | _ => simp [field] at h
  · rintro ⟨keys, fields, hk, rfl, rfl⟩
    exact field_object hk

theorem item_eq_some {i : ℕ} : j.item i = some v ↔
    ∃ n items, ∃ h, j = list n items ∧ items ⟨i, h⟩ = v := by
  constructor
  · intro h
    cases j with
    | list n items =>
      change dite _ _ _ = _ at h
      split_ifs at h with hi
      exact ⟨n, items, hi, rfl, some.inj h⟩
    | _ => simp [item] at h
  · rintro ⟨n, items, hi, rfl, rfl⟩
    exact dif_pos hi

end Json

end Documents
