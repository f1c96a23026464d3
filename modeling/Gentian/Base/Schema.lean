/-
# Structural schemas and pruning

A structural schema as the API server of Kubernetes reads it: the properties it names, a schema
for the other keys (`additionalProperties`) and for the elements of a list (`items`), and
whether unknown fields are kept (`x-kubernetes-preserve-unknown-fields`).  Go's nil pointer is
`absent`.

`prune` is what is left of a value that is stored under a schema.  What a node does specify is
pruned by its own schema, also where the node keeps unknown fields.
-/

import Gentian.Base.Json

namespace Documents

/-- A structural schema, or none. -/
inductive Schema where
  | absent
  | node (preserve nullable : Bool) (default : Option Json) (names : Keys)
      (property : String → Schema) (allows : Bool) (values items : Schema)

namespace Schema

variable {s : Schema} {k : String}

/-- Whether there is a schema. -/
def present : Schema → Bool
  | absent => false
  | node .. => true

/-- `x-kubernetes-preserve-unknown-fields`. -/
def preserves : Schema → Bool
  | absent => false
  | node preserve .. => preserve

/-- `null` is a value here. -/
def nullable : Schema → Bool
  | absent => false
  | node _ nullable .. => nullable

/-- The default of what the schema is for. -/
def default : Schema → Option Json
  | absent => none
  | node _ _ default .. => default

/-- The names of the properties. -/
def names : Schema → Keys
  | absent => ⟨[], Keys.sorted_nil⟩
  | node _ _ _ names .. => names

/-- The schema of a property. -/
def property : Schema → String → Schema
  | absent, _ => absent
  | node _ _ _ names property .., k => if k ∈ names then property k else absent

/-- `additionalProperties: true`. -/
def allows : Schema → Bool
  | absent => false
  | node _ _ _ _ _ allows .. => allows

/-- The schema under `additionalProperties`, if there is one. -/
def values : Schema → Schema
  | absent => absent
  | node _ _ _ _ _ _ values _ => values

/-- The schema of the items. -/
def items : Schema → Schema
  | absent => absent
  | node _ _ _ _ _ _ _ items => items

@[simp] theorem present_absent : absent.present = false := rfl

@[simp] theorem preserves_absent : absent.preserves = false := rfl

@[simp] theorem allows_absent : absent.allows = false := rfl

@[simp] theorem property_absent (k : String) : absent.property k = absent := rfl

@[simp] theorem values_absent : absent.values = absent := rfl

@[simp] theorem items_absent : absent.items = absent := rfl

section Node

variable {preserve null allow : Bool} {value : Option Json} {keys : Keys} {below : String → Schema}
  {others elements : Schema}

@[simp] theorem present_node :
    (node preserve null value keys below allow others elements).present := rfl

@[simp] theorem preserves_node :
    (node preserve null value keys below allow others elements).preserves = preserve := rfl

@[simp] theorem allows_node :
    (node preserve null value keys below allow others elements).allows = allow := rfl

@[simp] theorem values_node :
    (node preserve null value keys below allow others elements).values = others := rfl

@[simp] theorem items_node :
    (node preserve null value keys below allow others elements).items = elements := rfl

theorem property_node : (node preserve null value keys below allow others elements).property k =
    if k ∈ keys then below k else absent := rfl

theorem property_node_of_mem (h : k ∈ keys) :
    (node preserve null value keys below allow others elements).property k = below k := if_pos h

end Node

theorem mem_names_of_property (h : (s.property k).present) : k ∈ s.names := by
  cases s with
  | absent => simp at h
  | node _ _ _ names property =>
    by_contra hk
    have : ¬ k ∈ names := hk
    simp [Schema.property, this] at h

theorem eq_absent (h : s.present = false) : s = absent := by
  cases s with
  | absent => rfl
  | node => cases h

theorem present_of_default {d : Json} (h : s.default = some d) : s.present := by
  cases s with
  | absent => cases h
  | node => rfl

/-- **Induction over a schema by its parts.** -/
theorem parts_induction {P : Schema → Prop} (habsent : P absent)
    (hparts : ∀ s, (∀ k, P (s.property k)) → P s.values → P s.items → P s) (s : Schema) : P s := by
  induction s with
  | absent => exact habsent
  | node _ _ _ _ property _ values items hproperty hvalues hitems =>
    refine hparts _ (fun k => ?_) hvalues hitems
    rw [property_node]
    split_ifs
    · exact hproperty k
    · exact habsent

/-- The schema that keeps all there is. -/
def everything : Schema :=
  node true false none ⟨[], Keys.sorted_nil⟩ (fun _ => absent) false absent absent

/-- The schema of a value without parts. -/
def leaf : Schema := node false false none ⟨[], Keys.sorted_nil⟩ (fun _ => absent) false absent absent

/-- An object of these properties, which keeps unknown fields or not. -/
def struct (preserve : Bool) (ps : List (String × Schema)) : Schema :=
  node preserve false none (.ofList (ps.map Prod.fst)) (fun k => (ps.lookup k).getD absent) false
    absent absent

variable {j : Json} {ps : List (String × Schema)}

/-- The properties of an object. -/
theorem property_struct {preserve : Bool} :
    (struct preserve ps).property k = (ps.lookup k).getD absent := by
  rw [struct, property_node]
  split_ifs with hk
  · rfl
  · rw [Keys.mem_ofList] at hk
    rw [List.lookup_eq_none_iff.2, Option.getD_none]
    intro e he
    simpa using fun h : k = e.1 => hk (List.mem_map.2 ⟨e, he, h.symm⟩)

theorem mem_of_property_struct {preserve : Bool} (h : ((struct preserve ps).property k).present) :
    (k, (struct preserve ps).property k) ∈ ps := by
  rw [property_struct] at h ⊢
  cases hl : ps.lookup k with
  | none =>
    rw [hl] at h
    cases h
  | some p =>
    obtain ⟨-, -, rfl, -⟩ := List.lookup_eq_some_iff.1 hl
    simp

/-- The schema of a list. -/
def listOf (s : Schema) : Schema :=
  node false false none ⟨[], Keys.sorted_nil⟩ (fun _ => absent) false absent s

/-- What every resource has at its root. -/
def rootKeys : List String := ["apiVersion", "kind", "metadata"]

/-- The schema a whole resource is pruned by: what every resource has is kept. -/
def atRoot : Schema → Schema
  | absent => absent
  | node preserve nullable value keys below allow others elements =>
    node preserve nullable value (keys.union (.ofList rootKeys))
      (fun k => if k ∈ rootKeys then everything else below k) allow others elements

/-- What every resource has is kept at the root. -/
theorem property_atRoot (hs : s.present) :
    s.atRoot.property k = if k ∈ rootKeys then everything else s.property k := by
  cases s with
  | absent => cases hs
  | node _ _ _ keys _ _ _ _ =>
    rw [atRoot, property_node, property_node]
    by_cases hk : k ∈ rootKeys <;> by_cases hn : k ∈ keys <;> simp [hk]

@[simp] theorem values_atRoot : s.atRoot.values = s.values := by cases s <;> rfl

@[simp] theorem items_atRoot : s.atRoot.items = s.items := by cases s <;> rfl

/-- Whether a key is kept when a document is pruned. -/
def keeps (s : Schema) (k : String) : Bool :=
  (s.property k).present || s.values.present || s.allows || s.preserves

/-- The schema that what is under a key is pruned by. -/
def child (s : Schema) (k : String) : Schema :=
  if (s.property k).present then s.property k
  else if s.values.present then s.values
  else if s.allows then absent
  else if s.preserves then everything
  else absent

/-- The schema that items are pruned by. -/
def element (s : Schema) : Schema :=
  if s.items.present then s.items else if s.preserves then everything else absent

/-- A document without what its schema does not keep. -/
def prune : Json → Schema → Json
  | .object keys fields, s =>
    .object (keys.filter s.keeps) fun k => prune (fields ⟨k.1, (Keys.mem_filter.1 k.2).1⟩)
      (s.child k.1)
  | .list n items, s => .list n fun i => prune (items i) s.element
  | .null, _ => .null
  | .bool b, _ => .bool b
  | .number text, _ => .number text
  | .string text, _ => .string text

/-- What is left of a field. -/
theorem field_prune (j : Json) (s : Schema) (k : String) : (prune j s).field k =
      if s.keeps k then (j.field k).map fun v => prune v (s.child k) else none := by
  cases j with
  | object keys _ =>
    by_cases hk : k ∈ keys <;> by_cases hs : s.keeps k
    · rw [prune, Json.field_object (Keys.mem_filter.2 ⟨hk, hs⟩), Json.field_object hk, if_pos hs]
      rfl
    · rw [prune, Json.field_object_of_not_mem fun h => hs (Keys.mem_filter.1 h).2, if_neg hs]
    · rw [prune, Json.field_object_of_not_mem fun h => hk (Keys.mem_filter.1 h).1,
        Json.field_object_of_not_mem hk, if_pos hs]
      rfl
    · rw [prune, Json.field_object_of_not_mem fun h => hs (Keys.mem_filter.1 h).2, if_neg hs]
  | _ => simp [prune, Json.field]

theorem item_prune (j : Json) (s : Schema) (i : ℕ) :
    (prune j s).item i = (j.item i).map fun v => prune v s.element := by
  cases j with
  | list n _ =>
    change dite _ _ _ = Option.map _ (dite _ _ _)
    split_ifs <;> rfl
  | _ => rfl

/-- The keys that are left. -/
theorem keysOf_prune (j : Json) (s : Schema) : (prune j s).keysOf = j.keysOf.filter s.keeps := by
  cases j <;> rfl

theorem itemsOf_prune (j : Json) (s : Schema) :
    (prune j s).itemsOf = j.itemsOf.map fun v => prune v s.element := by
  cases j with
  | list n items =>
    change List.ofFn (fun i => prune (items i) s.element) = (List.ofFn items).map _
    rw [List.map_ofFn]
    rfl
  | _ => rfl

/-- What is left under a key that is kept. -/
theorem get_prune (h : s.keeps k) : (prune j s).get k = prune (j.get k) (s.child k) := by
  rw [Json.get, Json.get, field_prune, if_pos h]
  cases j.field k <;> rfl

@[simp] theorem isObject_prune (j : Json) (s : Schema) : (prune j s).isObject = j.isObject := by
  cases j <;> rfl

/-- Pruning makes nothing null. -/
theorem prune_eq_null : prune j s = .null ↔ j = .null := by
  cases j <;> simp [prune]

/-- The schema one step further is held to, `none` where the value is dropped. -/
def step (s : Schema) : Step → Option Schema
  | .key k => if s.keeps k then some (s.child k) else none
  | .index _ => some s.element

/-- The schema a place is held to, `none` where its value is dropped. -/
def walk : Schema → List Step → Option Schema
  | s, [] => some s
  | s, t :: ts => (s.step t).bind fun s' => s'.walk ts

@[simp] theorem walk_nil (s : Schema) : s.walk [] = some s := rfl

@[simp] theorem walk_cons (s : Schema) (t : Step) (ts : List Step) :
    s.walk (t :: ts) = (s.step t).bind fun s' => s'.walk ts := rfl

/-- A step into a pruned document. -/
theorem step_prune (j : Json) (s : Schema) (t : Step) :
    (prune j s).step t = (s.step t).bind fun s' => (j.step t).map fun v => prune v s' := by
  cases t with
  | key k =>
    change (prune j s).field k = _
    rw [field_prune, step]
    split_ifs <;> rfl
  | index i => exact item_prune j s i

/-- **Pruning is local**: what is left at a place is the value there, under the schema the place
is held to. -/
theorem valueAt_prune (j : Json) (s : Schema) (ts : List Step) :
    (prune j s).valueAt ts = (s.walk ts).bind fun s' => (j.valueAt ts).map fun v => prune v s' := by
  induction ts generalizing j s with
  | nil => rfl
  | cons t ts ih =>
    rw [Json.valueAt_cons, walk_cons, step_prune, Json.valueAt_cons]
    cases s.step t with
    | none => rfl
    | some s' =>
      cases j.step t with
      | none => simp
      | some v => simp [ih]

theorem walk_everything (ts : List Step) : everything.walk ts = some everything := by
  induction ts with
  | nil => rfl
  | cons t ts ih => cases t <;> exact ih

/-- What is pruned is what the schema does not reach. -/
theorem valueAt_prune_eq_none {v : Json} {ts : List Step}
    (h : j.valueAt ts = some v) : (prune j s).valueAt ts = none ↔ s.walk ts = none := by
  rw [valueAt_prune, h]
  cases s.walk ts <;> simp

end Schema

end Documents
