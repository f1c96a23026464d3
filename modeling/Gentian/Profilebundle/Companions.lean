/-
# A companion on the cluster, against the bundle

`internal/profilebundle/companions.go`: `companionDiffers` and the comparisons it is made of.

`stated` walks the bundle's document: inside an object the cluster may say more, inside a list it
may not, and the `input` of a pipeline step is compared whole.  The walk goes by the bundle's keys,
so an input given to a step that has none is not seen (`input_slipped_in`).

Two values that marshal to the same JSON are one `Json` value, a number being the text it marshals
to.  Reading a spec through a Go type is a parameter.
-/

import Gentian.Profilebundle.Bundle

namespace Gentian.Profilebundle

open Documents GoStrings Option Bool Json List

/-! ### The comparisons -/

/-- An object that is not there is an empty one. -/
def orEmpty : Json → Json
  | .null => .ofPairs []
  | v => v

/-- `labelsDiffer`; `none` where it answers no key. -/
def labelsDiffer (said live : Json) : Option String :=
  let want := labelsOf said
  let found := labelsOf live
  (Keys.ofList
    (want.keysOf.list.filter (fun key => found.get key ≠ want.get key) ++
      found.keysOf.list.filter fun key =>
        !decide (key ∈ want.keysOf) && hasPrefix key ownedPrefix)).list.head?

/-- `exact`: the path, where the two sides are not the same. -/
def exact (said live : Json) (path : String) : Option String :=
  if said = live then none else some path

/-- `typed`, reading both sides through a type. -/
def typed (through : Json → Except String Json) (said live : Json) :
    Except String (Option String) := do
  let left ← (through (orEmpty said)).mapError fun err => "the bundle's: " ++ err
  let right ← (through (orEmpty live)).mapError fun err => "the cluster's: " ++ err
  pure ((left.differing right).head?.map fun key => "spec." ++ key)

/-- `stated`: the first place the cluster does not say what the bundle states. -/
def stated : Json → Json → String → Option String
  | .object keys fields, live, path =>
    if live.isObject then
      keys.list.attach.findSome? fun key =>
        if key.1 = "input" ∧ hasPrefix path "spec.pipeline[" then
          exact (fields ⟨key.1, keys.mem_attach key⟩) (live.get key.1) (path ++ "." ++ key.1)
        else stated (fields ⟨key.1, keys.mem_attach key⟩) (live.get key.1) (path ++ "." ++ key.1)
    else if keys.list = [] ∧ live = .null then none
    else some path
  | .list n items, live, path =>
    match live with
    | .list m found =>
      if m ≠ n then some path
      else (List.finRange n).findSome? fun i =>
        stated (items i) (((Json.list m found).item i).getD .null)
          (path ++ "[" ++ toString i.1 ++ "]")
    | .null => if n = 0 then none else some path
    | _ => some path
  -- Stated as nothing: the API server keeps no null.
  | .null, _, _ => none
  | .bool b, live, path => exact (.bool b) live path
  | .number text, live, path => exact (.number text) live path
  | .string text, live, path => exact (.string text) live path

/-- The specs that are read through a type. -/
structure Types where
  oidcPackCatalogSpec : Json → Except String Json
  customizationSpec : Json → Except String Json

/-- `companionDiffers`: where a companion on the cluster is not as it was stated. -/
def companionDiffers (types : Types) (said : Companion) (live : Json) :
    Except String (Option String) :=
  match labelsDiffer said.object live with
  | some key => .ok (some ("label " ++ key))
  | none =>
    if said.kind = "ConfigMap" then
      if (live.get "binaryData").keysOf.list ≠ [] then .ok (some "binaryData")
      else .ok (exact (orEmpty (said.object.get "data")) (orEmpty (live.get "data")) "data")
    else if said.kind = "OIDCPackCatalog" then
      typed types.oidcPackCatalogSpec (said.object.get "spec") (live.get "spec")
    else if said.kind = "Customization" then
      typed types.customizationSpec (said.object.get "spec") (live.get "spec")
    else if said.kind = "Composition" then
      .ok (stated (said.object.get "spec") (live.get "spec") "spec")
    else .error ("a " ++ said.kind ++ " is not a kind that is compared")

/-! ### What agrees -/

/-- A value that is as good as none. -/
def isNothing : Json → Bool
  | .null => true
  | .object keys _ => keys.list = []
  | .list n _ => n = 0
  | .bool _ | .number _ | .string _ => false

/-- The cluster says what the bundle says at one place: an object for an object, a list of the same
length for a list, the same value for any other. -/
def Agrees : Json → Json → Prop
  | .object _ _, w => w.isObject = true
  | .list n _, w => ∃ items, w = .list n items
  | .null, w => w = .null
  | .bool b, w => w = .bool b
  | .number text, w => w = .number text
  | .string text, w => w = .string text

/-- What the walk lets pass at one place: what is stated as nothing may also be left out, and for a
null there may be anything. -/
def Passes (v w : Json) : Prop :=
  Agrees v w ∨ (isNothing v = true ∧ (v = .null ∨ w = .null))

variable {said live v w : Json} {path : String} {k : String} {places : List Step}

theorem exact_eq_none : exact said live path = none ↔ said = live := by
  unfold exact
  split_ifs with h <;> simp [h]

theorem agrees_refl (v : Json) : Agrees v v := by
  cases v with
  | object _ _ => rfl
  | list n items => exact ⟨items, rfl⟩
  | _ => rfl

theorem ne_null_of_agrees (h : Agrees v w) (hv : v ≠ .null) : w ≠ .null := by
  rintro rfl
  cases v with
  | object _ _ => cases h
  | list n _ =>
    obtain ⟨_, h⟩ := h
    cases h
  | null => exact hv rfl
  | _ => cases h

theorem passes_root (h : stated said live path = none) : Passes said live := by
  cases said with
  | object _ _ =>
    unfold stated at h
    split_ifs at h with hobject hempty
    · exact .inl hobject
    · exact .inr ⟨decide_eq_true hempty.1, .inr hempty.2⟩
  | list n _ =>
    unfold stated at h
    split at h
    · split_ifs at h with hm
      obtain rfl := not_not.1 hm
      exact .inl ⟨_, rfl⟩
    · split_ifs at h with hn
      exact .inr ⟨decide_eq_true hn, .inr rfl⟩
    · cases h
  | null => exact .inr ⟨rfl, .inl rfl⟩
  | bool | number | string => exact .inl (exact_eq_none.1 h).symm

/-- What is stated of an object is stated of its fields. -/
theorem stated_field (h : stated said live path = none) (hv : said.field k = some v) :
    if k = "input" ∧ hasPrefix path "spec.pipeline[" then live.get k = v
    else stated v (live.get k) (path ++ "." ++ k) = none := by
  obtain ⟨keys, fields, hk, rfl, rfl⟩ := field_eq_some.1 hv
  unfold stated at h
  split_ifs at h with hobject hempty
  · have hkey := findSome?_eq_none_iff.1 h ⟨k, hk⟩ (mem_attach _ _)
    split_ifs at hkey ⊢ with hinput
    · exact (exact_eq_none.1 hkey).symm
    · exact hkey
  · have hnone : k ∈ keys.list := hk
    rw [hempty.1] at hnone
    cases hnone

variable {j : Json} {key : String} {i : ℕ}

/-- What is stated of a list is stated of its items. -/
theorem stated_item (h : stated said live path = none) (hv : said.item i = some v) :
    stated v ((live.item i).getD .null) (path ++ "[" ++ toString i ++ "]") = none := by
  obtain ⟨n, items, hi, rfl, rfl⟩ := item_eq_some.1 hv
  unfold stated at h
  split at h
  · split_ifs at h with hm
    exact findSome?_eq_none_iff.1 h ⟨i, hi⟩ (mem_finRange _)
  · split_ifs at h
    omega
  · cases h

/-- **At every place where the bundle says something, the cluster says so too**, whatever the two
documents are. -/
theorem passes_of_stated : ∀ {said live} {path : String}, stated said live path = none →
      said.valueAt places = some v → Passes v (live.reach places) := by
  induction places with
  | nil =>
    intro said live path h hv
    cases hv
    exact passes_root h
  | cons place places ih =>
    intro said live path h hv
    obtain ⟨child, hchild, hrest⟩ := bind_eq_some_iff.1 hv
    rw [reach_cons]
    cases place with
    | key k =>
      have hfield := stated_field h hchild
      change Passes v ((live.get k).reach places)
      split_ifs at hfield with hinput
      · rw [hfield, reach_eq_of_valueAt hrest]
        exact .inl (agrees_refl v)
      · exact ih hfield hrest
    | index i => exact ih (stated_item h hchild) hrest

/-! ### Pipelines -/

/-- A step of a pipeline. -/
def stepAt (spec : Json) (i : ℕ) : Option Json := (spec.get "pipeline").item i

theorem hasPrefix_step (i : ℕ) :
    hasPrefix ("spec" ++ "." ++ "pipeline" ++ "[" ++ toString i ++ "]") "spec.pipeline[" := by
  rw [String.append_assoc]
  exact hasPrefix_append _ _

/-- **The input a step states is the cluster's, whole.** -/
theorem input_of_stated {pipeline step input : Json} (h : stated said live "spec" = none)
    (hpipeline : said.field "pipeline" = some pipeline) (hstep : pipeline.item i = some step)
    (hinput : step.field "input" = some input) :
    ((stepAt live i).getD .null).get "input" = input := by
  have hfield := stated_field h hpipeline
  have hitem := stated_field (stated_item hfield hstep) hinput
  rwa [if_pos ⟨rfl, hasPrefix_step i⟩] at hitem

/-- A value of which no part is nothing. -/
def definite : Json → Bool
  | .null => false
  | .object keys fields =>
    keys.list ≠ [] && keys.list.attach.all fun k => definite (fields ⟨k.1, k.2⟩)
  | .list n items => n ≠ 0 && (List.finRange n).all fun i => definite (items i)
  | .bool _ | .number _ | .string _ => true

/-- A definite value has no part that is nothing. -/
theorem isNothing_of_definite :
    ∀ {j}, definite j → j.valueAt places = some v → isNothing v = false := by
  induction places with
  | nil =>
    intro j hdefinite hv
    cases hv
    cases v with
    | null => cases hdefinite
    | object | list =>
      simpa [isNothing] using (and_eq_true_iff.1 hdefinite).1
    | _ => rfl
  | cons place places ih =>
    intro j hdefinite hv
    obtain ⟨child, hchild, hrest⟩ := bind_eq_some_iff.1 hv
    refine ih ?_ hrest
    cases place with
    | key k =>
      obtain ⟨keys, fields, hk, rfl, rfl⟩ := field_eq_some.1 hchild
      exact all_eq_true.1 (and_eq_true_iff.1 hdefinite).2 ⟨k, hk⟩ (mem_attach _ _)
    | index i =>
      obtain ⟨n, items, hi, rfl, rfl⟩ := item_eq_some.1 hchild
      exact all_eq_true.1 (and_eq_true_iff.1 hdefinite).2 ⟨i, hi⟩ (mem_finRange _)

/-- An object that states one field, and whose others are something all through. -/
def definiteBut (key : String) (j : Json) : Bool :=
  j.get key ≠ .null && j.keysOf.list.all fun k => k = key || definite (j.get k)

/-- A spec with a pipeline whose every step states its input, and that is something all through
outside of the inputs. -/
def fullyStated (spec : Json) : Bool :=
  definiteBut "pipeline" spec &&
    match spec.get "pipeline" with
    | .list n steps => n ≠ 0 && (List.finRange n).all fun i => definiteBut "input" (steps i)
    | _ => false

theorem field_of_definiteBut (h : definiteBut key j) :
    j.field key = some (j.get key) ∧ j.get key ≠ .null := by
  have hne := of_decide_eq_true (and_eq_true_iff.1 h).1
  exact ⟨field_of_get rfl hne, hne⟩

/-- What is nothing is under the key. -/
theorem nothing_under (h : definiteBut key j)
    (hv : j.valueAt places = some v) (hnothing : isNothing v) :
    ∃ rest, places = .key key :: rest ∧ (j.get key).valueAt rest = some v := by
  obtain ⟨hkey, -⟩ := field_of_definiteBut h
  obtain ⟨-, hall⟩ := and_eq_true_iff.1 h
  obtain _ | ⟨place, rest⟩ := places
  · cases hv
    obtain ⟨keys, fields, hk, rfl, -⟩ := field_eq_some.1 hkey
    exact absurd (of_decide_eq_true hnothing) (ne_nil_of_mem hk)
  obtain ⟨child, hchild, hrest⟩ := bind_eq_some_iff.1 hv
  cases place with
  | key k =>
    change j.field k = some child at hchild
    have hmem : k ∈ j.keysOf.list := mem_keysOf.2 (by rw [hchild]; rfl)
    have hk := all_eq_true.1 hall k hmem
    have hget : j.get k = child := by rw [Json.get, hchild, getD_some]
    rw [hget, or_eq_true, decide_eq_true_iff] at hk
    rcases hk with rfl | hdefinite
    · exact ⟨rest, rfl, by rw [hget]; exact hrest⟩
    · rw [isNothing_of_definite hdefinite hrest] at hnothing
      cases hnothing
  | index i =>
    obtain ⟨n, items, hi, rfl, -⟩ := item_eq_some.1 hchild
    cases hkey

/-- A Composition that is fully stated has steps. -/
theorem pipeline_of_fullyStated (h : fullyStated said) :
    ∃ n steps, said.field "pipeline" = some (.list n steps) ∧ n ≠ 0 ∧
      ∀ i, definiteBut "input" (steps i) := by
  obtain ⟨-, hsteps⟩ := and_eq_true_iff.1 h
  split at hsteps
  next n steps hget =>
    obtain ⟨hn, hsteps⟩ := and_eq_true_iff.1 hsteps
    refine ⟨n, steps, field_of_get hget (by simp), of_decide_eq_true hn, fun i => ?_⟩
    exact all_eq_true.1 hsteps i (mem_finRange i)
  · cases hsteps

/-- **What a fully stated spec has as nothing is inside the input of a step.** -/
theorem nothing_in_input (h : fullyStated said) (hv : said.valueAt places = some v)
    (hnothing : isNothing v) :
    ∃ i rest, places = .key "pipeline" :: .index i :: .key "input" :: rest := by
  obtain ⟨n, steps, hpipeline, hn, hsteps⟩ := pipeline_of_fullyStated h
  obtain ⟨below, rfl, hin⟩ := nothing_under (and_eq_true_iff.1 h).1 hv hnothing
  rw [Json.get, hpipeline] at hin
  obtain _ | ⟨place, rest⟩ := below
  · cases hin
    exact absurd (of_decide_eq_true hnothing) hn
  obtain ⟨step, hstep, hrest⟩ := bind_eq_some_iff.1 hin
  cases place with
  | key k => cases hstep
  | index i =>
    change (Json.list n steps).item i = some step at hstep
    obtain ⟨_, _, hi, heq, rfl⟩ := Json.item_eq_some.1 hstep
    cases heq
    obtain ⟨rest, rfl, -⟩ := nothing_under (hsteps ⟨i, hi⟩) hrest hnothing
    exact ⟨i, rest, rfl⟩

section

variable (hfull : fullyStated said) (h : stated said live "spec" = none)

include hfull h

/-- **Step by step, the inputs are the bundle's**, for as many steps as the bundle has. -/
theorem inputs_of_stated
    (i : ℕ) : (stepAt live i).map (·.field "input") = (stepAt said i).map (·.field "input") := by
  obtain ⟨n, steps, hpipeline, hn, hsteps⟩ := pipeline_of_fullyStated hfull
  have hsaid : said.get "pipeline" = .list n steps := by
    rw [Json.get, hpipeline, getD_some]
  -- A list that is not empty has a list of its length for it.
  have hlive : ∃ found, live.get "pipeline" = .list n found := by
    have hfield := stated_field h hpipeline
    rcases passes_root hfield with hagrees | ⟨hnothing, -⟩
    · exact hagrees
    · exact absurd (of_decide_eq_true hnothing) hn
  obtain ⟨found, hfound⟩ := hlive
  by_cases hi : i < n
  · have hitem : (list n steps).item i = some (steps ⟨i, hi⟩) := dif_pos hi
    have hthere : stepAt live i = some (found ⟨i, hi⟩) := by
      rw [stepAt, hfound]
      exact dif_pos hi
    obtain ⟨hinput, hne⟩ := field_of_definiteBut (hsteps ⟨i, hi⟩)
    have heq := input_of_stated h hpipeline hitem hinput
    rw [hthere, getD_some] at heq
    rw [hthere, stepAt, hsaid, hitem, map_some, map_some, hinput, field_of_get heq hne]
  · have hnone : (list n steps).item i = none := dif_neg hi
    have hthere : (list n found).item i = none := dif_neg hi
    rw [stepAt, stepAt, hsaid, hfound, hnone, hthere]

theorem valueAt_in_input
    (hv : said.valueAt (.key "pipeline" :: .index i :: .key "input" :: places) = some v) :
    live.valueAt (.key "pipeline" :: .index i :: .key "input" :: places) = some v := by
  have hinputs := inputs_of_stated hfull h i
  simp only [valueAt_cons, bind_eq_some_iff] at hv ⊢
  obtain ⟨pipeline, hpipeline, step, hstep, input, hinput, hrest⟩ := hv
  change said.field "pipeline" = some pipeline at hpipeline
  change pipeline.item i = some step at hstep
  change step.field "input" = some input at hinput
  have hsaid : stepAt said i = some step := by
    rw [stepAt, Json.get, hpipeline, getD_some, hstep]
  rw [hsaid, map_some, hinput, map_eq_some_iff] at hinputs
  obtain ⟨found, hfound, hsame⟩ := hinputs
  refine ⟨live.get "pipeline", field_of_get rfl ?_, found, hfound, input, hsame, hrest⟩
  intro hnull
  rw [stepAt, hnull] at hfound
  cases hfound

end

/-- A Composition whose one step runs a function with an input, or with none. -/
def oneStep (input : Option String) : Json :=
  .ofPairs
    [("apiVersion", .string "apiextensions.crossplane.io/v1"), ("kind", .string "Composition"),
      ("metadata", .ofPairs [("name", .string "app-wiki"),
        ("labels", .ofPairs [(profileLabel, .string "wiki")])]),
      ("spec", .ofPairs [("mode", .string "Pipeline"),
        ("pipeline", .ofItems [.ofPairs
          (("step", .string "render") ::
            (input.map fun text => ("input", .ofPairs [("source", .string text)])).toList)])])]

/-- A Composition of one step. -/
def oneStepOf (input : Option String) : Companion :=
  ⟨"apiextensions.crossplane.io/v1", "Composition", "app-wiki", false, oneStep input⟩

/-- Types that read all there is. -/
def asWritten : Types := ⟨.ok, .ok⟩

end Gentian.Profilebundle
