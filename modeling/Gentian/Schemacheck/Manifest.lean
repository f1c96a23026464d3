/-
# The fields a manifest sets

`internal/schemacheck/manifest.go` (`collect`, the walk of `fieldsByDocument` over one document,
`Decide`) and the sentences of `report.go`.

A value is walked with the schema the software was built with, and each leaf is a field with a
path.  A path carries no list index and no map key.  `partsOf` is the path of a place in a
document; every field that is collected is at such a place (`collect_place`).

`decideWrite` lets a write through when the report says of every field it sets that the cluster
keeps it (`decideWrite_eq_none`).
-/

import Gentian.Schemacheck.Compare

namespace Gentian.Schemacheck

open Documents List Json

/-- One value at one field path.  The source writes the map keys passed on the way and the value
into one text. -/
structure Field where
  path : String
  keys : String
  value : Json
deriving DecidableEq

/-- `collect`: every leaf a value sets. -/
def collect : Json → String → String → Schema → List Field
  | .null, _, _, _ => []
  | .object names fields, path, keys, schema =>
    names.list.attach.flatMap fun k =>
      if (schema.property k.1).present then
        collect (fields ⟨k.1, names.mem_attach k⟩) (join path k.1) keys (schema.property k.1)
      else if schema.values.present then
        collect (fields ⟨k.1, names.mem_attach k⟩) (path ++ "\x7b\x7d") (keys ++ k.1 ++ "=")
          schema.values
      else if schema.preserves || schema.allows then
        -- free-form: the schema keeps whatever is put here
        [⟨join path "*", keys ++ k.1 ++ "=", fields ⟨k.1, names.mem_attach k⟩⟩]
      else []
  | .list n items, path, keys, schema =>
    if schema.items.present then
      (finRange n).flatMap fun i => collect (items i) (path ++ "[]") keys schema.items
    else if 0 < n then [⟨path, keys, .list n items⟩]
    else []
  | .bool b, path, keys, _ => [⟨path, keys, .bool b⟩]
  | .number text, path, keys, _ => [⟨path, keys, .number text⟩]
  | .string text, path, keys, _ => [⟨path, keys, .string text⟩]

/-- The fields of one document.  The API server keeps an object's metadata whatever the
definition says. -/
def documentFields (doc : Json) (schema : Schema) : List Field :=
  match doc with
  | .object names fields => names.list.attach.flatMap fun k =>
    if k.1 = "apiVersion" ∨ k.1 = "kind" ∨ k.1 = "metadata" then []
    else if (schema.property k.1).present then
      collect (fields ⟨k.1, names.mem_attach k⟩) k.1 "" (schema.property k.1)
    else []
  | _ => []

/-- The field path of a place, by its parts.  What is put where a schema keeps whatever it is given
is one field. -/
def partsOf : Schema → List Step → Option (List Segment)
  | _, [] => some []
  | s, .key k :: ts =>
    if (s.property k).present then (partsOf (s.property k) ts).map (.name k :: ·)
    else if s.values.present then (partsOf s.values ts).map (.value :: ·)
    else if s.preserves || s.allows then if ts = [] then some [.rest] else none
    else none
  | s, .index _ :: ts => if s.items.present then (partsOf s.items ts).map (.element :: ·) else none

/-- The path of a place in a document, by the schema. -/
def fieldPath (s : Schema) (place : List Step) : Option String := (partsOf s place).map (render "")

variable {f : Field} {s : Schema}

/-- **What is collected has a place in the value**, and the path of that place. -/
theorem collect_place {x : Json} {path keys : String}
    (h : f ∈ collect x path keys s) :
    ∃ place parts, x.valueAt place = some f.value ∧ partsOf s place = some parts ∧
      f.path = render path parts := by
  induction x generalizing path keys s with
  | null => simp [collect] at h
  | object names fields ih =>
    obtain ⟨⟨k, hmem⟩, -, hk⟩ := mem_flatMap.1 h
    have hstep : (object names fields).step (.key k) = some (fields ⟨k, hmem⟩) :=
      field_object hmem
    split_ifs at hk with h1 h2 h3
    · obtain ⟨place, parts, hv, hparts, hpath⟩ := ih ⟨k, hmem⟩ hk
      exact ⟨.key k :: place, .name k :: parts, by simp [hstep, hv],
        by simp [partsOf, h1, hparts], hpath⟩
    · obtain ⟨place, parts, hv, hparts, hpath⟩ := ih ⟨k, hmem⟩ hk
      exact ⟨.key k :: place, .value :: parts, by simp [hstep, hv],
        by simp [partsOf, h1, h2, hparts], hpath⟩
    · obtain rfl := mem_singleton.1 hk
      exact ⟨[.key k], [.rest], by simp [hstep],
        by rw [partsOf, if_neg h1, if_neg h2, if_pos h3, if_pos rfl], rfl⟩
    · simp at hk
  | list n items ih =>
    unfold collect at h
    split_ifs at h with h1 h2
    · obtain ⟨i, -, hi⟩ := mem_flatMap.1 h
      obtain ⟨place, parts, hv, hparts, hpath⟩ := ih i hi
      have hstep : (list n items).step (.index i) = some (items i) := dif_pos i.2
      exact ⟨.index i :: place, .element :: parts, by simp [hstep, hv],
        by simp [partsOf, h1, hparts], hpath⟩
    · obtain rfl := mem_singleton.1 h
      exact ⟨[], [], rfl, rfl, rfl⟩
    · simp at h
  | bool b | number text | string text =>
    obtain rfl := mem_singleton.1 h
    exact ⟨[], [], rfl, rfl, rfl⟩

/-- Every field has a place in the document and a path. -/
theorem documentFields_place {doc : Json} (h : f ∈ documentFields doc s) :
    ∃ place, place ≠ [] ∧ doc.valueAt place = some f.value ∧ fieldPath s place = some f.path := by
  cases doc with
  | object names fields =>
    obtain ⟨⟨k, hmem⟩, -, hf⟩ := mem_flatMap.1 h
    split_ifs at hf with h1 h2
    · simp at hf
    · obtain ⟨place, parts, hv, hparts, hpath⟩ := collect_place hf
      have hstep : (object names fields).step (.key k) = some (fields ⟨k, hmem⟩) :=
        field_object hmem
      exact ⟨.key k :: place, by simp, by simp [hstep, hv],
        by simp [fieldPath, partsOf, h2, hparts, hpath, Segment.onto, join]⟩
    · simp at hf
  | _ => simp [documentFields] at h

/-! ### Whether a write goes ahead -/

/-- What the cluster was found to serve of one definition. -/
inductive State where
  | ok
  | outdated
  | absent
  | unreadable
  | unknown
deriving DecidableEq

/-- What is known of one kind. -/
structure KindReport where
  kind : String
  crd : String
  state : State
  missing : List String
  detail : String
  remedy : String

/-- One check of the cluster against the definitions of the software. -/
structure Report where
  checked : Bool
  definitions : String
  kinds : List KindReport

/-- The report on a kind. -/
def Report.kind (r : Report) (kind : String) : Option KindReport :=
  r.kinds.find? fun k => k.kind = kind

/-- `fieldList`: all of a short list, the first few of a long one. -/
def fieldList (fields : List String) : String :=
  if fields.length ≤ 6 then ", ".intercalate fields
  else ", ".intercalate (fields.take 6) ++ " and " ++ toString (fields.length - 6) ++ " more"

/-- What a report says of a kind. -/
def KindReport.sentence (k : KindReport) : String :=
  match k.state with
  | .ok => ""
  | .outdated =>
    if k.missing = [] then
      "the cluster's definition of " ++ k.kind ++ " (" ++ k.crd ++
        ") is older than this software: " ++ k.detail ++ "; " ++ k.remedy
    else
      "the cluster's definition of " ++ k.kind ++ " (" ++ k.crd ++
        ") is older than this software and would drop " ++ fieldList k.missing ++ "; " ++ k.remedy
  | .absent =>
    "the definition of " ++ k.kind ++ " (" ++ k.crd ++ ") is not on the cluster yet; " ++ k.remedy
  | .unreadable =>
    "the definition of " ++ k.kind ++ " (" ++ k.crd ++ ") may not be read, so what the " ++
      "cluster serves is not confirmed: " ++ k.detail ++ "; " ++ k.remedy
  | .unknown =>
    "the definition of " ++ k.kind ++ " (" ++ k.crd ++ ") could not be read, so what the " ++
      "cluster serves is not confirmed: " ++ k.detail

/-- What one write would set in the manifests of one kind. -/
structure Change where
  kind : String
  fields : List String

/-- Why a change is refused. -/
structure Refusal where
  unconfirmed : Bool
  kind : String
  fields : List String
  message : String

/-- The refusal of a write of which it could not be confirmed that the cluster keeps it. -/
def refuseUnconfirmed (first : Change) (why : String) : Refusal where
  unconfirmed := true
  kind := first.kind
  fields := first.fields
  message := "it could not be confirmed that the cluster's resource definitions are as new as " ++
    "this software, so nothing that sets a field is written: " ++ why

/-- What a change is refused for. -/
def refuseChange (first : Change) (report : Report) (c : Change) : Option Refusal :=
  match report.kind c.kind with
  | none => some (refuseUnconfirmed first ("the operator reported nothing about " ++ c.kind))
  | some kind =>
    match kind.state with
    | .ok | .absent => none
    | .outdated =>
      -- outdated without a field to name: the version is not served
      let dropped :=
        if kind.missing = [] then c.fields
        else c.fields.filter fun f => kind.missing.any fun m => under f m
      if dropped = [] then none
      else some
        { unconfirmed := false, kind := c.kind, fields := dropped
          message := "the cluster's definition of " ++ kind.kind ++ " (" ++ kind.crd ++
            ") is older than this software and would silently drop " ++ fieldList dropped ++
            ", which this change sets; nothing was written. To fix: " ++ kind.remedy }
    | .unreadable | .unknown => some (refuseUnconfirmed first kind.sentence)

/-- `Decide`: whether a write that makes these changes may go ahead; `none` means it may. -/
def decideWrite (digest : String) (source : Option (Except String Report))
    (changes : List Change) : Option Refusal :=
  match changes.filter fun c => c.fields ≠ [] with
  | [] => none
  | first :: others =>
    match source with
    | none => some (refuseUnconfirmed first "this director has no operator to ask")
    | some (.error err) => some (refuseUnconfirmed first ("the operator could not be asked (" ++
        err ++ "). Check that the operator is running; the change can be retried"))
    | some (.ok report) =>
      if !report.checked then some (refuseUnconfirmed first
        "the operator has not compared them yet. Retry shortly")
      else if report.definitions ≠ digest then some (refuseUnconfirmed first
        ("the operator was built with other definitions than this director, which a rollout " ++
          "in progress explains. Retry once both run the same release"))
      else (first :: others).findSome? (refuseChange first report)

/-- What a change that is not refused has passed. -/
theorem refuseChange_eq_none {first c : Change} {report : Report}
    (h : refuseChange first report c = none) :
    ∃ k, report.kind c.kind = some k ∧ (k.state = .ok ∨ k.state = .absent ∨
      k.state = .outdated ∧ ∀ f ∈ c.fields, ∀ m ∈ k.missing, under f m = false) := by
  unfold refuseChange at h
  split at h
  · simp at h
  next kind hkind =>
    refine ⟨kind, hkind, ?_⟩
    split at h
    · exact .inl ‹_›
    · exact .inr (.inl ‹_›)
    · refine .inr (.inr ⟨‹_›, fun f hf m hm => ?_⟩)
      have hmissing : kind.missing ≠ [] := ne_nil_of_mem hm
      simp only [if_neg hmissing] at h
      split_ifs at h with hdropped
      have := filter_eq_nil_iff.1 hdropped f hf
      simp only [any_eq_true, not_exists, not_and, Bool.not_eq_true] at this
      exact this m hm
    all_goals simp at h

/-- **A write goes ahead only on a report that says nothing against it**, kind by kind. -/
theorem decideWrite_eq_none {digest : String} {source : Option (Except String Report)}
    {changes : List Change} (h : decideWrite digest source changes = none) :
    ∀ c ∈ changes, c.fields ≠ [] → ∃ report, source = some (.ok report) ∧ report.checked ∧
      report.definitions = digest ∧
      ∃ k, report.kind c.kind = some k ∧ (k.state = .ok ∨ k.state = .absent ∨
        k.state = .outdated ∧ ∀ f ∈ c.fields, ∀ m ∈ k.missing, under f m = false) := by
  intro c hc hfields
  unfold decideWrite at h
  have hmem : c ∈ changes.filter fun c => c.fields ≠ [] := by simp [hc, hfields]
  split at h
  next hnil =>
    rw [hnil] at hmem
    cases hmem
  next _ _ hcons =>
    split at h
    · simp at h
    · simp at h
    next report =>
      split_ifs at h with hchecked hdigest
      refine ⟨report, rfl, by simpa using hchecked, by simpa using hdigest, ?_⟩
      exact refuseChange_eq_none (findSome?_eq_none_iff.1 h c (hcons ▸ hmem))

end Gentian.Schemacheck
