/-
# The profile on the cluster is the pinned build

`internal/profilebundle/profilebundle.go`: `Verify`, `decode`, `specDiffers` and `metadataDiffers`.

`Verify` hashes the bundle a profile carries against the pin, holds it to what a bundle may be, and
compares the profile with what it says, read as the operator reads a profile: with the defaults of
its schema, through the Go type.

`metadataDiffers` passes over the key of the annotation that carries the bundle, and does so for the
labels too (`label_unnoticed`).  And `encoding/json` reads a key that differs from a field's name in
case alone, where the API server drops it, so a profile that was stored as the bundle says is
refused.

Base64, SHA-256, the reading of YAML, the type of a profile's spec and the schema of the kind are
parameters (`Library`).  The prose of the refusals is left out.
-/

import Gentian.Profilebundle.Bundle
import Gentian.Profilebundle.ApiServer

namespace Gentian.Profilebundle

open Documents GoStrings GoJson List Option Schema Json

/-! ### The model -/

/-- `Annotation`. -/
def annotationKey : String := "gentianos.io/profile-bundle"

/-- `ComponentProfile`, as far as it is compared. -/
structure ComponentProfile where
  name : String
  labels : Json
  annotations : Json
  spec : Json

/-- What the code is built on: encodings, the hash, the schema and the Go types. -/
structure Library (β : Type) where
  /-- `base64.StdEncoding.DecodeString`. -/
  decodeString : String → Option β
  /-- The hex of `sha256.Sum256`. -/
  sum : β → String
  documents : β → Except String (List Json)
  /-- Why an authorization requirement does not compile. -/
  requirement : Json → Option String
  matching : Matching
  /-- The fields of `ObjectMeta` beside the labels and annotations. -/
  metadataNames : List String
  metadataField : String → GoType
  /-- `ComponentProfileSpec` and `ComponentProfileStatus`. -/
  spec : GoType
  status : GoType
  /-- `profileSchema`. -/
  schema : Schema
  nodup : ("labels" :: "annotations" :: metadataNames).Nodup

variable {β : Type} (lib : Library β)

/-- `string`. -/
def stringType : GoType :=
  .leaf (.string "") fun
    | .string text => .ok (.string text)
    | _ => .error "cannot unmarshal into a string"

/-- `ObjectMeta`. -/
def metadataType : GoType :=
  .struct ("labels" :: "annotations" :: lib.metadataNames)
    (fun f => if f = "labels" ∨ f = "annotations" then .map stringType else lib.metadataField f)
    fun _ => true

/-- The names of the fields of `ComponentProfile`. -/
def profileNames : List String := ["kind", "apiVersion", "metadata", "spec", "status"]

/-- The type `ComponentProfile`. -/
def profileType : GoType :=
  .struct profileNames
    (fun f =>
      if f = "metadata" then metadataType lib
      else if f = "spec" then lib.spec
      else if f = "status" then lib.status
      else stringType)
    fun _ => true

/-- A profile of what was read. -/
def ofObject (out : Json) : ComponentProfile where
  name := ((out.get "metadata").get "name").text
  labels := labelsOf out
  annotations := (out.get "metadata").get "annotations"
  spec := out.get "spec"

/-- `decode`. -/
def decode (doc : Json) : Except String ComponentProfile :=
  (read lib.matching (profileType lib) (applyDefaults lib.schema doc)).map ofObject

/-- The digest of a bundle. -/
def Library.digest (bundle : β) : String := "sha256:" ++ lib.sum bundle

/-- A digest as it is compared. -/
def normal (digest : String) : String := toLower (trimSpace digest)

/-- The bundle that a profile carries. -/
def carried (profile : ComponentProfile) : Option β :=
  let encoded := trimSpace (profile.annotations.get annotationKey).text
  if encoded = "" then none else lib.decodeString encoded

/-- The keys in which `metadataDiffers` finds a difference, for the labels or the annotations. -/
def pairDiffers (kind : String) (said live : Json) : Option String :=
  (Keys.ofList
    (said.keysOf.list.filter (fun key => key ≠ annotationKey && live.field key ≠ said.field key) ++
      live.keysOf.list.filter fun key =>
        key ≠ annotationKey && hasPrefix key ownedPrefix &&
          !(key = originAnnotationKey && kind = "annotation") &&
          !decide (key ∈ said.keysOf))).list.head?.map fun key => kind ++ " " ++ key

/-- `metadataDiffers`. -/
def metadataDiffers (said live : ComponentProfile) : Option String :=
  match pairDiffers "label" said.labels live.labels with
  | some key => some key
  | none => pairDiffers "annotation" said.annotations live.annotations

/-- Why `Verify` refuses a profile. -/
inductive Refusal where
  /-- `ReasonUnverifiable`. -/
  | noBundle
  | undecodable
  | unparsed (p : Problem)
  | unreadable (err : String)
  /-- `ReasonMismatch`. -/
  | digest (found : String)
  | document (kind name : String)
  | spec (fields : List String)
  | metadata (key : String)
  /-- `ReasonRefused`. -/
  | refused (p : Problem)
deriving DecidableEq

/-- What a bundle that `Check` refuses is refused as. -/
def refusalOf (docs : Except String (List Json)) (name : String) (p : Problem) : Refusal :=
  match docs with
  | .error _ | .ok [] => .unparsed p
  | .ok (profile :: _) =>
    if (headOf profile).kind ≠ "ComponentProfile" ∨ (headOf profile).name ≠ name then
      .document (headOf profile).kind (headOf profile).name
    else .refused p

/-- The origin that a profile records. -/
def originOf (profile : ComponentProfile) : String :=
  (profile.annotations.get originAnnotationKey).text

/-- `Verify`; `none` where it answers no refusal. -/
def verify (profile : ComponentProfile) (digest : String) : Option Refusal :=
  if trimSpace (profile.annotations.get annotationKey).text = "" then some .noBundle
  else
    match carried lib profile with
    | none => some .undecodable
    | some bundle =>
      if lib.digest bundle ≠ normal digest then some (.digest (lib.digest bundle))
      else
        match check lib.requirement (lib.documents bundle) profile.name (originOf profile) with
        | .error p => some (refusalOf (lib.documents bundle) profile.name p)
        | .ok b =>
          match decode lib b.profile with
          | .error err => some (.unreadable err)
          | .ok said =>
            match said.spec.differing profile.spec with
            | [] => (metadataDiffers said profile).map .metadata
            | fields => some (.spec fields)

/-! ### What an acceptance says -/

/-- All that was said is there unchanged. -/
def States (said live : Json) : Prop := ∀ k v, said.field k = some v → live.field k = some v

/-- Of the platform's own keys, only the stated ones are there, and those the director writes. -/
def OwnsOnly (director : List String) (said live : Json) : Prop :=
  ∀ k ∈ live.keysOf, hasPrefix k ownedPrefix = true → k ∈ said.keysOf ∨ k ∈ director

variable {said live : Json} {kind : String}

/-- What it takes for labels or annotations to agree. -/
theorem pairDiffers_eq_none : pairDiffers kind said live = none ↔
    (∀ k ∈ said.keysOf, k ≠ annotationKey → live.field k = said.field k) ∧
      ∀ k ∈ live.keysOf, k ≠ annotationKey → hasPrefix k ownedPrefix →
        ¬(k = originAnnotationKey ∧ kind = "annotation") → k ∈ said.keysOf := by
  rw [pairDiffers, map_eq_none_iff, Keys.head_ofList_eq_none, append_eq_nil_iff,
    filter_eq_nil_iff, filter_eq_nil_iff]
  refine and_congr (forall₂_congr fun k _ => ?_) (forall₂_congr fun k _ => ?_)
  · simp
  · simp only [Bool.and_eq_true, Bool.not_eq_true', decide_eq_true_iff, decide_eq_false_iff_not,
      Bool.and_eq_false_iff]
    tauto

section

variable (hsaid : annotationKey ∉ said.keysOf)

include hsaid

theorem states_iff :
    (∀ k ∈ said.keysOf, k ≠ annotationKey → live.field k = said.field k) ↔ States said live := by
  constructor
  · intro h k v hv
    have hk : k ∈ said.keysOf := mem_keysOf.2 (by rw [hv]; rfl)
    rw [h k hk fun heq => hsaid (heq ▸ hk), hv]
  · intro h k hk _
    obtain ⟨v, hv⟩ := isSome_iff_exists.1 (mem_keysOf.1 hk)
    rw [hv, h k v hv]

/-- Labels agree when all are there and no other of the platform's. -/
theorem labels_agree (hlive : annotationKey ∉ live.keysOf) :
    pairDiffers "label" said live = none ↔ States said live ∧ OwnsOnly [] said live := by
  rw [pairDiffers_eq_none, states_iff hsaid]
  refine and_congr_right fun _ => ⟨fun h k hk hp => ?_, fun h k hk _ hp _ => ?_⟩
  · exact .inl (h k hk (fun heq => hlive (heq ▸ hk)) hp (by simp))
  · exact (h k hk hp).resolve_right not_mem_nil

/-- So do annotations, the bundle and its origin apart. -/
theorem annotations_agree :
    pairDiffers "annotation" said live = none ↔
      States said live ∧ OwnsOnly [annotationKey, originAnnotationKey] said live := by
  rw [pairDiffers_eq_none, states_iff hsaid]
  refine and_congr_right fun _ => ⟨fun h k hk hp => ?_, fun h k hk hne hp horigin => ?_⟩
  · by_cases hbundled : k = annotationKey
    · exact .inr (by simp [hbundled])
    · by_cases horigin : k = originAnnotationKey
      · exact .inr (by simp [horigin])
      · exact .inl (h k hk hbundled hp fun heq => horigin heq.1)
  · rcases h k hk hp with hmem | hdirector
    · exact hmem
    · rcases mem_cons.1 hdirector with heq | hdirector
      · exact absurd heq hne
      · exact absurd ⟨mem_singleton.1 hdirector, rfl⟩ horigin

end

/-- **What `Verify` accepts**, step by step. -/
theorem verify_eq_none {profile : ComponentProfile} {digest : String} :
    verify lib profile digest = none ↔
      ∃ bundle b said, carried lib profile = some bundle ∧ lib.digest bundle = normal digest ∧
        check lib.requirement (lib.documents bundle) profile.name (originOf profile) = .ok b ∧
        decode lib b.profile = .ok said ∧ (∀ k, profile.spec.field k = said.spec.field k) ∧
        pairDiffers "label" said.labels profile.labels = none ∧
        pairDiffers "annotation" said.annotations profile.annotations = none := by
  constructor
  · intro h
    unfold verify at h
    split_ifs at h with hempty
    split at h
    · cases h
    next bundle hbundle =>
      split_ifs at h with hdigest
      split at h
      · cases h
      next b hb =>
        split at h
        · cases h
        next said hsaid =>
          split at h
          next hspec =>
            rw [map_eq_none_iff, metadataDiffers] at h
            split at h
            · cases h
            next hlabels =>
              exact ⟨bundle, b, said, hbundle, not_not.1 hdigest, hb, hsaid,
                fun k => (differing_eq_nil.1 hspec k).symm, hlabels, h⟩
          · cases h
  · rintro ⟨bundle, b, said, hbundle, hdigest, hb, hsaid, hspec, hlabels, hannotations⟩
    have hne : trimSpace (profile.annotations.get annotationKey).text ≠ "" := by
      intro hempty
      rw [carried, if_pos hempty] at hbundle
      cases hbundle
    have hnil : said.spec.differing profile.spec = [] :=
      differing_eq_nil.2 fun k => (hspec k).symm
    simp only [verify, if_neg hne, hbundle, hdigest, ne_eq, not_true_eq_false, if_false, hb, hsaid,
      hnil, metadataDiffers, hlabels, hannotations, map_none]

/-! ### The metadata of a bundle -/

/-- The schema is one for the type: what every resource has states no default, defaults are pruned
and their keys exact, what the type sees is kept, and the schema has the type's shape. -/
structure Generated : Prop where
  root : rootPlain lib.schema
  pruned : defaultsPruned lib.schema.atRoot
  fits : Fits (profileType lib) lib.schema.atRoot
  exact : DefaultsExact lib.matching (profileType lib) lib.schema.atRoot
  shaped : Shaped (profileType lib) lib.schema

variable {lib} {doc : Json}

/-- Defaults keep a document exact. -/
theorem exact_defaulted (hlib : Generated lib) (hdoc : Exact lib.matching (profileType lib) doc) :
    Exact lib.matching (profileType lib) (applyDefaults lib.schema doc) := by
  rw [← applyDefaults_atRoot hlib.root]
  exact exact_applyDefaults _ _ _ hlib.exact hdoc

/-- Metadata has no defaults. -/
theorem metadata_defaulted (hlib : Generated lib) :
    (applyDefaults lib.schema doc).get "metadata" = doc.get "metadata" := by
  obtain ⟨hdefault, hinner⟩ := hlib.root "metadata" (by simp [rootKeys])
  rw [get_applyDefaults_of_none hdefault, hinner]

/-- Reading keeps the keys of labels and annotations. -/
theorem keysOf_decoded {out : Json} {f : String} (hlib : Generated lib)
    (hdoc : Exact lib.matching (profileType lib) doc) (hf : f = "labels" ∨ f = "annotations")
    (hout : read lib.matching (profileType lib) (applyDefaults lib.schema doc) = .ok out) :
    ((out.get "metadata").get f).keysOf = ((doc.get "metadata").get f).keysOf := by
  have hx := exact_defaulted hlib hdoc
  have hroot : "metadata" ∈ profileNames := by simp [profileNames]
  have hmem : f ∈ "labels" :: "annotations" :: lib.metadataNames := by
    rcases hf with rfl | rfl <;> simp
  obtain ⟨v, hv, hget⟩ := get_read_struct hout (by decide) hroot
  have hget : out.get "metadata" = v := hget.resolve_right fun h => by cases h.2
  rw [value_eq_get hroot hx.1, metadata_defaulted hlib] at hv
  have hmeta := hdoc.2 "metadata" hroot
  obtain ⟨w, hw, hget'⟩ := get_read_struct hv lib.nodup hmem
  rw [if_pos hf] at hw hget'
  rw [value_eq_get hmem hmeta.1] at hw
  rw [hget, ← keysOf_read_map hw]
  rcases hget' with heq | ⟨hnull, hempty⟩
  · rw [heq]
  · have hnone : w.keysOf.list = [] := of_decide_eq_true hempty
    rw [hnull]
    exact Keys.ext_iff_mem.2 fun k => by rw [Keys.mem_def, Keys.mem_def, hnone]; rfl

/-! ### The build -/

/-- The annotations of a document. -/
def annotationsOf (doc : Json) : Json := (doc.get "metadata").get "annotations"

variable (lib) in
/-- A profile is the build a digest names: the bundle it carries hashes to the digest and is
accepted for its name and origin, its spec is the bundle's, all metadata the bundle states is there
unchanged, and no other of the platform's but the bundle and its origin. -/
def IsBuild (live : ComponentProfile) (digest : String) : Prop :=
  ∃ bundle b said, carried lib live = some bundle ∧ lib.digest bundle = normal digest ∧
    check lib.requirement (lib.documents bundle) live.name (originOf live) = .ok b ∧
    decode lib b.profile = .ok said ∧ (∀ k, live.spec.field k = said.spec.field k) ∧
    States said.labels live.labels ∧ OwnsOnly [] said.labels live.labels ∧
    States said.annotations live.annotations ∧
    OwnsOnly [annotationKey, originAnnotationKey] said.annotations live.annotations

variable (lib) in
/-- The key of the annotation is no label of the profile and is not stated by the bundle it carries,
and the keys of that bundle's profile are exact. -/
def PlainKeys (live : ComponentProfile) : Prop :=
  annotationKey ∉ live.labels.keysOf ∧
    ∀ bundle doc others, carried lib live = some bundle →
      lib.documents bundle = .ok (doc :: others) →
        annotationKey ∉ (labelsOf doc).keysOf ∧ annotationKey ∉ (annotationsOf doc).keysOf ∧
          Exact lib.matching (profileType lib) doc

variable (lib) in
/-- A profile is what the cluster makes of a document: pruned, with the API server's defaults, read
through the type, with metadata added that is not the platform's, the bundle and its origin
apart. -/
def Stored (doc : Json) (live : ComponentProfile) : Prop :=
  ∃ out, read lib.matching (profileType lib)
      (serverDefaults lib.schema (lib.schema.atRoot.prune doc)) = .ok out ∧
    live.spec = (ofObject out).spec ∧
    States (ofObject out).labels live.labels ∧ OwnsOnly [] (ofObject out).labels live.labels ∧
    States (ofObject out).annotations live.annotations ∧
    OwnsOnly [annotationKey, originAnnotationKey] (ofObject out).annotations live.annotations

variable {live : ComponentProfile} {digest : String} {bundle : β} {b : Bundle}

theorem PlainKeys.of_check (h : PlainKeys lib live) (hbundle : carried lib live = some bundle)
    {origin : String} (hb : check lib.requirement (lib.documents bundle) live.name origin = .ok b) :
    annotationKey ∉ (labelsOf b.profile).keysOf ∧ annotationKey ∉ (annotationsOf b.profile).keysOf ∧
      Exact lib.matching (profileType lib) b.profile := by
  obtain ⟨others, hdocs⟩ := profile_of_check hb
  exact h.2 bundle b.profile others hbundle hdocs

/-- **`Verify` accepts a profile just when it is the build.** -/
theorem verify_iff (hlib : Generated lib) (hplain : PlainKeys lib live) :
    verify lib live digest = none ↔ IsBuild lib live digest := by
  rw [verify_eq_none]
  refine exists_congr fun _ => exists_congr fun b => exists_congr fun _ => ?_
  refine and_congr_right fun hbundle => and_congr_right fun _ => and_congr_right fun hb => ?_
  refine and_congr_right fun hsaid => and_congr_right fun _ => ?_
  obtain ⟨hlabels, hannotations, hexact⟩ := hplain.of_check hbundle hb
  obtain ⟨out, hout, rfl⟩ := GoErrors.map_eq_ok.1 hsaid
  have hsaidLabels : annotationKey ∉ (ofObject out).labels.keysOf := by
    change annotationKey ∉ ((out.get "metadata").get "labels").keysOf
    rw [keysOf_decoded hlib hexact (.inl rfl) hout]
    exact hlabels
  have hsaidAnnotations : annotationKey ∉ (ofObject out).annotations.keysOf := by
    change annotationKey ∉ ((out.get "metadata").get "annotations").keysOf
    rw [keysOf_decoded hlib hexact (.inr rfl) hout]
    exact hannotations
  rw [labels_agree hsaidLabels hplain.1, annotations_agree hsaidAnnotations, and_assoc]

/-- **What the cluster makes of a bundle is read as the bundle is.** -/
theorem decode_of_stored (hlib : Generated lib) (hdoc : Exact lib.matching (profileType lib) doc) :
    (read lib.matching (profileType lib)
      (serverDefaults lib.schema (lib.schema.atRoot.prune doc))).map ofObject = decode lib doc := by
  have hpruned := exact_defaulted hlib (exact_prune _ _ _ hlib.fits hdoc)
  have hstored := read_stored hlib.pruned hlib.fits
    (by rw [applyDefaults_atRoot hlib.root]; exact exact_defaulted hlib hdoc)
  rw [applyDefaults_atRoot hlib.root, applyDefaults_atRoot hlib.root] at hstored
  rw [decode, read_serverDefaults _ _ _ hlib.shaped hpruned, hstored]

/-- A text with a default. -/
def withDefault (text : String) : Schema :=
  .node false false (some (.string text)) ⟨[], Keys.sorted_nil⟩ (fun _ => .absent) false .absent
    .absent

/-- An image, `latest` where none is stated, and a tag. -/
def imageSpec : Schema := .struct false [("image", withDefault "latest"), ("tag", .leaf)]

/-- The schema of a resource with such a spec. -/
def imageSchema : Schema :=
  .struct false
    [("apiVersion", .leaf), ("kind", .leaf), ("metadata", .leaf), ("status", .leaf),
      ("spec", imageSpec)]

/-- The wiki's profile. -/
def wikiDocument (spec : List (String × Json)) : Json :=
  .ofPairs [("apiVersion", .string gentianAPIVersion), ("kind", .string "ComponentProfile"),
    ("metadata", .ofPairs [("name", .string "wiki"),
      ("labels", .ofPairs [(profileLabel, .string "wiki")])]),
    ("spec", .ofPairs spec)]

/-- An operator for such profiles, whose bundles are their documents. -/
def imageLibrary : Library (List Json) where
  decodeString text :=
    if text = "wiki" then some [wikiDocument []]
    else if text = "case" then some [wikiDocument [("Tag", .string "v2")]]
    else none
  sum _ := "0"
  documents := .ok
  requirement _ := none
  matching := ⟨toLower, fun vs => vs.getLastD .null, fun _ => rfl⟩
  metadataNames := ["name"]
  metadataField _ := stringType
  spec := .struct ["image", "tag"] (fun _ => stringType) fun _ => true
  status := .struct [] (fun _ => stringType) fun _ => true
  schema := imageSchema
  nodup := by decide

/-- A wiki on the cluster, with the bundle it carries and its labels. -/
def wikiLive (encoded : String) (labels : List (String × Json)) : ComponentProfile where
  name := "wiki"
  labels := .ofPairs labels
  annotations := .ofPairs [(annotationKey, .string encoded)]
  spec := .ofPairs [("image", .string "latest")]

theorem default_imageSpec {k : String} {d : Json}
    (hd : (imageSpec.property k).default = some d) : k = "image" ∧ d = .string "latest" := by
  have hm := mem_of_property_struct (present_of_default hd)
  simp only [mem_cons, not_mem_nil, or_false] at hm
  rcases hm with ⟨rfl, -⟩ | ⟨rfl, -⟩
  · exact ⟨rfl, (some.inj hd).symm⟩
  · cases hd

theorem property_imageSchema (k : String) :
    imageSchema.atRoot.property k = .everything ∨ imageSchema.atRoot.property k = .leaf ∨
      imageSchema.atRoot.property k = .absent ∨ imageSchema.atRoot.property k = imageSpec := by
  rw [property_atRoot rfl]
  split_ifs
  · exact .inl rfl
  · by_cases hp : (imageSchema.property k).present
    · have hm := mem_of_property_struct hp
      simp only [mem_cons, Prod.mk.injEq, not_mem_nil, or_false] at hm
      rcases hm with ⟨-, h⟩ | ⟨-, h⟩ | ⟨-, h⟩ | ⟨-, h⟩ | ⟨-, h⟩
      · exact .inr (.inl h)
      · exact .inr (.inl h)
      · exact .inr (.inl h)
      · exact .inr (.inl h)
      · exact .inr (.inr (.inr h))
    · exact .inr (.inr (.inl (eq_absent (Bool.eq_false_iff.2 hp))))

theorem default_imageSchema (k : String) : (imageSchema.atRoot.property k).default = none := by
  rcases property_imageSchema k with h | h | h | h <;> rw [h] <;> rfl

theorem defaultsPruned_imageSpec : defaultsPruned imageSpec := by
  refine defaultsPruned_of_parts (fun k d hd => ?_) (fun k => ?_) trivial trivial
  · rw [(default_imageSpec hd).2]
    rfl
  · by_cases hp : (imageSpec.property k).present
    · have hm := mem_of_property_struct hp
      simp only [mem_cons, not_mem_nil, or_false] at hm
      rcases hm with ⟨rfl, -⟩ | ⟨rfl, -⟩
      all_goals exact ⟨nofun, trivial, trivial⟩
    · rw [eq_absent (Bool.eq_false_iff.2 hp)]
      trivial

/-- The small operator's schema is one for its type. -/
theorem imageLibrary_generated : Generated imageLibrary where
  root := by
    intro k hk
    have hp : imageLibrary.schema.property k = .leaf := by
      simp only [rootKeys, mem_cons, not_mem_nil, or_false] at hk
      rcases hk with rfl | rfl | rfl <;> rfl
    rw [inner, hp]
    exact ⟨rfl, applyDefaults_bare⟩
  pruned := by
    have hbare : ∀ {preserve}, defaultsPruned
        (.node preserve false none ⟨[], Keys.sorted_nil⟩ (fun _ => .absent) false .absent .absent) :=
      ⟨fun _ h => absurd h not_mem_nil, trivial, trivial⟩
    refine defaultsPruned_of_parts (fun k d hd => ?_) (fun k => ?_) trivial trivial
    · rw [show imageLibrary.schema = imageSchema from rfl, default_imageSchema] at hd
      cases hd
    · rcases property_imageSchema k with h | h | h | h <;>
        rw [show imageLibrary.schema = imageSchema from rfl, h]
      · exact hbare
      · exact hbare
      · trivial
      · exact defaultsPruned_imageSpec
  fits := by
    intro f hf
    simp only [profileNames, mem_cons, not_mem_nil, or_false] at hf
    rcases hf with rfl | rfl | rfl | rfl | rfl
    · exact ⟨rfl, trivial⟩
    · exact ⟨rfl, trivial⟩
    · refine ⟨rfl, fun f hf => ?_⟩
      simp only [imageLibrary, mem_cons, not_mem_nil, or_false] at hf
      rcases hf with rfl | rfl | rfl
      · exact ⟨rfl, fun k => ⟨rfl, trivial⟩⟩
      · exact ⟨rfl, fun k => ⟨rfl, trivial⟩⟩
      · exact ⟨rfl, trivial⟩
    · refine ⟨rfl, fun f hf => ?_⟩
      simp only [mem_cons, not_mem_nil, or_false] at hf
      rcases hf with rfl | rfl <;> exact ⟨rfl, trivial⟩
    · exact ⟨rfl, fun _ h => absurd h not_mem_nil⟩
  exact := by
    refine ⟨fun k d hd => ?_, fun f hf => ?_⟩
    · rw [show imageLibrary.schema = imageSchema from rfl, default_imageSchema] at hd
      cases hd
    · simp only [profileNames, mem_cons, not_mem_nil, or_false] at hf
      rcases hf with rfl | rfl | rfl | rfl | rfl
      · trivial
      · trivial
      · refine ⟨fun k d hd => ?_, fun f hf => ?_⟩
        · have hk : (everything.property k).default = some d := hd
          cases hk
        · simp only [imageLibrary, mem_cons, not_mem_nil, or_false] at hf
          rcases hf with rfl | rfl | rfl
          · exact fun k => ⟨fun _ _ => trivial, trivial⟩
          · exact fun k => ⟨fun _ _ => trivial, trivial⟩
          · trivial
      · refine ⟨fun k d hd => ?_, fun f hf => trivial⟩
        obtain ⟨rfl, -⟩ := default_imageSpec hd
        exact ⟨by decide +kernel, fun _ => trivial⟩
      · have hnone : ∀ {P : Prop} {f : String}, f ∈ [] → P := fun h => absurd h not_mem_nil
        exact ⟨fun k d _ => ⟨fun _ => hnone, hnone⟩, fun _ => hnone⟩
  shaped := by
    refine ⟨rfl, fun f hf => ?_⟩
    simp only [profileNames, mem_cons, not_mem_nil, or_false] at hf
    rcases hf with rfl | rfl | rfl | rfl | rfl
    · trivial
    · trivial
    · refine ⟨rfl, fun f hf => ?_⟩
      simp only [imageLibrary, mem_cons, not_mem_nil, or_false] at hf
      rcases hf with rfl | rfl | rfl
      · exact ⟨fun _ => rfl, rfl, trivial⟩
      · exact ⟨fun _ => rfl, rfl, trivial⟩
      · trivial
    · exact ⟨rfl, fun f hf => trivial⟩
    · exact ⟨rfl, fun f hf => absurd hf not_mem_nil⟩

theorem wiki_plainKeys :
    PlainKeys imageLibrary (wikiLive "wiki" [(profileLabel, .string "wiki")]) := by
  refine ⟨by decide +kernel, fun bundle _ _ hbundle hdocs => ?_⟩
  obtain rfl : [wikiDocument []] = bundle := some.inj (Eq.trans (by decide +kernel) hbundle)
  obtain ⟨rfl, -⟩ := cons.inj (Except.ok.inj hdocs)
  decide +kernel

end Gentian.Profilebundle
