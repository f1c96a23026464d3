/-
# What a bundle may hold

`internal/profilebundle/bundle.go` (`Check` and the rules of each kind), `origin.go`
(`ParseOrigin`) and `owned.go` (`ShapeOwner`).

A bundle is a profile and, after it, its companions.  Each kind of companion has a shape of name
that is made from the profile's: `app-<profile>`, `<profile>-oidc`, `<profile>.<asset>`,
`<profile>.<record>`.  What `Check` held a companion to is `Fits`.

The prose of the refusals is left out.  Reading the YAML and compiling an authorization model are
parameters.  Where several keys of a map are refused, the first in order is the one named here.
-/

import Gentian.Api.Names
import Gentian.Base.Json

namespace Gentian.Profilebundle

open Documents GoStrings GoErrors

/-! ### Documents -/

/-- `OriginAnnotation`. -/
def originAnnotationKey : String := "gentianos.io/catalogue-origin"

/-- What the platform's own labels and annotations begin with. -/
def ownedPrefix : String := "gentianos.io/"

/-- The label that names the profile an object is of. -/
def profileLabel : String := "gentianos.io/profile-name"

/-- The label that names an asset. -/
def assetLabel : String := "gentianos.io/asset"

/-- What the annotations of Argo CD begin with. -/
def argoPrefix : String := "argocd.argoproj.io/"

/-- The version of the platform's own kinds. -/
def gentianAPIVersion : String := "gentianos.io/v1alpha1"

/-- What a document says it is. -/
structure Head where
  apiVersion : String
  kind : String
  name : String
deriving DecidableEq

/-- The head of a document. -/
def headOf (doc : Json) : Head :=
  ⟨(doc.get "apiVersion").text, (doc.get "kind").text, ((doc.get "metadata").get "name").text⟩

/-- The labels of a document. -/
def labelsOf (doc : Json) : Json := (doc.get "metadata").get "labels"

/-- What is found below a way of keys. -/
def dig (doc : Json) (path : List String) : Json := path.foldl Json.get doc

/-- `stringsAt`: every string found under one of the keys, anywhere. -/
def stringsAt (keys : List String) : Json → List String
  | .object names fields => names.list.attach.flatMap fun k =>
    (if (fields ⟨k.1, k.2⟩).text ≠ "" ∧ k.1 ∈ keys then [(fields ⟨k.1, k.2⟩).text] else []) ++
      stringsAt keys (fields ⟨k.1, k.2⟩)
  | .list n items => (List.finRange n).flatMap fun i => stringsAt keys (items i)
  | .null | .bool _ | .number _ | .string _ => []

/-! ### Origins -/

/-- Where a profile came from. -/
structure Origin where
  tenant : String
  source : String
deriving DecidableEq

/-- `ParseOrigin`; `none` where it cannot be read. -/
def parseOrigin (value : String) : Option Origin :=
  let value := trimSpace value
  if value = "" then some ⟨"", ""⟩
  else
    match split value '/' with
    | [scope, source] => if scope = "cluster" ∧ source ≠ "" then some ⟨"", source⟩ else none
    | [scope, tenant, source] =>
      if scope = "tenant" ∧ tenant ≠ "" ∧ source ≠ "" then some ⟨tenant, source⟩ else none
    | _ => none

/-- Whether an origin is a source of the cluster. -/
def fromCluster (origin : String) : Bool :=
  match parseOrigin origin with
  | some o => o.source ≠ "" && o.tenant = ""
  | none => false

/-- Whether an origin is a tenant's. -/
def fromTenant (origin : String) : Bool :=
  match parseOrigin origin with
  | some o => o.tenant ≠ ""
  | none => false

/-! ### Companions -/

/-- An object that comes with a profile. -/
structure Companion where
  apiVersion : String
  kind : String
  name : String
  namespaced : Bool
  object : Json
deriving DecidableEq

/-- A profile and its companions. -/
structure Bundle where
  name : String
  profile : Json
  companions : List Companion
deriving DecidableEq

/-- Why a bundle is not accepted. -/
inductive Problem where
  | parse (err : String)
  | empty
  | notProfile (kind : String)
  | named (name : String)
  | argo (key : String)
  | label (value : Json)
  | unlabelled
  | authorization (err : String)
  | platformTier
  | longName
  | second (name : String)
  | kind (apiVersion kind : String)
  | notCluster (c : Companion)
  | default
  | compositionName (c : Companion)
  | composes (c : Companion) (kind apiVersion : Json)
  | renders (c : Companion) (composition : Json)
  | packsName (c : Companion)
  | client (c : Companion) (client : String)
  | serviceClient (c : Companion) (client : String)
  | asset (c : Companion)
  | configMapName (c : Companion) (asset : String)
  | rootCA (c : Companion)
  | data (c : Companion) (key : String)
  | customizationName (c : Companion)
  | target (c : Companion) (profile : Json)
  | scope (c : Companion) (scope : Json)
  | states (c : Companion) (key : String)
  | metadata (c : Companion) (key : String)
  | labels (c : Companion) (labels : List (String × String))
  | twice (c : Companion)
deriving DecidableEq

/-- A check. -/
def ensure (b : Bool) (p : Problem) : Except Problem Unit := if b then .ok () else .error p

/-- A check succeeds when it holds. -/
theorem ensure_eq_ok {t : Bool} {e : Problem} {u : Unit} : ensure t e = .ok u ↔ t := by
  cases t <;> simp [ensure]

theorem ensure_then {α : Type} {t : Bool} {e : Problem} {x : Except Problem α} {a : α} :
    (ensure t e >>= fun _ => x) = .ok a ↔ t ∧ x = .ok a := by
  rw [seq_eq_ok, ensure_eq_ok]

theorem ensure_decide_then {α : Type} {P : Prop} [Decidable P] {e : Problem}
    {x : Except Problem α} {a : α} :
    (ensure (decide P) e >>= fun _ => x) = .ok a ↔ P ∧ x = .ok a := by
  rw [ensure_then, decide_eq_true_iff]

/-- A check of every key. -/
def ensureAll (keys : List String) (allowed : String → Bool) (p : String → Problem) :
    Except Problem Unit :=
  match keys.find? fun k => !allowed k with
  | some k => .error (p k)
  | none => .ok ()

/-- The kinds a companion can have. -/
inductive Rule where
  | composition
  | oidcPacks
  | configMap
  | customization
deriving DecidableEq

namespace Rule

/-- The name of the kind. -/
def kind : Rule → String
  | composition => "Composition"
  | oidcPacks => "OIDCPackCatalog"
  | configMap => "ConfigMap"
  | customization => "Customization"

/-- Its version. -/
def apiVersion : Rule → String
  | composition => "apiextensions.crossplane.io/v1"
  | oidcPacks | customization => gentianAPIVersion
  | configMap => "v1"

/-- Whether its objects are in a namespace. -/
def namespaced : Rule → Bool
  | composition | oidcPacks => false
  | configMap | customization => true

/-- The field its content is under. -/
def body : Rule → String
  | configMap => "data"
  | _ => "spec"

/-- What a rule is found by. -/
def key (r : Rule) : String := r.apiVersion ++ "/" ++ r.kind

/-- `rules`. -/
def all : List Rule := [composition, oidcPacks, configMap, customization]

/-- The rule for a document. -/
def find (h : Head) : Option Rule := all.find? fun r => r.key = h.apiVersion ++ "/" ++ h.kind

end Rule

/-- `shape`: the kind's one body field, a name, exactly the labels given, and nothing else. -/
def shape (c : Companion) (r : Rule) (labels : List (String × String)) : Except Problem Unit := do
  ensureAll c.object.keysOf.list
    (fun key => key = "apiVersion" || key = "kind" || key = "metadata" || key = r.body) (.states c)
  ensureAll (c.object.get "metadata").keysOf.list (fun key => key = "name" || key = "labels")
    (.metadata c)
  ensure ((labelsOf c.object).keysOf.list.length = labels.length) (.labels c labels)
  ensure (labels.all fun l => (labelsOf c.object).get l.1 = .string l.2) (.labels c labels)

/-- The Composition that is the platform's. -/
def defaultComposition : String := "app-default"

/-- A name that Kubernetes gives itself. -/
def rootCABundle : String := "kube-root-ca.crt"

/-- `checkComposition`: the one Composition a profile is rendered by. -/
def checkComposition (b : Bundle) (c : Companion) : Except Problem Unit := do
  ensure (c.name ≠ defaultComposition) .default
  ensure (c.name = "app-" ++ b.name) (.compositionName c)
  let ref := dig c.object ["spec", "compositeTypeRef"]
  ensure (ref.get "apiVersion" = .string gentianAPIVersion && ref.get "kind" = .string "XApp")
    (.composes c (ref.get "kind") (ref.get "apiVersion"))
  let composition := dig b.profile ["spec", "package", "composition"]
  ensure (composition = .string c.name) (.renders c composition)
  shape c .composition [(profileLabel, b.name)]

/-- `checkOIDCPacks`: the packs for the clients a profile declares. -/
def checkOIDCPacks (b : Bundle) (c : Companion) : Except Problem Unit := do
  ensure (c.name = b.name ++ "-oidc") (.packsName c)
  let clients := stringsAt ["clientId", "oidcPackRef"] (b.profile.get "spec")
  let packs := dig c.object ["spec", "packs"]
  ensureAll packs.keysOf.list (fun key => key ∈ clients) (.client c)
  ensureAll packs.keysOf.list (fun key => (packs.get key).get "serviceClient" ≠ .bool true)
    (.serviceClient c)
  shape c .oidcPacks [(profileLabel, b.name)]

/-- `checkConfigMap`: a file a profile's Composition reads. -/
def checkConfigMap (b : Bundle) (c : Companion) : Except Problem Unit := do
  let asset := ((labelsOf c.object).get assetLabel).text
  ensure (Api.dnsLabel asset) (.asset c)
  ensure (c.name = b.name ++ "." ++ asset) (.configMapName c asset)
  ensure (c.name ≠ rootCABundle) (.rootCA c)
  let data := c.object.get "data"
  ensureAll data.keysOf.list (fun key => data.get key = .string (data.get key).text) (.data c)
  shape c .configMap [(profileLabel, b.name), (assetLabel, asset)]

/-- `strings.Cut(name, ".")`: what stands before the first dot, and after it. -/
def cutDot (name : String) : String × String := (cut name '.').getD (name, "")

/-- `checkCustomization`: a record of a deviation a profile carries. -/
def checkCustomization (b : Bundle) (c : Companion) : Except Problem Unit := do
  ensure ((cutDot c.name).1 = b.name && Api.dnsLabel (cutDot c.name).2) (.customizationName c)
  let spec := c.object.get "spec"
  ensure ((spec.get "target").get "profile" = .string b.name)
    (.target c ((spec.get "target").get "profile"))
  ensure (spec.get "scope" = .string "profile") (.scope c (spec.get "scope"))
  shape c .customization [(profileLabel, b.name)]

/-- The check of a companion's kind. -/
def Rule.check : Rule → Bundle → Companion → Except Problem Unit
  | .composition => checkComposition
  | .oidcPacks => checkOIDCPacks
  | .configMap => checkConfigMap
  | .customization => checkCustomization

/-! ### The check -/

/-- `checkProfile`. -/
def checkProfile (requirement : Json → Option String) (b : Bundle) : Except Problem Unit := do
  let labels := labelsOf b.profile
  let annotations := (b.profile.get "metadata").get "annotations"
  ensureAll (labels.keysOf.list ++ annotations.keysOf.list) (fun key => !hasPrefix key argoPrefix)
    .argo
  ensure (!(profileLabel ∈ labels.keysOf) || labels.get profileLabel = .string b.name)
    (.label (labels.get profileLabel))
  ensure (labels.get profileLabel = .string b.name) .unlabelled
  let authorization := dig b.profile ["spec", "requires", "services", "authorization"]
  if authorization.isObject then
    match requirement authorization with
    | some err => .error (.authorization err)
    | none => .ok ()
  else .ok ()

/-- The check of one document that follows the profile. -/
def checkCompanion (b : Bundle) (cluster : Bool) (seen : List String) (doc : Json) :
    Except Problem Companion :=
  let head := headOf doc
  let c : Companion := ⟨head.apiVersion, head.kind, head.name, false, doc⟩
  if head.kind = "ComponentProfile" then .error (.second head.name)
  else
    match Rule.find head with
    | none => .error (.kind head.apiVersion head.kind)
    | some rule => do
      ensure cluster (.notCluster c)
      let c := { c with namespaced := rule.namespaced }
      rule.check b c
      ensure (!seen.contains (c.kind ++ "/" ++ c.name)) (.twice c)
      pure c

/-- The documents one after the other, no two of one kind and name. -/
def checkCompanions (b : Bundle) (cluster : Bool) :
    List String → List Json → Except Problem (List Companion)
  | _, [] => .ok []
  | seen, doc :: docs => do
    let c ← checkCompanion b cluster seen doc
    let cs ← checkCompanions b cluster ((c.kind ++ "/" ++ c.name) :: seen) docs
    pure (c :: cs)

/-- `Check`, of the documents a bundle's bytes are read as. -/
def check (requirement : Json → Option String) (docs : Except String (List Json))
    (name origin : String) : Except Problem Bundle :=
  match docs with
  | .error err => .error (.parse err)
  | .ok [] => .error .empty
  | .ok (profile :: others) => do
    let head := headOf profile
    let b : Bundle := ⟨head.name, profile, []⟩
    ensure (head.kind = "ComponentProfile") (.notProfile head.kind)
    ensure (head.name = name) (.named head.name)
    checkProfile requirement b
    ensure (!(fromTenant origin && dig profile ["spec", "trustTier"] = .string "platform"))
      .platformTier
    if others = [] then pure b
    else do
      ensure (Api.dnsLabel name) .longName
      let companions ← checkCompanions b (fromCluster origin) [] others
      pure { b with companions }

/-- The profile is the first document. -/
theorem profile_of_check {requirement : Json → Option String} {docs : Except String (List Json)}
    {name origin : String} {b : Bundle} (h : check requirement docs name origin = .ok b) :
    ∃ others, docs = .ok (b.profile :: others) := by
  unfold check at h
  split at h
  · cases h
  · cases h
  next profile others =>
    obtain ⟨-, h⟩ := ensure_then.1 h
    obtain ⟨-, h⟩ := ensure_then.1 h
    obtain ⟨-, h⟩ := seq_eq_ok.1 h
    obtain ⟨-, h⟩ := ensure_then.1 h
    split_ifs at h
    · cases h
      exact ⟨others, rfl⟩
    · obtain ⟨-, h⟩ := ensure_then.1 h
      obtain ⟨cs, -, h⟩ := bind_eq_ok.1 h
      cases h
      exact ⟨others, rfl⟩

/-- `ShapeOwner`: the profile whose bundle could bring a companion of this kind and name. -/
def shapeOwner (kind name : String) : Option String :=
  let profile :=
    if kind = "Composition" then
      if name = defaultComposition then none else cutPrefix name "app-"
    else if kind = "OIDCPackCatalog" then cutSuffix name "-oidc"
    else if kind = "ConfigMap" ∨ kind = "Customization" then
      match cut name '.' with
      | some (profile, rest) =>
        if Api.dnsLabel rest && name ≠ rootCABundle then some profile else none
      | none => none
    else none
  profile.filter Api.dnsLabel

end Gentian.Profilebundle
