/-
# API extensions that break-glass approves

`APIExtensionDefinitions`, `APIExtensionDigest` and `LiveGrants` of
`internal/security/api_extensions.go`, and `ensureAPIExtensions` and `installAPIExtension` of
`internal/controller/component_api_extensions.go`.

An approval is pinned to a digest of the definitions read as generic JSON, where every number is a
`float64`; what is installed is read by the YAML decoder, which keeps a 64-bit integer as it is.
Two definitions that differ in a large integer have one digest (`approved_not_installed`).  The
digests are kept by name, so of two requests of one name the approval of the second installs the
first; and a request without a name is granted whatever the digest.
-/

import Gentian.Base.GoStrings
import Gentian.Base.Json

namespace Gentian.Security

open Documents GoStrings GoErrors List Json

/-! ### Numbers -/

/-- The number that digits write. -/
def natOf (digits : List Char) : Option ℕ :=
  if digits ≠ [] ∧ digits.all Char.isDigit then
    some (digits.foldl (fun n c => 10 * n + (c.toNat - '0'.toNat)) 0)
  else none

/-- The integer that a JSON number without a fraction and an exponent is. -/
def integerOf (text : String) : Option ℤ :=
  match text.toList with
  | '-' :: digits => (natOf digits).map fun n => -n
  | digits => (natOf digits).map fun n => n

/-- The `float64` nearest to an integer, the even one of two. -/
def nearest (z : ℤ) : ℤ :=
  let unit := 2 ^ (z.natAbs.log2 - 52)
  let q := z.natAbs / unit
  let r := z.natAbs % unit
  z.sign * (unit * if 2 * r < unit ∨ (2 * r = unit ∧ q % 2 = 0) then q else q + 1 : ℕ)

/-- A number, read as a `float64` and written again.  What is no integer, or is written with an
exponent, is left to `other`. -/
def floatText (other : String → String) (text : String) : String :=
  if text = "-0" then "-0"
  else match integerOf text with
    | some z => if (nearest z).natAbs < 10 ^ 21 then toString (nearest z) else other text
    | none => other text

/-- A number, read by the YAML decoder and written again. -/
def yamlText (other : String → String) (text : String) : String :=
  match integerOf text with
  | some z => if -2 ^ 63 ≤ z ∧ z < 2 ^ 64 then toString z else floatText other text
  | none => floatText other text

/-! ### Requests -/

/-- `APIExtensionRequest`, without its reason. -/
structure APIExtensionRequest where
  name : String
  group : String
  serviceAccount : String
  definitions : List Json

/-- `CustomResourceDefinitionSpec`: what is checked of it, and all else. -/
structure DefinitionSpec where
  group : String
  plural : String
  scope : String
  conversion : Option String
  rest : Json
deriving DecidableEq

/-- `CustomResourceDefinition`, without the metadata that is not installed. -/
structure Definition where
  apiVersion : String
  kind : String
  name : String
  spec : DefinitionSpec
deriving DecidableEq

/-- A privilege, and what it was granted for. -/
structure PrivilegeGrant (δ : Type) where
  privilege : String
  expiresAt : Option ℤ
  digest : δ

/-- The groups that no app may define. -/
def reservedAPIGroups : List String := ["k8s.io", "kubernetes.io", "gentianos.io"]

/-- `ReservedAPIGroup`: a group without a dot, or one of these or below them. -/
def reservedAPIGroup (group : String) : Bool :=
  !contains group "." ||
    reservedAPIGroups.any fun reserved => group = reserved || hasSuffix group ("." ++ reserved)

/-- Go's libraries: the strict decoder of a definition, and the texts of other numbers. -/
structure Library where
  decode : Json → Except String Definition
  other : String → String

variable {δ : Type} [DecidableEq δ] (l : Library)

/-- The loop of `APIExtensionDefinitions` over the definitions that are left. -/
def definitionsFrom (group : String) (i : ℕ) (seen : List String) :
    List Json → Except String (List Definition)
  | [] => .ok []
  | raw :: rest =>
    match l.decode (raw.mapNumbers (yamlText l.other)) with
    | .error e =>
      .error ("definition " ++ toString i ++ " is not a CustomResourceDefinition: " ++ e)
    | .ok crd =>
      if crd.apiVersion ≠ "apiextensions.k8s.io/v1" ∨ crd.kind ≠ "CustomResourceDefinition" then
        .error ("definition " ++ toString i ++ " is a " ++ crd.apiVersion ++ " " ++ crd.kind ++
          ", not an apiextensions.k8s.io/v1 CustomResourceDefinition")
      else if crd.spec.group ≠ group then
        .error (crd.name ++ " is in group " ++ crd.spec.group ++ ", not " ++ group)
      else if crd.spec.plural = "" ∨ crd.name ≠ crd.spec.plural ++ "." ++ group then
        .error (crd.name ++ " is not named <plural>." ++ group)
      else if crd.spec.scope ≠ "Namespaced" then
        .error (crd.name ++ " is not namespaced; an add-on's objects are a tenant's")
      else if crd.spec.conversion.any (· ≠ "None") then
        .error (crd.name ++
          " has a conversion webhook, which the API server would call on every read")
      else if crd.name ∈ seen then .error (crd.name ++ " is defined twice")
      else (definitionsFrom group (i + 1) (crd.name :: seen) rest).map (crd :: ·)

/-- `APIExtensionDefinitions`: the definitions of a request, if all are allowed. -/
def apiExtensionDefinitions (req : APIExtensionRequest) : Except String (List Definition) :=
  if reservedAPIGroup req.group then
    .error ("group " ++ req.group ++ " is Kubernetes' or the platform's, not the add-on's own")
  else definitionsFrom l req.group 1 [] req.definitions

/-- What an approval is of, as it is encoded. -/
def approved (req : APIExtensionRequest) : Json :=
  .ofPairs [("group", .string req.group), ("serviceAccount", .string req.serviceAccount),
    ("definitions", .ofItems (req.definitions.map (Json.mapNumbers (floatText l.other))))]

/-- `APIExtensionDigest`, where `sum` is the encoding and the SHA-256 of it. -/
def apiExtensionDigest (sum : Json → δ) (req : APIExtensionRequest) : δ := sum (approved l req)

/-! ### Grants -/

/-- The privilege of an extension. -/
def apiExtensionRef (name : String) : String := "apiExtensions" ++ "/" ++ name

/-- The kind that `SplitPrivilegeRef` answers. -/
def privilegeKind (ref : String) : String :=
  match cut ref '/' with
  | some (kind, name) => if kind = "" ∨ name = "" then "" else kind
  | none => ""

/-- The digest kept for a privilege: that of the last request of its name. -/
def wantedDigest (sum : Json → δ) (requests : List APIExtensionRequest) (ref : String) :
    Option δ :=
  ((requests.filter fun q => apiExtensionRef q.name = ref).getLast?).map (apiExtensionDigest l sum)

/-- A grant that has not expired. -/
def PrivilegeGrant.live (g : PrivilegeGrant δ) (now : ℤ) : Bool := g.expiresAt.all (now < ·)

/-- A grant that `LiveGrants` answers with. -/
def answers (sum : Json → δ) (requests : List APIExtensionRequest) (now : ℤ)
    (g : PrivilegeGrant δ) : Bool :=
  g.live now && (privilegeKind g.privilege ≠ "apiExtensions" ||
    wantedDigest l sum requests g.privilege = some g.digest)

/-- `LiveGrants`. -/
def liveGrants (sum : Json → δ) (requests : List APIExtensionRequest)
    (grants : List (PrivilegeGrant δ)) (now : ℤ) : List String :=
  (grants.filter (answers l sum requests now)).map PrivilegeGrant.privilege

/-! ### Installing -/

/-- A definition on the cluster, and whose it is. -/
structure Installed where
  profile : String
  spec : DefinitionSpec
deriving DecidableEq

/-- What becomes of a create. -/
inductive Created where
  | done
  | alreadyExists
  | failed (e : String)

/-- What the API server answers besides the definitions it has. -/
structure Api where
  getFails : String → Option String
  takenBy : String → Except String String
  create : String → Created
  updateFails : String → Option String

/-- The definitions on the cluster, and those written. -/
structure Pass where
  crds : String → Option Installed
  written : List Definition

/-- A definition written. -/
def Pass.put (s : Pass) (profile : String) (d : Definition) : Pass where
  crds := fun name => if name = d.name then some ⟨profile, d.spec⟩ else s.crds name
  written := s.written ++ [d]

/-- What the status says of an extension. -/
inductive Reason where
  | installed
  | notGranted
  | invalidDefinition (e : String)
  | groupTaken (by' : String)
  | typeTaken (name : String)
deriving DecidableEq

/-- The loop of `installAPIExtension` over the definitions that are left, where `checked` says
that the group was asked about. -/
def installFrom (api : Api) (profile group : String) :
    Bool → List Definition → Pass → Pass × Except String Reason
  | _, [], s => (s, .ok .installed)
  | checked, d :: defs, s =>
    match api.getFails d.name with
    | some e => (s, .error ("get CustomResourceDefinition " ++ d.name ++ ": " ++ e))
    | none =>
      match s.crds d.name with
      | none =>
        match if checked then .ok "" else api.takenBy group with
        | .error e => (s, .error e)
        | .ok taken =>
          if taken ≠ "" then (s, .ok (.groupTaken taken))
          else match api.create d.name with
            | .failed e => (s, .error ("create CustomResourceDefinition " ++ d.name ++ ": " ++ e))
            | .alreadyExists => installFrom api profile group true defs s
            | .done => installFrom api profile group true defs (s.put profile d)
      | some have' =>
        if have'.profile ≠ profile then (s, .ok (.typeTaken d.name))
        else if have'.spec = d.spec then installFrom api profile group checked defs s
        else match api.updateFails d.name with
          | some e => (s, .error ("update CustomResourceDefinition " ++ d.name ++ ": " ++ e))
          | none => installFrom api profile group checked defs (s.put profile d)

/-- `installAPIExtension`. -/
def installAPIExtension (api : Api) (profile : String) (req : APIExtensionRequest) (s : Pass) :
    Pass × Except String Reason :=
  match apiExtensionDefinitions l req with
  | .error e => (s, .ok (.invalidDefinition e))
  | .ok defs => installFrom api profile req.group false defs s

/-- The loop of `ensureAPIExtensions`, with the verdict on each request. -/
def ensureFrom (api : Api) (profile : String) (granted : List String) :
    List APIExtensionRequest → Pass → Pass × Except String (List (String × Reason))
  | [], s => (s, .ok [])
  | req :: rest, s =>
    if apiExtensionRef req.name ∉ granted then
      let (s, verdicts) := ensureFrom api profile granted rest s
      (s, verdicts.map ((req.name, .notGranted) :: ·))
    else match installAPIExtension l api profile req s with
      | (s, .error e) => (s, .error e)
      | (s, .ok reason) =>
        let (s, verdicts) := ensureFrom api profile granted rest s
        (s, verdicts.map ((req.name, reason) :: ·))

/-- `ensureAPIExtensions`, up to the bindings. -/
def ensureAPIExtensions (sum : Json → δ) (api : Api) (profile : String)
    (requests : List APIExtensionRequest) (grants : List (PrivilegeGrant δ)) (now : ℤ)
    (crds : String → Option Installed) : Pass × Except String (List (String × Reason)) :=
  ensureFrom l api profile (liveGrants l sum requests grants now) requests ⟨crds, []⟩

/-! ### What is installed -/

variable {l} {sum : Json → δ} {api : Api} {profile : String} {req req' : APIExtensionRequest}
  {requests : List APIExtensionRequest} {grants : List (PrivilegeGrant δ)} {now : ℤ}
  {d : Definition}

/-- The definitions of a request that is not refused. -/
def definitionsOf (l : Library) (req : APIExtensionRequest) : List Definition :=
  match apiExtensionDefinitions l req with
  | .ok defs => defs
  | .error _ => []

/-- A definition is one of a request whose digest is pinned in a live grant for its name. -/
def AsApproved (l : Library) (sum : Json → δ) (requests : List APIExtensionRequest)
    (grants : List (PrivilegeGrant δ)) (now : ℤ) (d : Definition) : Prop :=
  ∃ q ∈ requests, d ∈ definitionsOf l q ∧ ∃ g ∈ grants, g.privilege = apiExtensionRef q.name ∧
    g.live now = true ∧ g.digest = apiExtensionDigest l sum q

instance AsApproved.decidable : Decidable (AsApproved l sum requests grants now d) :=
  inferInstanceAs (Decidable (∃ q ∈ requests, _ ∧ ∃ g ∈ grants, _))

/-- Every number of the definitions is one number to both decoders. -/
def ReadAlike (l : Library) (req : APIExtensionRequest) : Prop :=
  ∀ raw ∈ req.definitions, raw.Numbers fun text => yamlText l.other text = floatText l.other text

/-- Both readings have the same numbers. -/
theorem ReadAlike.map_eq (h : ReadAlike l req) :
    req.definitions.map (Json.mapNumbers (yamlText l.other)) =
      req.definitions.map (Json.mapNumbers (floatText l.other)) :=
  map_congr_left fun raw hraw => mapNumbers_congr (h raw hraw)

theorem definitionsFrom_congr {group : String} {i : ℕ} {seen : List String} {xs ys : List Json}
    (h : xs.map (Json.mapNumbers (yamlText l.other)) =
      ys.map (Json.mapNumbers (yamlText l.other))) :
    definitionsFrom l group i seen xs = definitionsFrom l group i seen ys := by
  induction xs generalizing i seen ys with
  | nil =>
    cases ys with
    | nil => rfl
    | cons y ys => cases h
  | cons x xs ih =>
    cases ys with
    | nil => cases h
    | cons y ys =>
      obtain ⟨hxy, hrest⟩ := cons.inj h
      simp [definitionsFrom, hxy, fun i seen => @ih i seen ys hrest]

theorem ofItems_inj {xs ys : List Json} (h : Json.ofItems xs = .ofItems ys) : xs = ys := by
  have := congrArg itemsOf h
  simpa [ofItems, itemsOf] using this

/-- One approval is of one request's definitions. -/
theorem approved_inj (h : approved l req = approved l req') : req.group = req'.group ∧
    req.definitions.map (Json.mapNumbers (floatText l.other)) =
      req'.definitions.map (Json.mapNumbers (floatText l.other)) := by
  have hfield : ∀ k, (approved l req).field k = (approved l req').field k := fun k => by rw [h]
  refine ⟨?_, ofItems_inj ?_⟩
  · simpa [approved, field_ofPairs] using hfield "group"
  · simpa [approved, field_ofPairs, lookup] using hfield "definitions"

variable {s : Pass}

/-- What is written while a request is installed is one of its definitions. -/
theorem mem_written_installFrom {group : String} {checked : Bool} {defs : List Definition}
    (h : d ∈ (installFrom api profile group checked defs s).1.written) :
    d ∈ s.written ∨ d ∈ defs := by
  induction defs generalizing checked s with
  | nil => exact .inl h
  | cons e defs ih =>
    have hsame : ∀ {checked}, d ∈ (installFrom api profile group checked defs s).1.written →
        d ∈ s.written ∨ d ∈ e :: defs := fun h => (ih h).imp_right (mem_cons_of_mem e)
    have hput : ∀ {checked},
        d ∈ (installFrom api profile group checked defs (s.put profile e)).1.written →
        d ∈ s.written ∨ d ∈ e :: defs := by
      intro checked h
      rcases ih h with hmem | hmem
      · rcases mem_append.1 hmem with hold | hnew
        · exact .inl hold
        · exact .inr (mem_cons.2 (.inl (mem_singleton.1 hnew)))
      · exact .inr (mem_cons_of_mem e hmem)
    unfold installFrom at h
    repeat' split at h
    all_goals first | exact .inl h | exact hsame h | exact hput h

/-- What is written was granted. -/
theorem mem_written_ensureFrom {granted : List String}
    (h : d ∈ (ensureFrom l api profile granted requests s).1.written) :
    d ∈ s.written ∨ ∃ q ∈ requests, apiExtensionRef q.name ∈ granted ∧ d ∈ definitionsOf l q := by
  induction requests generalizing s with
  | nil => exact .inl h
  | cons q rest ih =>
    have hlater : ∀ {s'}, (d ∈ s'.written → d ∈ s.written ∨ (apiExtensionRef q.name ∈ granted ∧
          d ∈ definitionsOf l q)) → d ∈ (ensureFrom l api profile granted rest s').1.written →
        d ∈ s.written ∨
          ∃ q' ∈ q :: rest, apiExtensionRef q'.name ∈ granted ∧ d ∈ definitionsOf l q' := by
      intro s' hs' h
      rcases ih h with hold | ⟨q', hq', hd⟩
      · exact (hs' hold).imp_right fun hd => ⟨q, mem_cons_self, hd⟩
      · exact .inr ⟨q', mem_cons_of_mem q hq', hd⟩
    have hinstall : apiExtensionRef q.name ∈ granted →
        d ∈ (installAPIExtension l api profile q s).1.written →
        d ∈ s.written ∨ (apiExtensionRef q.name ∈ granted ∧ d ∈ definitionsOf l q) := by
      intro hgranted h
      unfold installAPIExtension at h
      unfold definitionsOf
      split at h
      · exact .inl h
      next _ hdefs =>
        rw [hdefs]
        exact (mem_written_installFrom h).imp_right fun hd => ⟨hgranted, hd⟩
    unfold ensureFrom at h
    split_ifs at h with hgranted
    · split at h
      next s' e heq =>
        refine (hinstall hgranted (by rw [heq]; exact h)).imp_right fun hd => ?_
        exact ⟨q, mem_cons_self, hd⟩
      next s' _ heq =>
        exact hlater (fun hs' => hinstall hgranted (by rw [heq]; exact hs')) h
    · exact hlater .inl h

theorem privilegeKind_apiExtensionRef {name : String} (h : name ≠ "") :
    privilegeKind (apiExtensionRef name) = "apiExtensions" := by
  have hcut : cut (apiExtensionRef name) '/' = some ("apiExtensions", name) :=
    cut_eq_some_iff.2 ⟨by simp, by simp [apiExtensionRef]⟩
  rw [privilegeKind, hcut]
  simp [h]

/-- A grant that answers a request is live and pinned to it. -/
theorem exists_grant (hnames : (requests.map APIExtensionRequest.name).Nodup)
    (hq : req ∈ requests) (hname : req.name ≠ "")
    (h : apiExtensionRef req.name ∈ liveGrants l sum requests grants now) :
    ∃ g ∈ grants, g.privilege = apiExtensionRef req.name ∧ g.live now ∧
      g.digest = apiExtensionDigest l sum req := by
  obtain ⟨g, hg, hpriv⟩ := mem_map.1 h
  obtain ⟨hmem, hanswers⟩ := mem_filter.1 hg
  simp only [answers, hpriv, privilegeKind_apiExtensionRef hname, Bool.and_eq_true,
    Bool.or_eq_true, decide_eq_true_eq, ne_eq, not_true_eq_false, false_or] at hanswers
  obtain ⟨q, hlast, hdigest⟩ := Option.map_eq_some_iff.1 hanswers.2
  obtain ⟨hq', href⟩ := mem_filter.1 (mem_of_getLast? hlast)
  have hsame : q.name = req.name := by
    simpa [apiExtensionRef] using href
  obtain rfl := inj_on_of_nodup_map hnames hq' hq hsame
  exact ⟨g, hmem, hpriv, hanswers.1, hdigest.symm⟩

/-- A decoder that reads what is checked of a definition. -/
def plainLibrary : Library where
  decode j :=
    let spec := j.get "spec"
    .ok ⟨(j.get "apiVersion").text, (j.get "kind").text, ((j.get "metadata").get "name").text,
      ⟨(spec.get "group").text, ((spec.get "names").get "plural").text, (spec.get "scope").text,
        none, spec.get "versions"⟩⟩
  other := id

/-- A definition of the type `plural`, with a default. -/
def definitionOf (plural default : String) : Json :=
  .ofPairs [("apiVersion", .string "apiextensions.k8s.io/v1"),
    ("kind", .string "CustomResourceDefinition"),
    ("metadata", .ofPairs [("name", .string (plural ++ ".acme.example"))]),
    ("spec", .ofPairs [("group", .string "acme.example"),
      ("names", .ofPairs [("plural", .string plural)]), ("scope", .string "Namespaced"),
      ("versions", .ofItems [.number default])])]

/-- A request with one definition. -/
def requestOf (name plural default : String) : APIExtensionRequest :=
  ⟨name, "acme.example", "wiki", [definitionOf plural default]⟩

/-- An API server that does what it is asked to. -/
def willingApi : Api := ⟨fun _ => none, fun _ => .ok "", fun _ => .done, fun _ => none⟩

/-- The grant for a request. -/
def grantOf (req : APIExtensionRequest) : PrivilegeGrant Json :=
  ⟨apiExtensionRef req.name, none, apiExtensionDigest plainLibrary id req⟩

end Gentian.Security
