/-
# Credentials that a person supplies

`valuesRender.suppliedCredentials` of `internal/apprender/values_supplied.go`,
`SuppliedRequirementName` and `CategoryPath` of `internal/kernel/secrets/paths.go`, and
`AwaitedSupplied` of `internal/credentialprobe/credentialprobe.go`.

A requirement is cluster-scoped and named `app-{tenant}-{app}-{credential}`, and each of the three
may have hyphens: the requirement of one tenant's app overwrites that of another's, and an app
waits for the probe of another's credential (`supplied_name_shared`).
-/

import Gentian.Api.Names

namespace Gentian.Secrets

open GoStrings List

/-- A field of a secret that somebody supplies. -/
structure SuppliedField where
  key : String
  valuePath : String
  format : String
  sample : String
  isPublic : Bool
deriving DecidableEq

/-- A secret that a profile asks somebody for. -/
structure SuppliedSecret where
  name : String
  displayName : String
  description : String
  fields : List SuppliedField
deriving DecidableEq

/-- `valuesRender`, as far as the supplied credentials read it. -/
structure ValuesRender where
  tenant : String
  app : String
  controlNamespace : String
  consumerKind : String
  consumerName : String
  supplied : List SuppliedSecret
deriving DecidableEq

/-- A field of a requirement. -/
structure RequirementField where
  key : String
  format : String
  isSecret : Bool
  sample : Option String
deriving DecidableEq

/-- A `CredentialRequirement`, with the labels that name its app and its tenant. -/
structure CredentialRequirement where
  name : String
  provider : String
  tenantLabel : String
  displayName : String
  description : String
  tenant : String
  vaultPath : String
  consumedBy : String × String
  fields : Option (List RequirementField)
deriving DecidableEq

/-- A key of a secret in the vault. -/
structure RemoteRef where
  secretKey : String
  path : String
  property : String
deriving DecidableEq

/-- A probe: an `ExternalSecret` that makes no Secret. -/
structure Probe where
  name : String
  inNamespace : String
  requirement : String
  data : Option (List RemoteRef)
deriving DecidableEq

/-- Where an app's secret of a category is. -/
def categoryPath (tenant app category : String) : String :=
  "gentian-os/tenants/" ++ tenant ++ "/apps/" ++ app ++ "/" ++ category

/-- The name of a requirement. -/
def suppliedRequirementName (tenant app name : String) : String :=
  "app-" ++ (tenant ++ "-" ++ (app ++ "-" ++ name))

/-- `credentialprobe.Prefix` before the name of a requirement. -/
def probeName (requirement : String) : String := "credreq-" ++ requirement

namespace ValuesRender

/-- `appPath` of a supplied credential. -/
def suppliedPath (r : ValuesRender) (name : String) : String :=
  categoryPath r.tenant r.app ("supplied/" ++ name)

/-- The fields that a value is made of. -/
def mapped (sc : SuppliedSecret) : List SuppliedField :=
  sc.fields.filter fun f => f.key ≠ "" ∧ f.valuePath ≠ ""

/-- A list, unless it is empty. -/
def nonempty {α : Type} : List α → Option (List α)
  | [] => none
  | l => some l

/-- The requirement that a supplied secret is asked for with. -/
def requirement (r : ValuesRender) (sc : SuppliedSecret) : CredentialRequirement where
  name := suppliedRequirementName r.tenant r.app sc.name
  provider := r.app
  tenantLabel := r.tenant
  displayName := if sc.displayName = "" then sc.name else sc.displayName
  description := trimSpace (trimSpace sc.description ++ " The app " ++ r.app ++
    " waits for it until it is set here.")
  tenant := r.tenant
  vaultPath := r.suppliedPath sc.name
  consumedBy := (r.consumerKind, r.consumerName)
  fields := nonempty ((mapped sc).map fun f =>
    ⟨f.key, if f.format = "" then "string" else f.format, !f.isPublic,
      if f.sample = "" then none else some f.sample⟩)

/-- The probe that tells whether it is there. -/
def probe (r : ValuesRender) (sc : SuppliedSecret) : Probe where
  name := probeName (suppliedRequirementName r.tenant r.app sc.name)
  inNamespace := r.controlNamespace
  requirement := suppliedRequirementName r.tenant r.app sc.name
  data := nonempty ((mapped sc).map fun f => ⟨f.key, r.suppliedPath sc.name, f.key⟩)

/-- The secrets that are asked for. -/
def asked (r : ValuesRender) : List SuppliedSecret :=
  r.supplied.filter fun sc => sc.name ≠ "" ∧ sc.fields ≠ []

/-- `suppliedCredentials`: a requirement and its probe for each credential. -/
def suppliedCredentials (r : ValuesRender) :
    Except String (List (CredentialRequirement × Probe)) :=
  if r.supplied = [] then .ok []
  else if r.controlNamespace = "" then
    .error ("cluster-config carries no kernel.controlNamespace, " ++
      "which the credential probes of a supplied secret are placed in")
  else .ok (r.asked.map fun sc => (r.requirement sc, r.probe sc))

end ValuesRender

/-! ### The cluster -/

/-- The requirements and probes that were applied, the latest first: one that is applied
replaces the one of its name. -/
structure Cluster where
  requirements : List CredentialRequirement
  probes : List Probe

/-- The requirement of a name. -/
def Cluster.requirement (c : Cluster) (name : String) : Option CredentialRequirement :=
  c.requirements.find? fun o => o.name = name

/-- The probe of a name. -/
def Cluster.probe (c : Cluster) (ns name : String) : Option Probe :=
  c.probes.find? fun o => o.inNamespace = ns ∧ o.name = name

/-- The objects of one app's rendering are applied. -/
def Cluster.apply (c : Cluster) (r : ValuesRender) : Cluster :=
  match r.suppliedCredentials with
  | .error _ => c
  | .ok objs => ⟨(objs.map Prod.fst).reverse ++ c.requirements,
      (objs.map Prod.snd).reverse ++ c.probes⟩

/-- The cluster once apps have been rendered. -/
def Cluster.rendered (rs : List ValuesRender) : Cluster := rs.foldl .apply ⟨[], []⟩

/-- A secret that an app waits for. -/
structure Awaited where
  name : String
  displayName : String
  requirement : String
deriving DecidableEq

/-- `Satisfied`, where `ready` is the verdict on a probe and `ns` the operator's namespace. -/
def satisfied (c : Cluster) (ready : Probe → Bool) (ns requirement : String) : Bool :=
  (c.probe ns (probeName requirement)).any ready

/-- `AwaitedSupplied`, of a profile that asks for these credentials. -/
def awaitedSupplied (c : Cluster) (ready : Probe → Bool) (ns tenant app : String)
    (supplied : List SuppliedSecret) : List Awaited :=
  (supplied.filter fun s => !satisfied c ready ns (suppliedRequirementName tenant app s.name)).map
    fun s => ⟨s.name, s.displayName, suppliedRequirementName tenant app s.name⟩

/-! ### Whose a name is -/

/-- The pattern and the length that a supplied credential's name is held to. -/
def credentialName (name : String) : Bool := Api.labelOf 30 name

/-- What stands before the credential in the name of a requirement. -/
def ValuesRender.before (r : ValuesRender) : String := "app-" ++ (r.tenant ++ "-" ++ (r.app ++ "-"))

/-- No credential of one app has the name of another's, whatever the two are called. -/
def OwnNames (r r' : ValuesRender) : Prop :=
  ∀ n n', credentialName n = true → credentialName n' = true →
    suppliedRequirementName r.tenant r.app n = suppliedRequirementName r'.tenant r'.app n' ∨
      probeName (suppliedRequirementName r.tenant r.app n) =
        probeName (suppliedRequirementName r'.tenant r'.app n') →
    r.tenant = r'.tenant ∧ r.app = r'.app ∧ n = n'

/-- The two are one tenant's app, or what stands before the credential's name does not go on from
one to the other as such a name may begin. -/
def PrefixesApart (r r' : ValuesRender) : Prop :=
  (r.tenant = r'.tenant ∧ r.app = r'.app) ∨ Api.mayMeet 30 r.before r'.before = false
deriving Decidable

theorem suppliedRequirementName_eq (r : ValuesRender) (n : String) :
    suppliedRequirementName r.tenant r.app n = r.before ++ n := by
  simp only [suppliedRequirementName, ValuesRender.before, String.append_assoc]

/-- **Two apps have names of their own exactly when their prefixes are apart.** -/
theorem ownNames_iff {r r' : ValuesRender} : OwnNames r r' ↔ PrefixesApart r r' := by
  simp only [OwnNames, probeName, String.append_right_inj, or_self, suppliedRequirementName_eq]
  constructor
  · intro hown
    rw [PrefixesApart, or_iff_not_imp_right, Bool.not_eq_false]
    intro hmeet
    obtain ⟨n, n', hn, hn', heq⟩ := Api.mayMeet_iff.1 hmeet
    have hsame := hown n n' hn hn' heq
    exact ⟨hsame.1, hsame.2.1⟩
  · rintro (⟨htenant, happ⟩ | hapart) n n' hn hn' heq
    · rw [ValuesRender.before, ValuesRender.before, htenant, happ, String.append_right_inj] at heq
      exact ⟨htenant, happ, heq⟩
    · rw [Api.mayMeet_iff.2 ⟨n, n', hn, hn', heq⟩] at hapart
      cases hapart

section

variable {r : ValuesRender} {rs : List ValuesRender} {c : Cluster} {sc : SuppliedSecret}

theorem Cluster.apply_eq (c : Cluster) (r : ValuesRender) : c.apply r = c ∨
    c.apply r = ⟨(r.asked.map r.requirement).reverse ++ c.requirements,
      (r.asked.map r.probe).reverse ++ c.probes⟩ := by
  unfold Cluster.apply ValuesRender.suppliedCredentials
  split_ifs
  · exact .inl (by simp)
  · exact .inl rfl
  · exact .inr (by simp [Function.comp_def])

/-- What is on the cluster is what some app's rendering asked for. -/
structure AllAsked (rs : List ValuesRender) (c : Cluster) : Prop where
  requirements : ∀ o ∈ c.requirements, ∃ r ∈ rs, ∃ sc ∈ r.asked, o = r.requirement sc
  probes : ∀ o ∈ c.probes, ∃ r ∈ rs, ∃ sc ∈ r.asked, o = r.probe sc

/-- One rendering adds what it asks for. -/
theorem AllAsked.apply (h : AllAsked rs c) (hr : r ∈ rs) : AllAsked rs (c.apply r) := by
  rcases c.apply_eq r with heq | heq <;> rw [heq]
  · exact h
  · refine ⟨fun o ho => ?_, fun o ho => ?_⟩ <;> rcases mem_append.1 ho with hnew | hold
    · obtain ⟨sc, hsc, rfl⟩ := mem_map.1 (mem_reverse.1 hnew)
      exact ⟨r, hr, sc, hsc, rfl⟩
    · exact h.requirements o hold
    · obtain ⟨sc, hsc, rfl⟩ := mem_map.1 (mem_reverse.1 hnew)
      exact ⟨r, hr, sc, hsc, rfl⟩
    · exact h.probes o hold

theorem allAsked_foldl (rest : List ValuesRender) (hsub : ∀ r ∈ rest, r ∈ rs)
    (h : AllAsked rs c) : AllAsked rs (rest.foldl .apply c) := by
  induction rest generalizing c with
  | nil => exact h
  | cons r rest ih =>
    refine ih (fun r' hr' => hsub r' (mem_cons_of_mem r hr')) ?_
    exact h.apply (hsub r mem_cons_self)

theorem mem_requirements_foldl {o : CredentialRequirement} (rest : List ValuesRender)
    (h : o ∈ c.requirements) : o ∈ (rest.foldl Cluster.apply c).requirements := by
  induction rest generalizing c with
  | nil => exact h
  | cons r rest ih =>
    refine ih ?_
    rcases c.apply_eq r with heq | heq <;> rw [heq]
    · exact h
    · exact mem_append_right _ h

/-- What is asked for is there. -/
theorem requirement_mem_rendered (hr : r ∈ rs) (hns : r.controlNamespace ≠ "")
    (hsc : sc ∈ r.asked) : r.requirement sc ∈ (Cluster.rendered rs).requirements := by
  obtain ⟨-, after, rfl⟩ := append_of_mem hr
  rw [Cluster.rendered, foldl_append]
  refine mem_requirements_foldl after ?_
  have hsome : r.supplied ≠ [] := ne_nil_of_mem (mem_filter.1 hsc).1
  rw [Cluster.apply, ValuesRender.suppliedCredentials, if_neg hsome, if_neg hns]
  refine mem_append_left _ (mem_reverse.2 ?_)
  simpa using ⟨sc, hsc, rfl⟩

/-- A probe looks where the secret is. -/
theorem path_of_mem_probe {refs : List RemoteRef} {ref : RemoteRef}
    (h : (r.probe sc).data = some refs) (href : ref ∈ refs) :
    ref.path = r.suppliedPath sc.name := by
  simp only [ValuesRender.probe, ValuesRender.nonempty] at h
  split at h <;> cases h
  obtain ⟨-, -, rfl⟩ := mem_map.1 href
  rfl

end

/-- What the cluster holds of the credentials of one app: the requirement stored under a
credential's name is there, and it is of its tenant and at its path; a probe stored under its name
is at its path; and a credential that is not awaited has such a probe that is ready. -/
structure HeldOwn (c : Cluster) (ready : Probe → Bool) (ns : String) (r : ValuesRender) : Prop where
  there : ∀ sc ∈ r.asked, r.controlNamespace ≠ "" →
    ∃ o, c.requirement (suppliedRequirementName r.tenant r.app sc.name) = some o
  own : ∀ n o, credentialName n = true →
    c.requirement (suppliedRequirementName r.tenant r.app n) = some o →
      o.tenant = r.tenant ∧ o.vaultPath = r.suppliedPath n
  awaited : ∀ supplied, ∀ s ∈ supplied, credentialName s.name = true →
    (∀ a ∈ awaitedSupplied c ready ns r.tenant r.app supplied, a.name ≠ s.name) →
      ∃ p, c.probe ns (probeName (suppliedRequirementName r.tenant r.app s.name)) = some p ∧
        ready p = true ∧
          ∀ refs, p.data = some refs → ∀ ref ∈ refs, ref.path = r.suppliedPath s.name

/-- **A supplied credential is asked for under a name of its own exactly when the apps' prefixes
are apart**, and then the cluster holds it as its own, however often and in whatever order the
apps are rendered. -/
theorem supplied_name_own {rs : List ValuesRender}
    (hnames : ∀ r ∈ rs, ∀ sc ∈ r.asked, credentialName sc.name = true) :
    (∀ r ∈ rs, ∀ r' ∈ rs, OwnNames r r' ↔ PrefixesApart r r') ∧
      ∀ r ∈ rs, (∀ r' ∈ rs, PrefixesApart r r') →
        ∀ ready ns, HeldOwn (Cluster.rendered rs) ready ns r := by
  refine ⟨fun r _ r' _ => ownNames_iff, fun r hr hapart ready ns => ?_⟩
  have hall : AllAsked rs (.rendered rs) :=
    allAsked_foldl rs (fun _ h => h) ⟨by simp, by simp⟩
  have hpath : ∀ {r' : ValuesRender} {n n' : String},
      r.tenant = r'.tenant ∧ r.app = r'.app ∧ n = n' → r'.suppliedPath n' = r.suppliedPath n := by
    rintro r' n n' ⟨htenant, happ, rfl⟩
    rw [ValuesRender.suppliedPath, ValuesRender.suppliedPath, htenant, happ]
  refine ⟨fun sc hsc hns => ?_, fun n o hn ho => ?_, fun supplied s hs hn hno => ?_⟩
  · refine Option.isSome_iff_exists.1 (find?_isSome.2 ?_)
    exact ⟨_, requirement_mem_rendered hr hns hsc, by simp [ValuesRender.requirement]⟩
  · have hname : o.name = suppliedRequirementName r.tenant r.app n := by
      simpa using find?_some ho
    obtain ⟨r', hr', sc, hsc, rfl⟩ := hall.requirements o (mem_of_find?_eq_some ho)
    have hsame := ownNames_iff.2 (hapart r' hr') n sc.name hn (hnames r' hr' sc hsc)
      (.inl hname.symm)
    exact ⟨hsame.1.symm, hpath hsame⟩
  · have hsat : satisfied (.rendered rs) ready ns
        (suppliedRequirementName r.tenant r.app s.name) := by
      by_contra hnot
      refine hno _ (mem_map.2 ⟨s, mem_filter.2 ⟨hs, by simpa using hnot⟩, rfl⟩) rfl
    obtain ⟨p, hp, hready⟩ := (Option.any_eq_true _ _).1 hsat
    refine ⟨p, hp, hready, fun refs hrefs ref href => ?_⟩
    have hname := find?_some hp
    rw [decide_eq_true_eq] at hname
    obtain ⟨r', hr', sc, hsc, rfl⟩ := hall.probes p (mem_of_find?_eq_some hp)
    have hsame := ownNames_iff.2 (hapart r' hr') s.name sc.name hn (hnames r' hr' sc hsc)
      (.inr hname.2.symm)
    exact (path_of_mem_probe hrefs href).trans (hpath hsame)

/-- A secret with one key. -/
def keys : SuppliedSecret := ⟨"keys", "Keys", "", [⟨"id", "id", "", "", false⟩]⟩

/-- The rendering of an app that asks for it. -/
def renderOf (tenant app : String) : ValuesRender :=
  ⟨tenant, app, "kernel", "Component", app, [keys]⟩

/-- A tenant whose name begins another's is no trouble to an app that both have. -/
theorem supplied_name_own_wiki :
    ∃ o, (Cluster.rendered [renderOf "a" "wiki", renderOf "a-b" "wiki"]).requirement
        "app-a-wiki-keys" = some o ∧ o.tenant = "a" := by
  have hnames : ∀ r ∈ [renderOf "a" "wiki", renderOf "a-b" "wiki"], ∀ sc ∈ r.asked,
      credentialName sc.name = true := by decide
  have h := (supplied_name_own hnames).2 (renderOf "a" "wiki") (by decide) (by decide +kernel)
    (fun _ => true) "kernel"
  obtain ⟨o, ho⟩ := h.there keys (by decide) (by decide)
  exact ⟨o, ho, (h.own "keys" o (by decide) ho).1⟩

/-- **Two tenants' apps ask under one name.**  The requirement of app `b-c` of tenant `a` is
overwritten by that of app `c` of tenant `a-b`, and the app waits no longer once the other's
credential is there. -/
theorem supplied_name_shared : Api.validTenantName "a" = true ∧ Api.validTenantName "a-b" = true ∧
    Api.dnsLabel "b-c" = true ∧ Api.dnsLabel "c" = true ∧
    suppliedRequirementName "a" "b-c" "keys" = suppliedRequirementName "a-b" "c" "keys" ∧
    ∃ c, c = Cluster.rendered [renderOf "a" "b-c", renderOf "a-b" "c"] ∧
      (c.requirement (suppliedRequirementName "a" "b-c" "keys")).map
          (fun o => (o.tenant, o.vaultPath)) =
        some ("a-b", "gentian-os/tenants/a-b/apps/c/supplied/keys") ∧
      awaitedSupplied c (fun p => p.data = some
          [⟨"id", "gentian-os/tenants/a-b/apps/c/supplied/keys", "id"⟩]) "kernel" "a" "b-c"
        (renderOf "a" "b-c").supplied = [] := by
  exact ⟨by decide, by decide, by decide, by decide, by decide, _, rfl, by decide, by decide⟩

end Gentian.Secrets
