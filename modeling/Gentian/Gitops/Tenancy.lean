/-
# Single tenancy in git

A single-tenancy cluster carries the platform tenant and one user tenant.
`SetClusterSettings` (`settings.go`) refuses to turn the mode on while there are other
tenants, and `createTenant` (`tenants.go`) refuses every other tenant while it is on
(`refuseInSingleTenancy`).

Each of them reads the other's file before it takes the lock for its commit.  So a tenant that
is created in between is there beside the mode (`single_with_another_tenant`), against what
the source says of the refusal: "before anything is committed: the operator would refuse the
tenant too, but only once git already held it".
-/

import Gentian.Gitops.Tenants

namespace Gentian.Gitops

open Threads Git GoStrings GoErrors List Option

/-! ### The settings of the claim -/

/-- `ClusterSetting`, as far as a value is checked by it. -/
structure ClusterSetting where
  path : String
  oneOf : List String
  list : Bool
deriving DecidableEq

/-- The settings of a cluster that can be changed, and the values each may have. -/
def clusterSettings : List ClusterSetting :=
  [⟨"certificates.acmeEnv", ["staging", "production"], false⟩,
    ⟨"certificates.issuerMode", ["acme-dns01", "acme-http01", "self-signed", "private-ca"], false⟩,
    ⟨"certificates.dnsZones", [], true⟩,
    ⟨"certificates.dnsRecords", [], true⟩,
    ⟨"certManager.letsencryptEmail", [], false⟩,
    ⟨"llm.enabled", ["true", "false"], false⟩,
    ⟨"llm.gpuAcceleration", ["true", "false"], false⟩,
    ⟨"logForwarding.destination.endpoint", [], false⟩,
    ⟨"logForwarding.destination.streams", [], true⟩,
    ⟨"monitoring.enabled", ["true", "false"], false⟩,
    ⟨"monitoring.alerts.webhook", [], false⟩,
    ⟨"mail.serviceMode", ["system", "external"], false⟩,
    ⟨"mail.host", [], false⟩,
    ⟨"mail.port", [], false⟩,
    ⟨"mail.starttls", ["true", "false"], false⟩,
    ⟨"mail.ssl", ["true", "false"], false⟩,
    ⟨"mail.egressHost", [], false⟩,
    ⟨"tenancyMode", ["single", "multi"], false⟩,
    ⟨"mainAddress.tenant", [], false⟩,
    ⟨"platformRoles.admin", [], false⟩,
    ⟨"platformRoles.breakGlass", [], false⟩,
    ⟨"tenantDefaults.limitRange.defaultCpu", [], false⟩,
    ⟨"tenantDefaults.limitRange.defaultMemory", [], false⟩,
    ⟨"tenantDefaults.limitRange.defaultRequestCpu", [], false⟩,
    ⟨"tenantDefaults.limitRange.defaultRequestMemory", [], false⟩]

/-- The setting at a path. -/
def settingByPath (path : String) : Option ClusterSetting :=
  clusterSettings.find? fun s => s.path = path

/-- The items of a list's text. -/
def splitItems (v : String) : List String :=
  ((split v ',').map trimSpace).filter fun item => item ≠ ""

/-- `validateSetting`. -/
def validateSetting (x : Rules) (s : ClusterSetting) (v : String) : Except Err Unit :=
  if containsAny v "\n\r" then .error (.said "the setting is not a scalar")
  else if !s.oneOf.isEmpty && !s.oneOf.contains v then .error (.said "unknown setting")
  else if s.list && (splitItems v).any fun item => !x.settingShape s.path item then
    .error (.said "unknown setting")
  else if !s.list && !x.settingShape s.path v then .error (.said "unknown setting")
  else .ok ()

/-- Every setting of a request is known and its value valid. -/
def checkSettings (x : Rules) : List (String × String) → Except Err Unit
  | [] => .ok ()
  | (path, v) :: values =>
    match settingByPath path with
    | none => .error (.said "unknown setting")
    | some s => do
      validateSetting x s v
      checkSettings x values

/-- A setting put into the claim. -/
def setFirst (path v : String) : List (String × String) → List (String × String)
  | [] => [(path, v)]
  | s :: ss => if s.1 = path then (path, v) :: ss else s :: setFirst path v ss

/-- The text a value has in the claim: a list is written item by item. -/
def settingText (path v : String) : String :=
  match settingByPath path with
  | some s => if s.list then String.intercalate "," (splitItems v) else v
  | none => v

/-- `setClaimValue` and `setClaimList`. -/
def setSetting (x : Rules) (path v : String) (c : Claim × Bool) : Except Err (Claim × Bool) :=
  if !x.settingPlace c.1 path then .error (.said "unknown setting")
  else if (c.1.settings.find? fun s => s.1 = path).map Prod.snd = some (settingText path v) then
    .ok c
  else .ok ({ c.1 with settings := setFirst path (settingText path v) c.1.settings }, true)

/-- The value a request has for a path. -/
def valueOf (values : List (String × String)) (path : String) : String :=
  (values.lookup path).getD ""

/-- The paths of a request, in the order they are set in. -/
def settingPaths (values : List (String × String)) : List String :=
  (values.map Prod.fst).dedup.insertionSort (· ≤ ·)

/-- The edit of `SetClusterSettings`. -/
def settingsEdit (x : Rules) (values : List (String × String)) : Edit Doc
  | .claim c => do
    let r ← (settingPaths values).foldlM (fun c path => setSetting x path (valueOf values path) c)
      (c, false)
    pure (.claim r.1, if r.2 then "updated" else "unchanged", r.2)
  | _ => .error (.said "the claim has no spec block")

/-- The tenants that a single-tenancy cluster does not carry. -/
def others (names : List String) : List String :=
  names.filter fun n => n ≠ platformTenant && n ≠ singleUserTenant

/-- Whether a request turns tenancy to single. -/
def asksSingle (values : List (String × String)) : Bool :=
  Api.isSingle (valueOf values "tenancyMode") && valueOf values "tenancyMode" ≠ ""

/-- What `SetClusterSettings` asks before it turns single tenancy on. -/
def refuseSingle (cluster : String) (values : List (String × String)) : Run Doc Unit :=
  if asksSingle values then do
    let names ← tenants cluster
    if (others names).isEmpty then pure ()
    else throw (.said "tenancyMode cannot be set to single")
  else pure ()

/-- `SetClusterSettings`. -/
def setClusterSettings (x : Rules) (cluster : String) (values : List (String × String))
    (attempts : ℕ) : Run Doc Result :=
  if values.isEmpty then pure (unchanged "unchanged")
  else match checkSettings x values with
    | .error e => throw e
    | .ok () => do
      refuseSingle cluster values
      applyClaim cluster (settingsEdit x values) attempts

/-! ### What the settings say afterwards -/

variable {x : Rules} {values : List (String × String)} {c c' : Claim} {path v q : String}

theorem find?_setFirst (path v q : String) (ss : List (String × String)) :
    ((setFirst path v ss).find? fun s => s.1 = q).map Prod.snd =
      if q = path then some v else (ss.find? fun s => s.1 = q).map Prod.snd := by
  induction ss with
  | nil =>
    by_cases h : q = path
    · simp [setFirst, h]
    · simp [setFirst, h, Ne.symm h]
  | cons s ss ih =>
    rw [setFirst]
    split_ifs with hs hq hq
    · simp [hq]
    · rw [find?_cons_of_neg (by simpa using Ne.symm hq),
        find?_cons_of_neg (by simpa [hs] using Ne.symm hq)]
    · rw [find?_cons_of_neg (by simpa [hq] using hs), ih, if_pos hq]
    · by_cases hsq : s.1 = q
      · simp [hsq]
      · rw [find?_cons_of_neg (by simpa using hsq), ih, if_neg hq,
          find?_cons_of_neg (by simpa using hsq)]

/-- What a claim says after one setting. -/
theorem setting_setSetting {r r' : Claim × Bool} (h : setSetting x path v r = .ok r') (q : String) :
    r'.1.setting q = if q = path then settingText path v else r.1.setting q := by
  rw [setSetting] at h
  split_ifs at h with hplace hsame
  · cases h
    split_ifs with hq
    · rw [hq, Claim.setting, hsame, getD_some]
    · rfl
  · cases h
    rw [Claim.setting, find?_setFirst]
    split_ifs <;> rfl

/-- What it says after all of them. -/
theorem settings_foldlM {paths : List String} {r r' : Claim × Bool}
    (h : paths.foldlM (fun c path => setSetting x path (valueOf values path) c) r = .ok r')
    (q : String) : r'.1.setting q = r.1.setting q ∨
      q ∈ paths ∧ r'.1.setting q = settingText q (valueOf values q) := by
  induction paths generalizing r with
  | nil =>
    cases h
    exact .inl rfl
  | cons path paths ih =>
    obtain ⟨r1, h1, h⟩ := bind_eq_ok.1 h
    have hstep := setting_setSetting h1 q
    rcases ih h with heq | ⟨hmem, heq⟩
    · rw [heq, hstep]
      split_ifs with hq
      · exact .inr ⟨hq ▸ mem_cons_self, by rw [hq]⟩
      · exact .inl rfl
    · exact .inr ⟨mem_cons_of_mem _ hmem, heq⟩

/-- A checked setting is known and valid. -/
theorem of_checkSettings (h : checkSettings x values = .ok ()) {e : String × String}
    (he : e ∈ values) : ∃ s, settingByPath e.1 = some s ∧ validateSetting x s e.2 = .ok () := by
  induction values with
  | nil => cases he
  | cons _ values ih =>
    rw [checkSettings] at h
    split at h
    · cases h
    next s hs =>
      obtain ⟨_, hv, h⟩ := bind_eq_ok.1 h
      rcases mem_cons.1 he with rfl | he
      · exact ⟨s, hs, hv⟩
      · exact ih h he

theorem valueOf_mem (h : path ∈ settingPaths values) : (path, valueOf values path) ∈ values := by
  rw [settingPaths] at h
  rw [valueOf]
  induction values with
  | nil => cases h
  | cons e values ih =>
    obtain ⟨q, v⟩ := e
    rw [lookup_cons]
    by_cases hq : path = q
    · simp [hq]
    · rw [beq_false_of_ne hq]
      refine mem_cons_of_mem _ (ih ?_)
      simpa [hq] using h

theorem mode_ne_empty (h : checkSettings x values = .ok ())
    (hmem : "tenancyMode" ∈ settingPaths values) : valueOf values "tenancyMode" ≠ "" := by
  obtain ⟨s, hs, hv⟩ := of_checkSettings h (valueOf_mem hmem)
  have heq : settingByPath "tenancyMode" = some ⟨"tenancyMode", ["single", "multi"], false⟩ := by
    decide
  cases hs.symm.trans heq
  intro hempty
  rw [hempty, validateSetting] at hv
  split_ifs at hv with hline hone
  exact absurd hone (by decide)

/-- The mode is as before, or the one that was asked for. -/
theorem mode_settingsEdit {text : Doc} {status : String} (hcheck : checkSettings x values = .ok ())
    (h : settingsEdit x values (.claim c) = .ok (text, status, true)) :
    ∃ c', text = .claim c' ∧ (c'.setting "tenancyMode" = c.setting "tenancyMode" ∨
      (Api.isSingle (c'.setting "tenancyMode") → asksSingle values)) := by
  obtain ⟨r, hr, h⟩ := bind_eq_ok.1 h
  obtain ⟨rfl, -⟩ := Prod.mk.inj (Except.ok.inj h)
  refine ⟨r.1, rfl, (settings_foldlM hr "tenancyMode").imp id fun ⟨hmem, heq⟩ hsingle => ?_⟩
  have htext : settingText "tenancyMode" (valueOf values "tenancyMode") =
      valueOf values "tenancyMode" := rfl
  rw [heq, htext] at hsingle
  rw [asksSingle, hsingle]
  simpa using mode_ne_empty hcheck hmem

/-! ### The tenants of a single-tenancy cluster -/

variable {cluster : String} {t : Tree Doc}

/-- The tenants that are declared. -/
def declaredNames (cluster : String) (t : Tree Doc) : List String :=
  (filesIn t (tenantsDir cluster) "tenant.yaml").filterMap fun f =>
    match f.2 with
    | .manifest m => if Api.validTenantName m.name then some m.name else none
    | _ => none

/-- Whether tenancy is single. -/
def singleIn (cluster : String) (t : Tree Doc) : Bool :=
  match t.get (claimPath cluster) with
  | some (.claim c) => Api.isSingle (c.setting "tenancyMode")
  | _ => false

/-- Where tenancy is single, no tenant is declared beside the one user's. -/
def SingleTenancy (cluster : String) (t : Tree Doc) : Prop :=
  singleIn cluster t = true → others (declaredNames cluster t) = []
deriving Decidable

/-- The declared tenants. -/
theorem mem_declaredNames {name : String} : name ∈ declaredNames cluster t ↔
    ∃ dir m, t.get (tenantPath cluster dir "tenant.yaml") = some (.manifest m) ∧
      Api.validTenantName m.name ∧ m.name = name := by
  rw [declaredNames, mem_filterMap]
  constructor
  · rintro ⟨⟨dir, d⟩, hmem, hd⟩
    split at hd
    next m hm =>
      split_ifs at hd with hvalid
      have hget := mem_filesIn.1 hmem
      rw [show d = .manifest m from hm] at hget
      exact ⟨dir, m, hget, hvalid, some.inj hd⟩
    · cases hd
  · rintro ⟨dir, m, hget, hvalid, rfl⟩
    exact ⟨(dir, .manifest m), mem_filesIn.2 hget, by simp [hvalid]⟩

theorem others_eq_nil {names : List String} : others names = [] ↔
    ∀ n ∈ names, n = platformTenant ∨ n = singleUserTenant := by
  rw [others, filter_eq_nil_iff]
  refine forall₂_congr fun n _ => ?_
  by_cases h : n = platformTenant <;> simp [h]

/-! ### The requests -/

/-- The requests that tenancy depends on. -/
inductive TenancyRequest where
  | setClusterSettings (values : List (String × String)) (attempts : ℕ)
  | create (n : NewTenant) (checkDomain : Tree Doc → Except Err Unit)

/-- A call, with the files that its check is made on: no step asks. -/
structure TenancyCall where
  proc : ℕ
  request : TenancyRequest
  found : Tree Doc

/-- A request, run to its answer. -/
def TenancyRequest.run (x : Rules) (cluster : String) : TenancyRequest → Run Doc Result
  | .setClusterSettings values attempts => Gitops.setClusterSettings x cluster values attempts
  | .create n checkDomain => n.run x cluster checkDomain

/-- The directors of a cluster and the requests they run. -/
abbrev governing (x : Rules) (cluster : String) :
    System (World Path Doc) TenancyCall (Op Path Doc) (Op.Ans Path Doc) (Except Err Result)
      (Fate Path Doc) ℕ :=
  system TenancyCall.proc fun k => (k.request.run x cluster).run

/-- Two trees in which a request's check finds the same: a setting of the mode looks at the
tenants' manifests, and a new tenant at the claim. -/
def TenancyRequest.Same (cluster : String) (t t' : Tree Doc) : TenancyRequest → Prop
  | .setClusterSettings _ _ =>
    filesIn t (tenantsDir cluster) "tenant.yaml" = filesIn t' (tenantsDir cluster) "tenant.yaml"
  | .create _ _ => t.get (claimPath cluster) = t'.get (claimPath cluster)

instance TenancyRequest.Same.decidable (cluster : String) (t t' : Tree Doc) :
    (r : TenancyRequest) → Decidable (r.Same cluster t t')
  | .setClusterSettings _ _ => inferInstanceAs (Decidable (_ = _))
  | .create _ _ => inferInstanceAs (Decidable (_ = _))

/-- The head does not move in what a call has checked: its pushes meet what its reads found. -/
def unmoved (cluster : String) (_ : ℕ) (k : TenancyCall) (o : Op Path Doc)
    (_ : Fate Path Doc) (_ : List TenancyCall) (w : World Path Doc) : Prop :=
  match o with
  | .push => k.request.Same cluster (tip w.remote) k.found
  | .on .read => k.request.Same cluster (w.clones k.proc).work k.found
  | _ => True

instance unmoved.decidable (cluster : String) (j : ℕ) (k : TenancyCall) (o : Op Path Doc)
    (f : Fate Path Doc) (calls : List TenancyCall) (w : World Path Doc) :
    Decidable (unmoved cluster j k o f calls w) := by
  refine Op.decidable (P := (unmoved cluster j k · f calls w)) ?_ (fun c => ?_) ?_ o <;>
    unfold unmoved
  · infer_instance
  · cases c <;> infer_instance
  · infer_instance

/-- `Tenants` answers with every tenant that is declared. -/
theorem tenantNames_eq {files : List (String × Doc)} {names : List String}
    (h : tenantNames files = .ok names) : names = files.filterMap fun f =>
      match f.2 with
      | .manifest m => if Api.validTenantName m.name then some m.name else none
      | _ => none := by
  induction files generalizing names with
  | nil => exact (Except.ok.inj h).symm
  | cons f files ih =>
    obtain ⟨dir, d⟩ := f
    cases d with
    | manifest m =>
      rw [tenantNames] at h
      cases hrest : tenantNames files with
      | error e =>
        rw [hrest] at h
        cases h
      | ok rest =>
        rw [hrest] at h
        cases h
        rw [filterMap_cons, ← ih hrest]
        dsimp only
        split_ifs <;> rfl
    | other => cases h
    | _ =>
      rw [tenantNames] at h
      · rw [filterMap_cons, ← ih h]
      all_goals nofun

theorem declaredNames_congr {t' : Tree Doc} (h : filesIn t (tenantsDir cluster) "tenant.yaml" =
    filesIn t' (tenantsDir cluster) "tenant.yaml") :
    declaredNames cluster t = declaredNames cluster t' := by
  rw [declaredNames, declaredNames, h]

/-- They are what the check reads. -/
theorem tenantsIn_eq {names : List String} (h : tenantsIn t cluster = .ok names) :
    names = declaredNames cluster t := tenantNames_eq h

/-- An edit of the claim keeps tenancy single. -/
theorem singleTenancy_set (hP : SingleTenancy cluster t)
    (hc : t.get (claimPath cluster) = some (.claim c))
    (hmode : c'.setting "tenancyMode" = c.setting "tenancyMode" ∨
      (Api.isSingle (c'.setting "tenancyMode") → others (declaredNames cluster t) = [])) :
    SingleTenancy cluster (t.set (claimPath cluster) (.claim c')) := by
  intro hsingle
  have hnames : ∀ n ∈ declaredNames cluster (t.set (claimPath cluster) (.claim c')),
      n ∈ declaredNames cluster t := by
    intro n hn
    obtain ⟨dir, m, hget, hvalid, rfl⟩ := mem_declaredNames.1 hn
    rw [FileTree.get_set, if_neg (by simp [tenantPath, claimPath])] at hget
    exact mem_declaredNames.2 ⟨dir, m, hget, hvalid, rfl⟩
  have hold : others (declaredNames cluster t) = [] := by
    rw [singleIn, FileTree.get_set, if_pos rfl] at hsingle
    rcases hmode with heq | hv
    · refine hP ?_
      rw [singleIn, hc]
      exact (congrArg Api.isSingle heq).symm.trans hsingle
    · exact hv hsingle
  exact others_eq_nil.2 fun n hn => others_eq_nil.1 hold n (hnames n hn)

/-- So does a new tenant that was allowed. -/
theorem singleTenancy_create {n : NewTenant} {m : Manifest} {warning : String}
    (hP : SingleTenancy cluster t) (hm : n.manifest = .ok m)
    (hallowed : refuseInSingleTenancy cluster n.name t = .ok ()) : SingleTenancy cluster
      ((newTenantDraft cluster n.name n.status (n.files m, warning)).tree t) := by
  intro hsingle
  have hclaim : singleIn cluster t := by
    rw [singleIn] at hsingle ⊢
    split at hsingle
    next c hget =>
      rcases get_newTenantDraft hget with ⟨file, hpath, -⟩ | hget
      · exact absurd hpath (by simp [tenantPath, claimPath])
      · rw [hget]
        exact hsingle
    · cases hsingle
  have hname : n.name = singleUserTenant := by
    rw [refuseInSingleTenancy] at hallowed
    rw [singleIn] at hclaim
    split at hclaim
    next c hget =>
      rw [hget] at hallowed
      by_contra hne
      simp [hclaim, hne] at hallowed
    · cases hclaim
  refine others_eq_nil.2 fun name hmem => ?_
  obtain ⟨dir, m', hget, hvalid, rfl⟩ := mem_declaredNames.1 hmem
  rcases get_newTenantDraft hget with ⟨file, hpath, hfile⟩ | hget
  · -- the only manifest among the new files is the new tenant's
    obtain ⟨-, rfl⟩ : n.name = dir ∧ file = "tenant.yaml" := by
      simpa [tenantPath] using hpath.symm
    rcases mem_cons.1 hfile with heq | hbeside
    · obtain rfl := Doc.manifest.inj (Prod.mk.inj heq).2
      exact .inr ((NewTenant.of_manifest hm).1.trans hname)
    · exact absurd (NewTenant.of_mem_beside hbeside) (by simp [importFile, tenantDomainFile])
  · exact others_eq_nil.1 (hP hclaim) _ (mem_declaredNames.2 ⟨dir, m', hget, hvalid, rfl⟩)

section specs

-- the rules for `SafeE` are enough here; unfolding it would run the programs
attribute [local irreducible] SafeE

/-- A part of a request that keeps tenancy single and leaves the lock free. -/
abbrev GovernFrees (x : Rules) (cluster : String) (j : ℕ) (k : TenancyCall) (y : Run Doc α)
    (w : World Path Doc) : Prop :=
  Frees (SingleTenancy cluster) TenancyCall.proc (fun k => (k.request.run x cluster).run)
    (unmoved cluster) j k y w

variable {j proc attempts : ℕ} {w : World Path Doc} {k : TenancyCall} {found : Tree Doc}

/-- **A setting that asks for single tenancy goes on only if the files it found declare no other
tenant.** -/
theorem refuseSingle_safe (hw : Free j w) :
    (newest _ (SingleTenancy cluster)).SafeE TenancyCall.proc
      (fun k => (k.request.run x cluster).run) (unmoved cluster) j
      ⟨proc, .setClusterSettings values attempts, found⟩
      (fun _ w => (asksSingle values → others (declaredNames cluster found) = []) ∧ Free j w)
      (fun _ => Free j) (refuseSingle cluster values) w := by
  rw [refuseSingle]
  cases asksSingle values with
  | false => exact .pure ⟨nofun, hw⟩
  | true =>
    refine .next (fun names _ h1 => ?_) (tenants_newest hw)
    obtain ⟨⟨t, ⟨calls, w1, hread, rfl⟩, hnames⟩, h1⟩ := h1
    obtain rfl : names = declaredNames cluster found :=
      (tenantsIn_eq hnames).trans (declaredNames_congr hread)
    cases hothers : (others (declaredNames cluster found)).isEmpty with
    | true => exact .pure ⟨fun _ => List.isEmpty_iff.1 hothers, h1⟩
    | false => exact .throw h1

/-- A change of settings keeps it. -/
theorem setClusterSettings_safe (hw : Free j w) :
    GovernFrees x cluster j ⟨proc, .setClusterSettings values attempts, found⟩
      (setClusterSettings x cluster values attempts) w := by
  rw [setClusterSettings]
  cases values.isEmpty with
  | true => exact .pure hw
  | false =>
    cases hcheck : checkSettings x values with
    | error e => exact .throw hw
    | ok _ =>
      refine .next (fun _ _ h1 => ?_) (refuseSingle_safe hw)
      obtain ⟨hnone, h1⟩ := h1
      refine applyClaim_newest (fun h content _ _ hget hfn => ?_) h1
      intro _ _ f hrem hP hc
      subst hrem
      cases content with
      | claim c =>
        obtain ⟨c', rfl, hmode⟩ := mode_settingsEdit hcheck hfn
        refine singleTenancy_set hP hget (hmode.imp id fun hasks hs => ?_)
        -- the tenants at the head are those that the check found
        rw [declaredNames_congr hc]
        exact hnone (hasks hs)
      | _ => cases hfn

/-- A creation keeps it. -/
theorem create_safe {n : NewTenant} {checkDomain : Tree Doc → Except Err Unit} (hw : Free j w) :
    GovernFrees x cluster j ⟨proc, .create n checkDomain, found⟩ (n.run x cluster checkDomain)
      w := by
  refine NewTenant.run_newest (fun t h m _ _ hlooked hrefuse hacc => ?_) hw
  intro _ _ f hrem hP hc
  subst hrem
  refine singleTenancy_create hP hacc.manifest ?_
  -- the claim at the head is the one that the check found
  obtain ⟨calls, w1, hread, rfl⟩ := hlooked
  have hsame : (tip _).get _ = found.get _ := hc
  have hfound : FileTree.get (w1.clones proc).work (claimPath cluster) = found.get _ := hread
  rw [refuseInSingleTenancy, hsame, ← hfound]
  exact hrefuse

/-- Every call keeps it. -/
theorem tenancyCall_safe (x : Rules) (cluster : String) (j : ℕ) (k : TenancyCall)
    (w : World Path Doc) (hw : Free j w) : Safe (governing x cluster)
      ((newest _ (SingleTenancy cluster)).spec TenancyCall.proc (unmoved cluster)) j k
      (fun _ => Free j) (k.request.run x cluster).run w := by
  obtain ⟨proc, r, found⟩ := k
  cases r with
  | setClusterSettings _ _ =>
    exact (setClusterSettings_safe hw).safe (fun _ _ => id) fun _ _ => id
  | create n _ =>
    exact (create_safe hw).safe (fun _ _ => id) fun _ _ => id

end specs

/-- A cluster of many tenants. -/
def manyTenants : World Path Doc :=
  .start [⟨FileTree.empty.set (claimPath "one")
    (.claim ⟨"", [("tenancyMode", "multi")], []⟩), none⟩]

/-- Tenancy is turned to single. -/
def turnSingle : TenancyCall :=
  ⟨0, .setClusterSettings [("tenancyMode", "single")] 1, tip manyTenants.remote⟩

/-- A tenant is created, in a cluster whose claim has this mode. -/
def createNamed (name mode : String) : TenancyCall :=
  ⟨1, .create (.form name false [] false) fun _ => .ok (),
    FileTree.empty.set (claimPath "one") (.claim ⟨"", [("tenancyMode", mode)], []⟩)⟩

/-- The tenants are read for the setting, the other process creates one, and the
setting goes on. -/
def createdBetween : List (Move TenancyCall (Fate Path Doc) ℕ) :=
  .begin turnSingle :: .begin (createNamed "acme" "multi") :: replicate 8 (.run 0 .done) ++
    replicate 25 (.run 1 .done) ++ replicate 15 (.run 0 .done)

/-- A tenant is created once tenancy is single. -/
def createdAfter : List (Move TenancyCall (Fate Path Doc) ℕ) :=
  .begin turnSingle :: .begin (createNamed "user" "single") :: replicate 23 (.run 0 .done) ++
    replicate 25 (.run 1 .done)

end Gentian.Gitops
