/-
# The admission of tenants

`TenantValidator.Handle` of `internal/webhook/tenant_validator.go`, with
`tenancy.EnforceSingle` and `placement.Installed`.  A tenant that is created has a valid
name, is held back until the handover is proven, has names that are no other tenant's
(`backup.NamesTaken`) and passes `Validate`; one that is updated passes `Validate` only, so an
update can state the names of another tenant (`update_takes_names`).
-/

import Gentian.Backup.Inventory
import Gentian.Base.Runs

namespace Gentian.Webhook

open GoStrings GoErrors Backup List

/-! ### The checks -/

/-- `TenantValidator`, without its clients. -/
structure TenantValidator where
  tenancyMode : String
  kernelDomain : String
  gateOnHandover : Bool
  kernelRealm : String
  handoverNamespace : String

/-- What the cluster answers a request besides its tenants: for a profile an error,
that there is none, or whether the operator places it (`ByOperator`); whether the write
path is proven; and whether the tenants can be listed. -/
structure Answers where
  profile : String → Except Unit (Option Bool)
  writePathProven : Except Unit Bool
  tenantsListed : Bool

/-- Why a request is denied. -/
inductive Denial where
  | invalidName (tenant : String)
  | handover (tenant : String)
  | tenantsNotListed (tenant : String)
  | namesTaken (e : NamesTakenError)
  | appsNotRead (tenant : String)
  | tooManyApps (tenant : String) (count maxApps : ℤ)
  | duplicateApp (tenant profile : String)
  | profileNotFound (tenant profile : String)
  | profileNotRead (tenant profile : String)
  | singleTenancy (tenant : String)
deriving DecidableEq

/-- Whether a tenant signs in with the kernel's realm. -/
def TenantValidator.adoptsKernelRealm (v : TenantValidator) (t : Tenant) : Bool :=
  v.kernelRealm ≠ "" && t.isolation.any fun iso => iso.keycloakRealm = v.kernelRealm

/-- `validateHandover`. -/
def TenantValidator.validateHandover (v : TenantValidator) (a : Answers) (t : Tenant) :
    Except Denial Unit :=
  if !v.gateOnHandover || v.handoverNamespace = "" then .ok ()
  else if t.handoverOverride ≠ "" then .ok ()
  else match a.writePathProven with
    | .error _ | .ok true => .ok ()
    | .ok false => .error (.handover t.name)

/-- `validateNames`: no name is another tenant's. -/
def validateNames (a : Answers) (tenants : List Tenant) (t : Tenant) : Except Denial Unit :=
  if !a.tenantsListed then .error (.tenantsNotListed t.name)
  else match namesTaken t tenants with
    | .error e => .error (.namesTaken e)
    | .ok () => .ok ()

/-- The apps that somebody asked for. -/
def installed (a : Answers) : List TenantApp → Except Unit (List TenantApp)
  | [] => .ok []
  | app :: apps =>
    if !app.placed then (installed a apps).map (app :: ·)
    else match a.profile (if app.profile = "" then app.profileRef else app.profile) with
      | .error e => .error e
      | .ok none | .ok (some false) => (installed a apps).map (app :: ·)
      | .ok (some true) => installed a apps

/-- The loop of `Validate` over the apps, where the ones before have these profiles. -/
def validateApps (a : Answers) (tenant : String) : List String → List TenantApp →
    Except Denial Unit
  | _, [] => .ok ()
  | seen, app :: apps =>
    if seen.contains app.profile then .error (.duplicateApp tenant app.profile)
    else match a.profile app.profile with
      | .error _ => .error (.profileNotRead tenant app.profile)
      | .ok none => .error (.profileNotFound tenant app.profile)
      | .ok (some _) => validateApps a tenant (app.profile :: seen) apps

/-- `tenancy.IsPlatformTenant`. -/
def isPlatformTenant (kernelRealm : String) (t : Tenant) : Bool :=
  t.isolation.any fun iso => iso.keycloakRealm = statedOr kernelRealm "kernel"

/-- Where tenancy is single, only the one user's tenant may be there. -/
def enforceSingle (mode kernelRealm : String) (t : Tenant) : Except Denial Unit :=
  if !Api.isSingle mode || isPlatformTenant kernelRealm t || t.name = "user" then .ok ()
  else .error (.singleTenancy t.name)

/-- The quota that `Validate` asks about first. -/
def validateQuota (a : Answers) (t : Tenant) : Except Denial Unit :=
  if t.maxApps ≤ 0 then .ok ()
  else match installed a t.apps with
    | .error _ => .error (.appsNotRead t.name)
    | .ok apps =>
      if t.maxApps < apps.length then .error (.tooManyApps t.name apps.length t.maxApps)
      else .ok ()

/-- All checks, one after the other. -/
def TenantValidator.validate (v : TenantValidator) (a : Answers) (t : Tenant) :
    Except Denial Unit := do
  validateQuota a t
  validateApps a t.name [] t.apps
  enforceSingle v.tenancyMode v.kernelRealm t

/-- What a request does. -/
inductive Operation where
  | create
  | update
deriving DecidableEq

/-- What `Handle` asks of a tenant before `Validate`, by what is asked of the cluster:
nothing of one that exists. -/
def TenantValidator.validateOperation (v : TenantValidator) (a : Answers) (tenants : List Tenant)
    (t : Tenant) : Operation → Except Denial Unit
  | .update => .ok ()
  | .create =>
    if !Api.validTenantName t.name then .error (.invalidName t.name)
    else if v.adoptsKernelRealm t then validateNames a tenants t
    else do
      v.validateHandover a t
      validateNames a tenants t

/-- `Handle`, of a request that decodes. -/
def TenantValidator.handle (v : TenantValidator) (a : Answers) (tenants : List Tenant)
    (o : Operation) (t : Tenant) : Except Denial Unit := do
  v.validateOperation a tenants t o
  v.validate a t

/-! ### The cluster -/

/-- The tenants of a cluster, no two of one name. -/
structure Cluster where
  tenants : List Tenant
  named : (tenants.map Tenant.name).Nodup

/-- No tenants. -/
def Cluster.empty : Cluster := ⟨[], nodup_nil⟩

/-- The tenants with one of them replaced by one of its name. -/
def replaced (t : Tenant) (tenants : List Tenant) : List Tenant :=
  tenants.map fun u => if u.name = t.name then t else u

theorem map_name_replaced (t : Tenant) (tenants : List Tenant) :
    (replaced t tenants).map Tenant.name = tenants.map Tenant.name := by
  rw [replaced, map_map]
  refine map_congr_left fun u _ => ?_
  by_cases h : u.name = t.name <;> simp [h]

/-- An admitted object is stored: a new one when there is none of its name, and one that
is there in place of the object it updates. -/
def Cluster.store (c : Cluster) (o : Operation) (t : Tenant) : Cluster :=
  match o with
  | .create =>
    if h : t.name ∈ c.tenants.map Tenant.name then c
    else ⟨c.tenants ++ [t], by
      rw [map_append, map_singleton, ← concat_eq_append]
      exact List.Nodup.concat h c.named⟩
  | .update => ⟨replaced t c.tenants, by rw [map_name_replaced]; exact c.named⟩

/-- A request, with what the cluster answers while it is checked. -/
structure Request where
  operation : Operation
  object : Tenant
  answers : Answers

/-- One request: it is handled, and stored when it is admitted. -/
def step (v : TenantValidator) (c : Cluster) (r : Request) : Option Cluster :=
  match v.handle r.answers c.tenants r.operation r.object with
  | .ok () => some (c.store r.operation r.object)
  | .error _ => some c

/-- **The isolation names are unique.** -/
def NamesUnique (c : Cluster) : Prop := c.tenants.Pairwise NamesApart
deriving Decidable

/-- An update that keeps the names of the tenant it updates, or whose names are free. -/
def keepsNames (c : Cluster) (r : Request) : Prop :=
  match r.operation with
  | .create => True
  | .update => (∀ u ∈ c.tenants, u.name = r.object.name → namesOf u = namesOf r.object) ∨
      namesTaken r.object c.tenants = .ok ()

instance keepsNames.decidable (c : Cluster) (r : Request) : Decidable (keepsNames c r) :=
  match r with
  | ⟨.create, _, _⟩ => inferInstanceAs (Decidable True)
  | ⟨.update, _, _⟩ => inferInstanceAs (Decidable (_ ∨ _))

variable {v : TenantValidator} {a : Answers} {tenants : List Tenant} {t u : Tenant} {c c' : Cluster}
  {r : Request}

theorem namesTaken_of_validateNames (h : validateNames a tenants t = .ok ()) :
    namesTaken t tenants = .ok () := by
  rw [validateNames] at h
  split_ifs at h
  split at h
  · cases h
  · assumption

/-- A tenant that is created has names of its own. -/
theorem namesTaken_of_create (h : v.handle a tenants .create t = .ok ()) :
    namesTaken t tenants = .ok () := by
  obtain ⟨_, hcreate, -⟩ := bind_eq_ok.1 h
  rw [TenantValidator.validateOperation] at hcreate
  split_ifs at hcreate
  · exact namesTaken_of_validateNames hcreate
  · obtain ⟨_, -, hnames⟩ := bind_eq_ok.1 hcreate
    exact namesTaken_of_validateNames hnames

variable {R : Tenant → Tenant → Prop}

/-- One tenant more. -/
theorem pairwise_concat [Std.Symm R] (hP : tenants.Pairwise R)
    (hfree : ∀ u ∈ tenants, R t u) : (tenants ++ [t]).Pairwise R := by
  rw [pairwise_append]
  refine ⟨hP, pairwise_singleton _ _, fun u hu _ ht' => ?_⟩
  rw [mem_singleton.1 ht']
  exact symm_of R (hfree u hu)

/-- One tenant changed. -/
theorem pairwise_replaced [Std.Symm R] (hnamed : (tenants.map Tenant.name).Nodup)
    (hP : tenants.Pairwise R) (hfree : ∀ u ∈ tenants, u.name ≠ t.name → R t u) :
    (replaced t tenants).Pairwise R := by
  rw [replaced, pairwise_map]
  have hboth := (pairwise_map.1 hnamed).and hP
  refine hboth.imp_of_mem fun {u u'} hu hu' h => ?_
  obtain ⟨hname, hapart⟩ := h
  by_cases heq : u.name = t.name
  · have hne : u'.name ≠ t.name := fun h => hname (heq.trans h.symm)
    rw [if_pos heq, if_neg hne]
    exact hfree u' hu' hne
  · split_ifs
    · exact symm_of R (hfree u hu heq)
    · exact hapart

/-- A change keeps names apart. -/
theorem apart_of_keepsNames (hP : NamesUnique c) (h : keepsNames c ⟨.update, t, a⟩)
    (hold : t.name ∈ c.tenants.map Tenant.name) :
    ∀ u ∈ c.tenants, u.name ≠ t.name → NamesApart t u := by
  intro u hu hne
  rcases h with hkept | hfree
  · obtain ⟨old, hmem, hname⟩ := mem_map.1 hold
    have hapart : NamesApart old u := by
      refine List.Pairwise.forall hP hmem hu ?_
      rintro rfl
      exact hne hname
    rw [NamesApart, hkept old hmem hname] at hapart
    exact hapart
  · exact namesApart_of_ok hfree hu hne

/-- **One request keeps the names unique.** -/
theorem namesUnique_step (hP : NamesUnique c) (hk : keepsNames c r) (h : step v c r = some c') :
    NamesUnique c' := by
  rw [step] at h
  split at h
  next hok =>
    cases h
    obtain ⟨o, t, a⟩ := r
    cases o with
    | create =>
      rw [Cluster.store]
      split_ifs with hold
      · exact hP
      · refine pairwise_concat hP fun u hu => ?_
        exact namesApart_of_ok (namesTaken_of_create hok) hu fun heq =>
          hold (heq ▸ mem_map_of_mem hu)
    | update =>
      by_cases hold : t.name ∈ c.tenants.map Tenant.name
      · exact pairwise_replaced c.named hP (apart_of_keepsNames hP hk hold)
      · have hsame : replaced t c.tenants = c.tenants := by
          refine (map_congr_left fun u hu => if_neg fun heq => hold ?_).trans (map_id _)
          exact heq ▸ mem_map_of_mem hu
        change (replaced t c.tenants).Pairwise NamesApart
        rw [hsame]
        exact hP
  · cases h
    exact hP

/-- **The isolation names stay unique** in every state that is reached from a cluster
with no tenants, as long as an update keeps the tenant's names or states free ones. -/
theorem names_unique {rs : List Request} (hm : Runs.Meets (step v) keepsNames .empty rs)
    (hr : Runs.run (step v) .empty rs = some c) : NamesUnique c :=
  have h0 : NamesUnique .empty := List.Pairwise.nil
  Runs.invariant (fun _ _ _ hP hk h => namesUnique_step hP hk h) h0 hm hr

/-- The validator of a cluster of many tenants. -/
def manyTenantsValidator : TenantValidator := ⟨"multi", "example.org", false, "kernel", ""⟩

/-- A cluster that has every profile and answers every question. -/
def allAnswers : Answers := ⟨fun _ => .ok (some false), .ok true, true⟩

/-- A request for a tenant. -/
def requestFor (o : Operation) (name : String) (iso : Option Isolation) : Request :=
  ⟨o, { plainTenant name with isolation := iso }, allAnswers⟩

/-- **An update takes the names of another tenant.**  Two tenants are created, and one of
them is then updated to state the realm and the prefixes of the other. -/
theorem update_takes_names : ∃ v rs c, Runs.run (step v) .empty rs = some c ∧ ¬NamesUnique c := by
  have hr : Runs.run (step manyTenantsValidator) .empty
      [requestFor .create "acme" none, requestFor .create "demo" none,
        requestFor .update "demo" (some ⟨"", "acme", "acme_", "acme-"⟩)] = some _ :=
    (Option.some_get (by decide)).symm
  exact ⟨manyTenantsValidator, _, _, hr, by decide⟩

/-- One update keeps the names, and another one states names that are free. -/
theorem updated_names_unique : ∃ c, Runs.run (step manyTenantsValidator) .empty
      [requestFor .create "acme" none, requestFor .create "demo" none,
        requestFor .update "demo" (some ⟨"", "demo", "demo_", ""⟩),
        requestFor .update "acme" (some ⟨"", "other", "other_", "other-"⟩)] = some c ∧
    NamesUnique c ∧ c.tenants.map namesOf =
      [⟨"other", "other_", "other-"⟩, ⟨"demo", "demo_", "demo-"⟩] := by
  have hr : Runs.run (step manyTenantsValidator) .empty
      [requestFor .create "acme" none, requestFor .create "demo" none,
        requestFor .update "demo" (some ⟨"", "demo", "demo_", ""⟩),
        requestFor .update "acme" (some ⟨"", "other", "other_", "other-"⟩)] = some _ :=
    (Option.some_get (by decide)).symm
  exact ⟨_, hr, names_unique (by decide) hr, by decide⟩

/-! ### Namespaces

`Tenant.NamespaceName` and `TenantInNamespace` of `api/v1alpha1/tenancy.go` and `TenantDMZ` of
`internal/layout/layout.go`.  The admission compares no namespaces, so the namespace of one tenant
can be the perimeter namespace of another, or one that another states (`namespaces_shared`). -/

open Option Runs

/-- The namespace of a tenant's perimeter. -/
def tenantDMZ (name : String) : String := "tenant-" ++ name ++ "-dmz"

/-- The tenant of a namespace. -/
def tenantInNamespace (tenants : List Tenant) (ns : String) : Option Tenant :=
  tenants.find? fun t => t.namespaceName = ns

/-- **A namespace is one tenant's**, as its own or as its perimeter. -/
def NamespacesDistinct (c : Cluster) : Prop :=
  (c.tenants.flatMap fun t => [t.namespaceName, tenantDMZ t.name]).Nodup

instance NamespacesDistinct.decidable (c : Cluster) : Decidable (NamespacesDistinct c) :=
  inferInstanceAs (Decidable (List.Nodup _))

/-- The tenant's name does not end as a perimeter's does, and its namespace is the one of its
name or does not begin as such a one does. -/
def ownNamespace (t : Tenant) : Prop :=
  hasSuffix t.name "-dmz" = false ∧
    (t.namespaceName = "tenant-" ++ t.name ∨ hasPrefix t.namespaceName "tenant-" = false)

/-- A request for a tenant with a namespace of its own, which no other tenant states. -/
def keepsNamespaces (c : Cluster) (r : Request) : Prop :=
  ownNamespace r.object ∧ (hasPrefix r.object.namespaceName "tenant-" = false →
    ∀ u ∈ c.tenants, u.name ≠ r.object.name → u.namespaceName ≠ r.object.namespaceName)

instance keepsNamespaces.decidable (c : Cluster) (r : Request) : Decidable (keepsNamespaces c r) :=
  inferInstanceAs (Decidable ((_ ∧ _) ∧ _))

/-- Two tenants in different namespaces. -/
def NamespaceApart (t u : Tenant) : Prop := t.namespaceName ≠ u.namespaceName

instance NamespaceApart.isSymm : Std.Symm NamespaceApart := ⟨fun _ _ => Ne.symm⟩

/-- What the requests keep. -/
structure NamespacesOwn (c : Cluster) : Prop where
  own : ∀ t ∈ c.tenants, ownNamespace t
  apart : c.tenants.Pairwise NamespaceApart

variable {r : Request}

/-- No tenant is in another's perimeter. -/
theorem namespaceName_ne_tenantDMZ (h : ownNamespace t) (name : String) :
    t.namespaceName ≠ tenantDMZ name := by
  intro heq
  rcases h.2 with hown | hother
  · rw [heq, tenantDMZ, String.append_assoc, String.append_right_inj] at hown
    exact absurd (hown ▸ hasSuffix_append name "-dmz") (by simp [h.1])
  · rw [heq, tenantDMZ, String.append_assoc, hasPrefix_append] at hother
    cases hother

theorem tenantDMZ_inj {a b : String} (h : tenantDMZ a = tenantDMZ b) : a = b := by
  simpa [tenantDMZ] using h

theorem namespaceApart_of_keeps (hk : keepsNamespaces c r) (hu : u ∈ c.tenants)
    (hown : ownNamespace u) (hne : u.name ≠ r.object.name) : NamespaceApart r.object u := by
  intro heq
  rcases hk.1.2 with hr | hr
  · rcases hown.2 with hu' | hu'
    · rw [hr, hu', String.append_right_inj] at heq
      exact hne heq.symm
    · rw [← heq, hr, hasPrefix_append] at hu'
      cases hu'
  · exact hk.2 hr u hu hne heq.symm

/-- **One request keeps the namespaces apart.** -/
theorem namespacesOwn_step (hI : NamespacesOwn c) (hk : keepsNamespaces c r)
    (h : step v c r = some c') : NamespacesOwn c' := by
  have hfree : ∀ u ∈ c.tenants, u.name ≠ r.object.name → NamespaceApart r.object u :=
    fun u hu hne => namespaceApart_of_keeps hk hu (hI.own u hu) hne
  rw [step] at h
  split at h
  · cases h
    obtain ⟨o, t, a⟩ := r
    cases o with
    | create =>
      rw [Cluster.store]
      split_ifs with hold
      · exact hI
      · refine ⟨fun u hu => ?_, pairwise_concat hI.apart fun u hu => hfree u hu fun heq => ?_⟩
        · rcases mem_append.1 hu with hu | hu
          · exact hI.own u hu
          · exact mem_singleton.1 hu ▸ hk.1
        · exact hold (heq ▸ mem_map_of_mem hu)
    | update =>
      refine ⟨fun u hu => ?_, pairwise_replaced c.named hI.apart hfree⟩
      obtain ⟨old, hold, rfl⟩ := mem_map.1 hu
      split_ifs
      · exact hk.1
      · exact hI.own old hold
  · cases h
    exact hI

theorem NamespacesOwn.distinct (h : NamespacesOwn c) : NamespacesDistinct c := by
  refine nodup_flatMap.2 ⟨fun t ht => ?_, ?_⟩
  · simpa using namespaceName_ne_tenantDMZ (h.own t ht) t.name
  · have hboth := (pairwise_map.1 c.named).and h.apart
    refine hboth.imp_of_mem fun {t u} ht hu hne ns hnt hnu => ?_
    simp only [mem_cons, not_mem_nil, or_false] at hnt hnu
    rcases hnt with rfl | rfl <;> rcases hnu with heq | heq
    · exact hne.2 heq
    · exact namespaceName_ne_tenantDMZ (h.own t ht) u.name heq
    · exact namespaceName_ne_tenantDMZ (h.own u hu) t.name heq.symm
    · exact hne.1 (tenantDMZ_inj heq)

/-- A namespace names its tenant. -/
theorem NamespacesOwn.tenantInNamespace_eq (h : NamespacesOwn c) (ht : t ∈ c.tenants) :
    tenantInNamespace c.tenants t.namespaceName = some t := by
  have hsome : (tenantInNamespace c.tenants t.namespaceName).isSome :=
    find?_isSome.2 ⟨t, ht, by simp⟩
  obtain ⟨u, hu⟩ := isSome_iff_exists.1 hsome
  have hns : u.namespaceName = t.namespaceName := by simpa using find?_some hu
  have heq : u = t := by
    by_contra hne
    exact List.Pairwise.forall h.apart (mem_of_find?_eq_some hu) ht hne hns
  exact heq ▸ hu

/-- **A namespace is one tenant's** in every state that is reached from a cluster with no
tenants, as long as no tenant is named like a perimeter and a stated namespace is neither
another tenant's nor named like a tenant's. -/
theorem namespaces_distinct {rs : List Request} (hm : Runs.Meets (step v) keepsNamespaces .empty rs)
    (hr : Runs.run (step v) .empty rs = some c) : NamespacesDistinct c ∧
      ∀ t ∈ c.tenants, tenantInNamespace c.tenants t.namespaceName = some t := by
  have h0 : NamespacesOwn .empty := ⟨fun t ht => (not_mem_nil ht).elim, List.Pairwise.nil⟩
  have hI : NamespacesOwn c :=
    invariant (fun _ _ _ hI hk h => namespacesOwn_step hI hk h) h0 hm hr
  exact ⟨hI.distinct, fun t ht => hI.tenantInNamespace_eq ht⟩

theorem namespaces_distinct_stated : ∃ c, Runs.run (step manyTenantsValidator) .empty
      [requestFor .create "acme" none, requestFor .create "acme-2" none,
        requestFor .update "acme" (some ⟨"shop", "", "", ""⟩)] = some c ∧
    NamespacesDistinct c ∧ c.tenants.map Tenant.namespaceName = ["shop", "tenant-acme-2"] := by
  have hr : run (step manyTenantsValidator) .empty
      [requestFor .create "acme" none, requestFor .create "acme-2" none,
        requestFor .update "acme" (some ⟨"shop", "", "", ""⟩)] = some _ :=
    (some_get (by decide)).symm
  exact ⟨_, hr, (namespaces_distinct (by decide) hr).1, by decide⟩

/-- **Two tenants share a namespace.**  The namespace of `acme-dmz` is the perimeter of `acme`,
and an update moves `demo` into the namespace of `acme`. -/
theorem namespaces_shared : (∃ v c, Runs.run (step v) .empty
        [requestFor .create "acme" none, requestFor .create "acme-dmz" none] = some c ∧
      ¬NamespacesDistinct c) ∧
    ∃ v c, Runs.run (step v) .empty [requestFor .create "acme" none, requestFor .create "demo" none,
          requestFor .update "demo" (some ⟨"tenant-acme", "", "", ""⟩)] = some c ∧
      ¬NamespacesDistinct c ∧
      ∃ t ∈ c.tenants, tenantInNamespace c.tenants t.namespaceName ≠ some t := by
  have h1 : run (step manyTenantsValidator) .empty
      [requestFor .create "acme" none, requestFor .create "acme-dmz" none] = some _ :=
    (some_get (by decide)).symm
  have h2 : run (step manyTenantsValidator) .empty
      [requestFor .create "acme" none, requestFor .create "demo" none,
        requestFor .update "demo" (some ⟨"tenant-acme", "", "", ""⟩)] = some _ :=
    (some_get (by decide)).symm
  exact ⟨⟨_, _, h1, by decide⟩, _, _, h2, by decide, by decide⟩

end Gentian.Webhook
