/-
# Tenants that are created

The reads of `internal/director/gitops` that a new tenant is decided by: `Tenants` (`read.go`),
`refuseInSingleTenancy` (`tenants.go`), and the checks and files of `createTenant` for a tenant
that is asked for with a form (`CreateTenant`) or comes from a bundle (`DeclareTenant`,
`tenants_import.go`).
-/

import Gentian.Gitops.Newest
import Gentian.Gitops.Perimeter

namespace Gentian.Gitops

open Threads Git GoStrings GoErrors List

/-- What the director is given besides the repository: the rules of a platform, whether a key of
a text is written so that the line editor can change it, what the values of a setting look like
(`ClusterSetting.Each` and `Match`), and `backup.NamesTaken`. -/
structure Rules extends Platform where
  settingPlace : Claim → String → Bool
  settingShape : String → String → Bool
  namesTaken : Manifest → List (String × Manifest) → Bool

/-- Rules under which every text can be edited and nothing is taken. -/
def anyRules : Rules where
  kept _ := false
  timestamp _ := true
  expired _ := false
  scalar := some
  settingPlace _ _ := true
  settingShape _ _ := true
  namesTaken _ _ := false

/-! ### The tenants of a tree -/

variable {t : Tree Doc} {dir : Path} {file cluster : String}

theorem mem_filesIn {name : String} {d : Doc} :
    (name, d) ∈ filesIn t dir file ↔ t.get (dir ++ [name, file]) = some d := by
  rw [FileTree.get_eq_some, filesIn, mem_filterMap]
  constructor
  · rintro ⟨⟨p, d'⟩, hmem, hp⟩
    split_ifs at hp with hdir
    split at hp
    next _ _ hdrop =>
      split_ifs at hp with hbase
      cases hp
      obtain ⟨rest, rfl⟩ := isPrefixOf_iff_prefix.1 hdir
      rw [drop_left] at hdrop
      rwa [hdrop, hbase] at hmem
    · cases hp
  · intro hmem
    refine ⟨_, hmem, ?_⟩
    simp

/-- The names of a list of manifests, or an error when one of them does not
parse. -/
def tenantNames : List (String × Doc) → Except Err (List String)
  | [] => .ok []
  | (_, .other _) :: _ => .error (.said "the manifest does not parse")
  | (_, .manifest m) :: rest =>
    (tenantNames rest).map fun names =>
      if Api.validTenantName m.name then m.name :: names else names
  | _ :: rest => tenantNames rest

/-- `Tenants` on the tree it reads. -/
def tenantsIn (t : Tree Doc) (cluster : String) : Except Err (List String) :=
  tenantNames (filesIn t (tenantsDir cluster) "tenant.yaml")

/-- The files, for a read. -/
def readRepo : Run Doc (Tree Doc) := locked do
  ensureRepoRead
  readTree

/-- `Tenants`. -/
def tenants (cluster : String) : Run Doc (List String) := do
  let t ← readRepo
  match tenantsIn t cluster with
  | .error e => throw e
  | .ok names => pure names

/-! ### Tenants that are created -/

/-- `SingleUserTenantName`. -/
def singleUserTenant : String := "user"

/-- `refuseInSingleTenancy` on the tree it reads. -/
def refuseInSingleTenancy (cluster name : String) (t : Tree Doc) : Except Err Unit :=
  match t.get (claimPath cluster) with
  | some (.claim c) =>
    if Api.isSingle (c.setting "tenancyMode") && name ≠ singleUserTenant then
      .error (.said "this is a single-tenancy cluster")
    else .ok ()
  | some (.other _) => .error (.said "parse cluster claim")
  | _ => .ok ()

/-- A tenant that is asked for: with a form, or from a bundle with its apps, the
domain it keeps and the record of the import. -/
inductive NewTenant where
  | form (name : String) (delegated : Bool) (placed : List String) (reuseName : Bool)
  | bundle (name : String) (apps : List App) (domain : Option Doc) (record : Doc)
      (reuseName : Bool)

/-- The name of a new tenant. -/
def NewTenant.name : NewTenant → String
  | .form name _ _ _ | .bundle name _ _ _ _ => name

/-- Whether reusing the name of a retired tenant is approved. -/
def NewTenant.reuseName : NewTenant → Bool
  | .form _ _ _ reuse | .bundle _ _ _ _ reuse => reuse

/-- The status of its creation. -/
def NewTenant.status : NewTenant → String
  | .form _ _ _ _ => "created"
  | .bundle _ _ _ _ _ => "imported"

/-- The entries with one more component placed among them. -/
def placeApp (apps : List App) (profile : String) : Except Err (List App) :=
  if !validName profile then .error (.invalidName "placed profile" profile)
  else ((AppEdit.place profile "" "" false ⟨"", ""⟩).onApps false apps).map Prod.fst

/-- The manifest that is written for it. -/
def NewTenant.manifest : NewTenant → Except Err Manifest
  | .form name delegated placed _ =>
    (placed.foldlM placeApp []).map fun apps => ⟨name, name, ⟨delegated, []⟩, apps⟩
  | .bundle name apps _ _ _ => .ok ⟨name, name, ⟨false, []⟩, apps⟩

/-- `TenantDomainFile` and `ImportFile`. -/
def tenantDomainFile : String := "domain.yaml"

/-- The record of an import. -/
@[inherit_doc tenantDomainFile]
def importFile : String := "import.json"

/-- The files beside the manifest. -/
def NewTenant.beside : NewTenant → List (String × Doc)
  | .form _ _ _ _ => [("kustomization.yaml", .kustomization ["tenant.yaml"] [])]
  | .bundle _ _ none record _ =>
    [("kustomization.yaml", .kustomization ["tenant.yaml"] []), (importFile, record)]
  | .bundle _ _ (some domain) record _ =>
    [("kustomization.yaml", .kustomization ["tenant.yaml", tenantDomainFile] []),
      (importFile, record), (tenantDomainFile, domain)]

/-- All files of a new tenant. -/
def NewTenant.files (n : NewTenant) (m : Manifest) : List (String × Doc) :=
  ("tenant.yaml", .manifest m) :: n.beside

/-- The manifests in the directories of a tenants directory, or an error when one of
them does not parse: `declaredTenants`. -/
def declaredTenants : List (String × Doc) → Except Err (List (String × Manifest))
  | [] => .ok []
  | (_, .other _) :: _ => .error (.said "the manifest does not parse")
  | (name, .manifest m) :: rest => (declaredTenants rest).map fun ms => (name, m) :: ms
  | _ :: rest => declaredTenants rest

/-- The checks of `createTenant` on the checkout it has synced, and the files it
writes, with the warning of a reused name. -/
def NewTenant.plan (x : Rules) (cluster : String) (n : NewTenant) (t : Tree Doc)
    (log : List (Commit Path Doc)) : Except Err (List (String × Doc) × String) :=
  let dir := tenantsDir cluster
  let usedBefore := log.any fun c => c.tree.entries.any fun e => under (dir ++ [n.name]) e.1
  if (t.get (tenantPath cluster n.name "tenant.yaml")).isSome then
    .error (.said "tenant already exists")
  else if usedBefore && !n.reuseName then .error (.said "a tenant of this name existed before")
  else do
    let m ← n.manifest
    let others ← declaredTenants (filesIn t dir "tenant.yaml")
    if x.namesTaken m others then throw (.said "a name this tenant would use is another tenant's")
    else do
      let held ← aliasesHeld t dir
      if held.any fun a => a.1 = n.name then throw (.said "the name is an alias")
      else pure (n.files m,
        if usedBefore then "the tenant reuses the name of a retired one" else "")

/-- `CheckImportedDomain` reads the repository before a bundle with a domain of its
own is declared; what it asks of it is a parameter. -/
def NewTenant.domainCheck (check : Tree Doc → Except Err Unit) : NewTenant → Run Doc Unit
  | .bundle _ _ (some _) _ _ => do
    let t ← readRepo
    match check t with
    | .error e => throw e
    | .ok () => pure ()
  | _ => pure ()

/-- `CreateTenant` and `DeclareTenant`. -/
def NewTenant.run (x : Rules) (cluster : String) (checkDomain : Tree Doc → Except Err Unit)
    (n : NewTenant) : Run Doc Result := do
  n.domainCheck checkDomain
  createTenant cluster n.name n.status (refuseInSingleTenancy cluster n.name) (n.plan x cluster)

/-! ### What a new tenant brings -/

/-- What the checks of `createTenant` have found out when they pass. -/
structure NewTenant.Accepted (cluster : String) (n : NewTenant) (t : Tree Doc) (m : Manifest)
    (held : List (String × String × String)) : Prop where
  manifest : n.manifest = .ok m
  aliases : aliasesHeld t (tenantsDir cluster) = .ok held
  name : ∀ a ∈ held, a.1 ≠ n.name

variable {n : NewTenant}

/-- What a plan has checked. -/
theorem NewTenant.accepted_of_plan {x : Rules} {log : List (Commit Path Doc)}
    {fs : List (String × Doc) × String} (h : n.plan x cluster t log = .ok fs) :
    ∃ m held, n.Accepted cluster t m held ∧ fs.1 = n.files m := by
  rw [NewTenant.plan] at h
  split at h
  · cases h
  split at h
  · cases h
  obtain ⟨m, hm, h⟩ := bind_eq_ok.1 h
  obtain ⟨others, -, h⟩ := bind_eq_ok.1 h
  split at h
  · cases h
  obtain ⟨held, hheld, h⟩ := bind_eq_ok.1 h
  split at h
  · cases h
  rename_i hname
  cases h
  refine ⟨m, held, ⟨hm, hheld, fun a ha heq => hname ?_⟩, rfl⟩
  exact any_eq_true.2 ⟨a, ha, by simpa using heq⟩

/-- The manifest of a new tenant has its name and no sources. -/
theorem NewTenant.of_manifest {m : Manifest} (h : n.manifest = .ok m) :
    m.name = n.name ∧ m.catalogue.sources = [] := by
  cases n with
  | form name _ _ reuse =>
    obtain ⟨apps, -, rfl⟩ := map_eq_ok.1 h
    exact ⟨rfl, rfl⟩
  | bundle name apps _ _ reuse =>
    cases h
    exact ⟨rfl, rfl⟩

theorem NewTenant.of_mem_beside {f : String × Doc} (h : f ∈ n.beside) :
    f.1 ∈ ["kustomization.yaml", importFile, tenantDomainFile] := by
  simp only [NewTenant.beside] at h ⊢
  grind

/-! ### Reads -/

section specs

variable {κ β : Type} {proc : κ → ℕ} {P : Tree Doc → Prop}
  {code : κ → Prog (Op Path Doc) (Op.Ans Path Doc) β}
  {cond : ℕ → κ → Op Path Doc → Fate Path Doc → List κ → World Path Doc → Prop} {j : ℕ} {k : κ}
  {w : World Path Doc}

theorem readRepo_newest (hw : Free j w) : (newest κ P).SafeE proc code cond j k
    (fun t w => Looked cond (proc k) j k t ∧ Free j w) (fun _ => Free j) readRepo w :=
  lockedRead_newest hw

/-- `Tenants` answers with the tenants of what the call has looked at. -/
theorem tenants_newest (hw : Free j w) : (newest κ P).SafeE proc code cond j k
    (fun names w => (∃ t, Looked cond (proc k) j k t ∧ tenantsIn t cluster = .ok names) ∧ Free j w)
    (fun _ => Free j) (tenants cluster) w := by
  refine .next (fun t _ h1 => ?_) (readRepo_newest hw)
  obtain ⟨hlooked, h1⟩ := h1
  split
  · exact .throw h1
  next names hnames => exact .pure ⟨⟨t, hlooked, hnames⟩, h1⟩

variable {x : Rules}

/-- **A new tenant lands on the state its checks were made on.** -/
theorem NewTenant.run_newest {checkDomain : Tree Doc → Except Err Unit}
    (hkeep : ∀ t h m held warning, Looked cond (proc k) j k t →
      refuseInSingleTenancy cluster n.name t = .ok () → n.Accepted cluster (tip h) m held →
      Kept P cond j k h ((newTenantDraft cluster n.name n.status (n.files m, warning)).tree (tip h)))
    (hw : Free j w) : Frees P proc code cond j k (n.run x cluster checkDomain) w := by
  have hcheck : Frees P proc code cond j k (n.domainCheck checkDomain) w := by
    rw [NewTenant.domainCheck.eq_def]
    split
    · refine .next (fun t w1 h1 => ?_) (readRepo_newest hw)
      obtain ⟨-, h1⟩ := h1
      split
      · exact .throw h1
      · exact .pure h1
    · exact .pure hw
  refine .next (fun _ w1 h1 => ?_) hcheck
  refine createTenant_newest (fun t h fs hlooked hrefuse hfs => ?_) h1
  obtain ⟨m, held, hacc, hfiles⟩ := NewTenant.accepted_of_plan hfs
  obtain ⟨files, warning⟩ := fs
  obtain rfl : files = n.files m := hfiles
  exact hkeep t h m held warning hlooked hrefuse hacc

end specs

end Gentian.Gitops
