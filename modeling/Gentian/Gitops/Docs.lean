/-
# The documents of the deployments repository

What the files say that the director reads and writes: a tenant's manifest
(`tenant.yaml`), the Cluster claim (`cluster.yaml`), a tenant's privileges and
exposures (`privileges.go`, `exposures.go`), kustomizations (`ensureListed` and
`removeListed` of `backup.go` and `resources.go`) and the files of the catalogue
directory (`catalogue.go`).  A document stands for the text the director writes
for it and reads back as it; `other` is text that does not parse.
-/

import Gentian.Gitops.Writes

namespace Gentian.Gitops

/-- `PrivilegeGrant`: one approved request. -/
structure PrivilegeGrant where
  install : String
  privilege : String
  approver : String
  approvedAt : String
  reason : String
  expiresAt : String
  digest : String
deriving DecidableEq

/-- What a privilege is known by. -/
def PrivilegeGrant.key (g : PrivilegeGrant) : String := g.install ++ " " ++ g.privilege

/-- `Exposure`: one published surface. -/
structure Exposure where
  install : String
  exposureName : String
  kind : String
  owner : String
  expiresAt : String
  reviewAt : String
  reason : String
  publishedAt : String
  lastReviewedBy : String
  lastReviewedAt : String
  apex : Bool
  apexAcknowledgedBy : String
  apexAcknowledgedAt : String
  /-- `Alias`, the label of the second address -/
  aliasLabel : String
  aliasSetBy : String
  aliasSetAt : String
deriving DecidableEq

/-- What a published entry is known by. -/
def Exposure.key (e : Exposure) : String := e.install ++ " " ++ e.exposureName

/-- `CatalogueOCI`: an artifact of a registry. -/
structure CatalogueOCI where
  repository : String
  artifact : String
deriving DecidableEq

/-- `CatalogueSource` and `TenantCatalogueSource`. -/
structure CatalogueSource where
  name : String
  url : String
  oci : CatalogueOCI
  addedBy : String
deriving DecidableEq

/-- The catalogue of a tenant's manifest. -/
structure TenantCatalogue where
  delegated : Bool
  sources : List CatalogueSource
deriving DecidableEq

/-- The build an addon is pinned to. -/
structure AddonPin where
  name : String
  digest : String
  catalogue : String
deriving DecidableEq

/-- `App`: one entry of a tenant's apps.  `grants` are the add-ons that are for
everyone. -/
structure App where
  profile : String
  digest : String
  catalogue : String
  movedAt : String
  movedBy : String
  defaultGrant : Bool
  placed : Bool
  addons : List String
  addonPins : List AddonPin
  grants : List String
deriving DecidableEq

/-- The manifest of a tenant, as far as it is read. -/
structure Manifest where
  name : String
  keycloakRealm : String
  catalogue : TenantCatalogue
  apps : List App
deriving DecidableEq

/-- The Cluster claim: its scalar settings by path, and its catalogues. -/
structure Claim where
  kernelDomain : String
  settings : List (String × String)
  sources : List CatalogueSource
deriving DecidableEq

/-- A document of the repository. -/
inductive Doc where
  | manifest (m : Manifest)
  | claim (c : Claim)
  | privileges (tenant : String) (grants : List PrivilegeGrant)
  | exposures (tenant : String) (entries : List Exposure)
  | kustomization (resources patches : List String)
  /-- a materialised profile, as the source served it -/
  | profile (body : String)
  /-- the bundle beside a profile -/
  | bundle (name body origin : String)
  /-- a build of a profile -/
  | build (profile digest body origin : String)
  /-- text that does not parse -/
  | other (text : String)
deriving DecidableEq

/-- A list with a file in it, and whether that changed it. -/
def listWith (entries : List String) (file : String) : List String × Bool :=
  if file ∈ entries then (entries, false) else (entries ++ [file], true)

/-- A list without a file, and whether it was there. -/
def listWithout (entries : List String) (file : String) : List String × Bool :=
  if file ∈ entries then (entries.filter (· ≠ file), true) else (entries, false)

namespace Doc

/-- `ensureListed`.  Empty text is a directory without a kustomization and gets
the one every tenant starts with. -/
def ensureListed (d : Doc) (file : String) (list : KustomizationList) : Doc × Bool :=
  match d, list with
  | kustomization resources patches, .resource =>
    let l := listWith resources file
    (kustomization l.1 patches, l.2)
  | kustomization resources patches, .patch =>
    let l := listWith patches file
    (kustomization resources l.1, l.2)
  | _, .resource => (kustomization ["tenant.yaml", file] [], true)
  | _, .patch => (kustomization ["tenant.yaml"] [file], true)

/-- A kustomization without a file. -/
def removeListed (d : Doc) (file : String) (list : KustomizationList) : Doc × Bool :=
  match d, list with
  | kustomization resources patches, .resource =>
    let l := listWithout resources file
    (kustomization l.1 patches, l.2)
  | kustomization resources patches, .patch =>
    let l := listWithout patches file
    (kustomization resources l.1, l.2)
  | d, _ => (d, false)

/-- Whether a document is a tenant's manifest of this name. -/
def declares : Doc → String → Bool
  | manifest m, tenant => m.name = tenant
  | _, _ => false

/-- A document that can be read. -/
def parses : Doc → Bool
  | other _ => false
  | _ => true

/-- The document's `spec.privileges`. -/
def readPrivileges : Doc → Except Err (List PrivilegeGrant)
  | privileges _ grants => .ok grants
  | other _ => .error (.said "the file does not parse")
  | _ => .ok []

/-- The document's `spec.exposures`. -/
def readExposures : Doc → Except Err (List Exposure)
  | exposures _ entries => .ok entries
  | other _ => .error (.said "the file does not parse")
  | _ => .ok []

end Doc

instance : Content Doc where
  empty := .other ""
  declares := Doc.declares
  parses := Doc.parses
  ensureListed := Doc.ensureListed
  removeListed := Doc.removeListed

variable {list : KustomizationList} {entries : List String} {body : Option Doc}
  {file name : String}

theorem listWith_ne (h : (listWith entries file).2) : (listWith entries file).1 ≠ entries := by
  rw [listWith] at h ⊢
  split_ifs at h ⊢
  simp

theorem listWithout_ne
    (h : (listWithout entries file).2) : (listWithout entries file).1 ≠ entries := by
  rw [listWithout] at h ⊢
  split_ifs at h ⊢ with hmem
  intro heq
  exact absurd (List.filter_eq_self.1 heq file hmem) (by simp)

/-- A listing that says it changed has changed. -/
theorem listFile_ne {d : Doc}
    (h : (listFile d name list body).2) : (listFile d name list body).1 ≠ d := by
  cases body with
  | none =>
    cases d with
    | kustomization resources patches =>
      cases list with
      | resource => exact fun heq => listWithout_ne h (Doc.kustomization.inj heq).1
      | patch => exact fun heq => listWithout_ne h (Doc.kustomization.inj heq).2
    | _ => cases list <;> cases h
  | some x =>
    cases d with
    | kustomization resources patches =>
      cases list with
      | resource => exact fun heq => listWith_ne h (Doc.kustomization.inj heq).1
      | patch => exact fun heq => listWith_ne h (Doc.kustomization.inj heq).2
    | _ => cases list <;> exact Doc.noConfusion

/-- **What `writeTenantFileLocked` commits differs from what is there.** -/
theorem tenantFilePlan_tree_ne {t : Tree Doc} {manifest : Path} {d : Draft Doc}
    (hname : name ≠ "kustomization.yaml")
    (hd : tenantFilePlan t manifest name body list = .draft d) : d.tree t ≠ t := by
  intro heq
  have hget := tenantFilePlan_get hname hd
  rw [heq] at hget
  have hpath := hget (manifest.dropLast ++ [name])
  rw [tenantFilePlan] at hd
  split_ifs at hd with hsame hlisted
  · -- the kustomization changed
    have hkust := hget (manifest.dropLast ++ ["kustomization.yaml"])
    rw [if_neg (by simpa using hname.symm)] at hkust
    simp only [hlisted] at hkust
    exact listFile_ne hlisted (congrArg (Option.getD · Content.empty) hkust).symm
  · exact hsame (by simp [hpath, hlisted])

/-! ### The entries of a tenant's apps

What the edits of a tenant's apps mean: `InstallFrom`, `Uninstall` and `RetryMove`
(`gitops.go`), `SetAddonsPinned` (`addons.go`), `Place` and `Unplace`
(`placement.go`), each as an operation on the entries of `spec.apps`, which the director
carries out as edits of the manifest's lines.  A new entry is put first, and a key that an
entry does not carry is the empty text or `false`. -/

/-- `Meta.movedAt` and `Meta.mover`: what an entry records of the move of its pin. -/
structure Moved where
  movedAt : String
  movedBy : String
deriving DecidableEq

/-- The edits of a tenant's apps. -/
inductive AppEdit where
  | installFrom (profile digest catalogue : String) (defaultGrant : Option Bool) (moved : Moved)
  | uninstall (profile : String)
  | retryMove (profile digest : String) (moved : Moved)
  | setAddonsPinned (profile : String) (addons : List String) (pins : List AddonPin)
      (grants : List (String × Bool))
  | place (profile digest catalogue : String) (defaultGrant : Bool) (moved : Moved)
  | unplace (profile : String)
deriving DecidableEq

/-! ### The checks of a request -/

/-- A digit of a digest. -/
def isHexDigit (c : Char) : Bool := c.isDigit || ('a' ≤ c && c ≤ 'f')

/-- `digestPattern.MatchString`. -/
def isDigest (digest : String) : Bool :=
  let cs := digest.toList
  cs.take 7 = "sha256:".toList && (cs.drop 7).length = 64 && (cs.drop 7).all isHexDigit

/-- `validAddon.MatchString`. -/
def validAddon (name : String) : Bool :=
  match name.toList with
  | [] => false
  | c :: cs => c.isAlphanum && cs.length ≤ 62 &&
      cs.all fun c => c.isAlphanum || c = '_' || c = '.' || c = '-'

/-- The checks of a build to pin: a digest, and a catalogue only beside one. -/
def checkBuild (profile digest catalogue : String) : Except Err Unit :=
  if !validName profile then .error (.invalidName "profile" profile)
  else if digest ≠ "" && !isDigest digest then .error (.invalidName "digest" digest)
  else if catalogue ≠ "" && (digest = "" || !validName catalogue) then
    .error (.invalidName "catalog" catalogue)
  else .ok ()

/-- The checks of the pins of add-ons, where the ones before have these names. -/
def checkPins (addons : List String) : List String → List AddonPin → Except Err Unit
  | _, [] => .ok ()
  | stated, pin :: pins =>
    if !validName pin.name || !addons.contains pin.name then
      .error (.invalidName "pinned addon" pin.name)
    else if !isDigest pin.digest then .error (.invalidName "digest" pin.digest)
    else if !validName pin.catalogue then .error (.invalidName "catalog" pin.catalogue)
    else if stated.contains pin.name then .error (.invalidName "addon" pin.name)
    else checkPins addons (pin.name :: stated) pins

/-- What an edit is refused for before the repository is read. -/
def AppEdit.check : AppEdit → Except Err Unit
  | .installFrom profile digest catalogue _ _ | .place profile digest catalogue _ _ =>
    checkBuild profile digest catalogue
  | .uninstall profile | .unplace profile =>
    if !validName profile then .error (.invalidName "profile" profile) else .ok ()
  | .retryMove profile digest _ =>
    if !validName profile then .error (.invalidName "profile" profile)
    else if !isDigest digest then .error (.invalidName "digest" digest)
    else .ok ()
  | .setAddonsPinned profile addons pins grants =>
    if !validName profile then .error (.invalidName "profile" profile)
    else match addons.find? fun a => !validAddon a with
      | some a => .error (.invalidName "addon" a)
      | none => do
        checkPins addons [] pins
        match grants.find? fun g => !addons.contains g.1 with
        | some g => throw (.invalidName "granted addon" g.1)
        | none => pure ()

/-! ### What the edits make of the entries -/

/-- The entry of a profile. -/
def entryOf (profile : String) (apps : List App) : Option App :=
  apps.find? fun a => a.profile = profile

/-- The first entry of a profile changed. -/
def setEntry (profile : String) (f : App → App) : List App → List App
  | [] => []
  | a :: as => if a.profile = profile then f a :: as else a :: setEntry profile f as

/-- The first entry of a profile dropped. -/
def dropEntry (profile : String) (apps : List App) : List App :=
  apps.eraseP fun a => a.profile = profile

/-- The entry `insertComponentProfile` writes. -/
def App.fresh (profile digest catalogue : String) (everyone : Bool) : App where
  profile := profile
  digest := digest
  catalogue := catalogue
  movedAt := ""
  movedBy := ""
  defaultGrant := everyone
  placed := false
  addons := []
  addonPins := []
  grants := []

/-- An entry that is pinned to a build, and whether that changed it.  A pin that
moves with no catalogue named loses the one it had. -/
def App.pin (a : App) (digest catalogue : String) (m : Moved) : App × Bool :=
  if digest = "" then (a, false)
  else
    let moved := a.digest ≠ digest || (catalogue ≠ "" && a.catalogue ≠ catalogue)
    if moved then
      ({ a with
        digest := digest
        catalogue := catalogue
        movedAt := m.movedAt
        movedBy := m.movedBy }, true)
    else (a, false)

/-- What `InstallFrom` makes of an entry that is there, and whether that changed
it. -/
def App.install (a : App) (digest catalogue : String) (defaultGrant : Option Bool) (m : Moved) :
    App × Bool :=
  let pinned := a.pin digest catalogue m
  match defaultGrant with
  | none => pinned
  | some g => ({ pinned.1 with defaultGrant := g }, pinned.2 || a.defaultGrant ≠ g)

/-- What `placeEntry` makes of an entry that is there, and whether that changed
it. -/
def App.place (a : App) (digest catalogue : String) (defaultGrant : Bool) (m : Moved) :
    App × Bool :=
  let moved := digest ≠ "" && a.digest ≠ digest
  let granted := defaultGrant && !a.defaultGrant
  let pinned := if moved then
    { a with
      digest := digest
      catalogue := catalogue
      movedAt := m.movedAt
      movedBy := m.movedBy }
    else a
  ({ pinned with placed := true, defaultGrant := a.defaultGrant || defaultGrant },
    !a.placed || moved || granted)

/-- The pin of an addon. -/
def App.pinOf (a : App) (addon : String) : Option AddonPin :=
  if a.addons.contains addon then
    (a.addonPins.reverse.find? fun pin => pin.name = addon).filter fun pin => pin.digest ≠ ""
  else none

/-- What `SetAddonsPinned` makes of an entry: an add-on that is named with no pin
or grant keeps the one it has. -/
def App.setAddons (a : App) (addons : List String) (pins : List AddonPin)
    (grants : List (String × Bool)) : App :=
  { a with
    addons := addons
    addonPins := addons.filterMap fun ad =>
      (pins.find? fun pin => pin.name = ad).or (a.pinOf ad)
    grants := addons.filter fun ad =>
      (grants.lookup ad).getD (a.addons.contains ad && a.grants.contains ad) }

/-- A tenant that signs in with another's realm. -/
def adoptsAnotherRealm (m : Manifest) (tenant : String) : Bool :=
  m.keycloakRealm ≠ "" && m.keycloakRealm ≠ tenant

/-- `ErrPlatformTenant`. -/
def errPlatformTenant : Err := .said "this is the platform tenant"

/-- `ErrPlacedApp`. -/
def errPlacedApp : Err := .said "the platform places this app"

/-- `ErrNotInstalled`. -/
def errNotInstalled : Err := .said "the app is not installed"

/-- `ErrNotPinnedThere`. -/
def errNotPinnedThere : Err := .said "the app is not pinned to that build"

/-- What an edit makes of the entries, its status and whether it changed
anything; `platform` says that the tenant is the platform's own. -/
def AppEdit.onApps (platform : Bool) (apps : List App) :
    AppEdit → Except Err (List App × String × Bool)
  | .installFrom profile digest catalogue defaultGrant m =>
    if platform then .error errPlatformTenant
    else match entryOf profile apps with
      | none => .ok (App.fresh profile digest catalogue (defaultGrant.getD false) :: apps,
          "installed", true)
      | some a =>
        if a.placed then .error errPlacedApp
        else if (a.install digest catalogue defaultGrant m).2 then
          .ok (setEntry profile (fun a => (a.install digest catalogue defaultGrant m).1) apps,
            "updated", true)
        else .ok (apps, "already_installed", false)
  | .uninstall profile =>
    match entryOf profile apps with
    | none => .ok (apps, "not_installed", false)
    | some a =>
      if a.placed then .error errPlacedApp
      else .ok (dropEntry profile apps, "uninstalled", true)
  | .retryMove profile digest m =>
    match entryOf profile apps with
    | none => .error errNotInstalled
    | some a =>
      if a.placed then .error errPlacedApp
      else if a.digest ≠ digest then .error errNotPinnedThere
      else if a.movedAt = m.movedAt then .ok (apps, "retried", false)
      else .ok (setEntry profile (fun a =>
        { a with movedAt := m.movedAt, movedBy := m.movedBy }) apps, "retried", true)
  | .setAddonsPinned profile addons pins grants =>
    if platform then .error errPlatformTenant
    else match entryOf profile apps with
      | none => .ok (apps, "not_installed", false)
      | some a =>
        if a.placed then .error errPlacedApp
        else if a.setAddons addons pins grants = a then .ok (apps, "no_change", false)
        else .ok (setEntry profile (fun a => a.setAddons addons pins grants) apps,
          "updated", true)
  | .place profile digest catalogue defaultGrant m =>
    match entryOf profile apps with
    | none => .ok ({ App.fresh profile digest catalogue defaultGrant with placed := true } :: apps,
        "placed", true)
    | some a =>
      if (a.place digest catalogue defaultGrant m).2 then
        .ok (setEntry profile (fun a => (a.place digest catalogue defaultGrant m).1) apps,
          "placed", true)
      else .ok (apps, "already_placed", false)
  | .unplace profile =>
    match entryOf profile apps with
    | none => .ok (apps, "not_placed", false)
    | some a =>
      if a.placed then .ok (dropEntry profile apps, "removed", true)
      else .ok (apps, "not_placed", false)

/-- What an edit makes of a manifest, with its status. -/
def AppEdit.onManifest (tenant : String) (e : AppEdit) (m : Manifest) :
    Except Err (Manifest × String × Bool) :=
  (e.onApps (adoptsAnotherRealm m tenant) m.apps).map fun r => ({ m with apps := r.1 }, r.2)

/-- The edit as `applyTo` is given it. -/
def AppEdit.edit (tenant : String) (e : AppEdit) : Edit Doc
  | .manifest m => (e.onManifest tenant m).map fun r => (.manifest r.1, r.2)
  | _ => .error (.said "the tenant's manifest does not parse")

/-- An edit, run to its answer. -/
def AppEdit.run (cluster tenant : String) (e : AppEdit) (attempts : ℕ) : Run Doc Result :=
  match e.check with
  | .error err => throw err
  | .ok () => applyTo cluster tenant "" (e.edit tenant) attempts

end Gentian.Gitops
