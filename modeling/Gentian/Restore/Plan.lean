/-
# The plan of a restore

`planRestore`, `planApp`, `planRetained`, `buildRule`, `derivedStores` and
`cleanArtefactPath` of `internal/controller/tenantrestore_plan.go`, the `live` of
`TenantRestoreReconciler.plan` (`tenantrestore_controller.go`) and
`ensureRetainedClaim` (`tenantrestore_retained.go`).

Where an artifact is, is the manifest's to say; where it goes is the tenant's:

| kind | target |
| --- | --- |
| `postgres`, `postgresOwned`, `mariadb`, `mariadbOwned` | `DatabaseName` of the tenant and the app |
| `s3` | `S3Bucket` of the tenant and the app |
| `volume` | the claim of that name, one of the app's |
| `secrets`, `authorization` | none: the app's own |

An import (`intoNewTenant`) also makes the claims of an uninstalled app, under the
names that the bundle records.  `ensureRetainedClaim` takes one that is there for the one to
make, whoever's it is.
-/

import Gentian.Backup.Record
import Gentian.Backup.Volumes
import Gentian.Base.GoPath
import Gentian.Restore.Rights

namespace Gentian.Restore

open GoStrings Backup

/-! ### Manifests -/

/-- The kinds of artifact of a bundle (`Artefact*` of `api/bundle`), and any other text
that a manifest has in their place. -/
inductive ArtefactKind where
  | postgres
  | postgresOwned
  | mariadb
  | mariadbOwned
  | s3
  | volume
  | identity
  | mailboxes
  | secrets
  | rights
  | authorization
  | other (kind : String)
deriving DecidableEq

/-- The engine that an artefact is of. -/
def ArtefactKind.engine : ArtefactKind → Option DatabaseEngine
  | .postgres | .postgresOwned => some .postgresql
  | .mariadb | .mariadbOwned => some .mariadb
  | _ => none

/-- `ManifestClaim`: what making a volume claim again takes. -/
structure ManifestClaim where
  size : String
  accessModes : List String
  storageClass : String
  labels : List (String × String)
  annotations : List (String × String)
deriving DecidableEq

/-- `ManifestStore`: an artifact of a bundle. -/
structure ManifestStore where
  kind : ArtefactKind
  name : String
  path : String
  release : String := ""
  claim : Option ManifestClaim := none
deriving DecidableEq

/-- An app of a bundle. -/
structure ManifestApp where
  name : String
  chartVersion : String
  retained : Bool
  stores : List ManifestStore
deriving DecidableEq

/-- `Manifest`, with the isolation that the tenant's recorded spec has.  `identity` is
the realm's name and where it is. -/
structure Manifest where
  schemaVersion : ℕ
  tenant : String
  isolation : Option Isolation
  domain : String
  customDomain : String
  kernelDomain : String
  apps : List ManifestApp
  identity : Option (String × String)
  shell : Option ManifestStore
  mailboxes : Option ManifestStore
  rights : Option ManifestRights

/-- Whether a manifest names each artefact's path. -/
def Manifest.namesArtefacts (m : Manifest) : Bool := 2 ≤ m.schemaVersion

/-- `TenantComponent`: the entry of what is the tenant's own and no app's. -/
def tenantComponent : String := "gentian-tenant"

/-! ### The tenant as it stands -/

/-- A `ComponentProfile` as a restore reads it: its stores and its chart, the version of
the chart, the volumes its backup spec includes, and whether its data is bound to the
domain it was written on. -/
structure RestoreProfile where
  component : ComponentProfile
  chartVersion : String
  included : List String
  domainBound : Bool
deriving DecidableEq

/-- `liveApp`: an app as the tenant has it now. -/
structure LiveApp where
  installed : Bool
  profile : Option RestoreProfile
  claims : List String
  held : Stores
deriving DecidableEq

/-- What the plan of a restore reads of a cluster: the profiles, the claims of the
tenant's namespace, and the record and the databases of the tenant. -/
structure LiveState where
  profiles : String → Option RestoreProfile
  claims : List VolumeClaim
  provisioned : Record
  databases : List String

/-- The stores of an app that is no more, by what is recorded. -/
def heldStores (app : String) (st : LiveState) : Stores :=
  let stores := mergeStores ⟨none, false, false⟩ (entryOf st.provisioned app)
  if stores.database = none ∧ app ∈ st.databases then { stores with database := some .postgresql }
  else stores

/-- The claims of an app by the inventory's rule, in order. -/
def LiveState.appClaims (st : LiveState) (tenant : Tenant) (app : String) : List String :=
  (appVolumes st.claims tenant app ((st.profiles app).map (·.component))).1.mergeSort
    fun a b => decide (a ≤ b)

/-- `live` of `TenantRestoreReconciler.plan`. -/
def LiveState.live (st : LiveState) (tenant : Tenant) (app : String) : LiveApp :=
  let profile := st.profiles app
  if tenant.apps.any fun a => a.profile = app then
    match profile with
    | none => ⟨true, none, [], ⟨none, false, false⟩⟩
    | some p =>
      let claims := if p.included ≠ [] then p.included else st.appClaims tenant app
      ⟨true, some p, claims, ⟨none, false, false⟩⟩
  else ⟨false, profile, st.appClaims tenant app, heldStores app st⟩

/-! ### What a plan is made of -/

/-- Why something of a bundle is left out. -/
inductive Why where
  | domainBound (was now : String)
  | notInstalled
  | noProfile
  | notComparable (wrote installed : String)
  | olderInstalled (wrote installed : String)
  | otherEngine (held : DatabaseEngine) (here : Option DatabaseEngine)
  | noObjectStorage
  | notItsClaim (claim : String) (claims : List String)
  | unknownKind (kind : ArtefactKind)
  | purged
  | noDefinition
  | gone (kind : ArtefactKind) (name : String)
  | holdsEngine (held : DatabaseEngine) (here : Option DatabaseEngine)
  | declaresEngine (held : DatabaseEngine) (declared : Option DatabaseEngine)
  | declaresNoObjectStorage
  | claimNotRecorded (claim : String)
  | noData
deriving DecidableEq

/-- `BundleArtefact`: an artifact, with where it goes. -/
structure BundleArtefact where
  kind : ArtefactKind
  name : String
  path : String
  release : String := ""
  target : String := ""
  claim : Option ManifestClaim := none
deriving DecidableEq

/-- What is restored of an app. -/
structure PlannedApp where
  name : String
  artefacts : List BundleArtefact
  retained : Bool
  chartVersion : String
deriving DecidableEq

/-- What is left out of an app, and why. -/
structure RestoreOmission where
  app : String
  reason : Why
deriving DecidableEq

/-- `restorePlan`: the apps, what is the tenant's own, what is not restored, whether the
names are the manifest's, and the entries of the rights store. -/
structure RestorePlan where
  apps : List PlannedApp
  tenantWide : List BundleArtefact
  notRestored : List RestoreOmission
  derived : Bool
  rights : Option RestoreRights
deriving DecidableEq

/-- How a restore is refused: the bundle is of another tenant, a path leaves the bundle,
an app's secrets are named elsewhere than where they are, the tenant could not be read,
what is asked for cannot be put back, or nothing can. -/
inductive PlanError (ε : Type) where
  | otherTenant (was tenant : String)
  | bundleUnusable (app path : String)
  | secretsElsewhere (app name path : String)
  | live (e : ε)
  | cannotRestoreAsAsked (missing : List String) (omitted : List RestoreOmission)
  | nothingToRestore (omitted : List RestoreOmission)
deriving DecidableEq

/-- What a bundle is restored into. -/
structure PlanTarget where
  intoNewTenant : Bool
  desktopDatabase : String
  mailDomain : String
  domain : String
  cluster : String
  haveRights : Bool
  provenance : Provenance

/-! ### Domains -/

/-- What a plain value may begin with. -/
def plainStart (c : Char) : Bool :=
  ('a' ≤ c && c ≤ 'z') || ('A' ≤ c && c ≤ 'Z') || ('0' ≤ c && c ≤ '9')

/-- A value as it is, or none where it is not plain. -/
def plainValue (s : String) : String :=
  match s.toList with
  | [] => ""
  | c :: cs =>
    if plainStart c && cs.all (fun c => plainStart c || decide (c ∈ "._+:-".toList)) &&
      decide (cs.length ≤ 252) then s else ""

/-- `SingleUserTenantName`. -/
def singleUserTenantName : String := "user"

/-- `bundleDomain` of what `restoreSource` reads. -/
def bundleDomain (m : Manifest) : String :=
  let tenant := plainValue m.tenant
  let kernel := plainValue m.kernelDomain
  if plainValue m.domain ≠ "" then plainValue m.domain
  else if plainValue m.customDomain ≠ "" then plainValue m.customDomain
  else if kernel ≠ "" ∧ tenant ≠ "" ∧ tenant ≠ singleUserTenantName then tenant ++ "." ++ kernel
  else ""

/-- Whether a tenant's domain is another now. -/
def domainMoved (was now : String) : Bool :=
  was ≠ "" && now ≠ "" && toLower was ≠ toLower now

/-! ### One app -/

/-- `cleanArtefactPath`: whether it lets the path pass. -/
def cleanArtefactPath (p : String) : Bool :=
  !(p = "" || hasPrefix p "/" || GoPath.clean p ≠ p || p = ".." || hasPrefix p "../" ||
    containsAny p "'\"\x60$\\\n ")

/-- The path of an app's secrets. -/
def secretsArtefact (app : String) : String := "secrets/" ++ app ++ ".json"

/-- The path of a PostgreSQL database. -/
def postgresArtefact (database : String) : String := "postgres/" ++ database ++ ".pgc"

/-- The path of a MariaDB database. -/
def mariadbArtefact (database : String) : String := "mariadb/" ++ database ++ ".sql.gz"

/-- The path of a bucket. -/
def s3Artefact (bucket : String) : String := "s3/" ++ bucket ++ ".tar.gz"

/-- The path of a volume. -/
def volumeArtefact (claim : String) : String := "volumes/" ++ claim ++ ".tar.gz"

section plan

variable {ε : Type}

/-- What a planner says of an app or an artifact: an error for a manifest that is not
gone by, and otherwise the answer or why there is none. -/
abbrev Answer (ε α : Type) := Except (PlanError ε) (Except Why α)

/-- A store of a bundle as an artefact. -/
def ManifestStore.artefact (s : ManifestStore) : BundleArtefact :=
  { kind := s.kind, name := s.name, path := s.path, release := s.release }

/-- `plannedSecrets`, and the artifact when it passes. -/
def plannedSecrets (app : String) (s : ManifestStore) : Answer ε BundleArtefact :=
  if s.name ≠ app ∨ s.path ≠ secretsArtefact app then .error (.secretsElsewhere app s.name s.path)
  else .ok (.ok { s.artefact with name := app })

/-- The stores of an app, one after the other. -/
def planStores (app : String) (one : ManifestStore → Answer ε BundleArtefact) :
    List ManifestStore → Answer ε (List BundleArtefact)
  | [] => .ok (.ok [])
  | s :: stores =>
    if !cleanArtefactPath s.path then .error (.bundleUnusable app s.path)
    else
      match one s with
      | .error e => .error e
      | .ok (.error why) => .ok (.error why)
      | .ok (.ok a) =>
        match planStores app one stores with
        | .error e => .error e
        | .ok (.error why) => .ok (.error why)
        | .ok (.ok artefacts) => .ok (.ok (a :: artefacts))

/-- `buildRule`: why an app is not restored over another version of it.  `lessThan`
compares two versions, `none` when one of them is not one. -/
def buildRule (lessThan : String → String → Option Bool) (wrote installed : String)
    (skip : Bool) : Option Why :=
  if wrote = installed then none
  else if wrote = "" ∨ installed = "" then
    if skip then none else some (.notComparable wrote installed)
  else if lessThan wrote installed = some true then none
  else if skip then none
  else if lessThan installed wrote ≠ some true then some (.notComparable wrote installed)
  else some (.olderInstalled wrote installed)

/-- `derivedStores`: what the entry of a format 1 manifest means, by the names of the
tenant the bundle was taken of.  `seen` are the kinds before these. -/
def derivedStores (source : Tenant) (app : String) (claims : List String) :
    List ArtefactKind → List ManifestStore → List ManifestStore
  | _, [] => []
  | seen, s :: stores =>
    if s.kind ∈ seen then derivedStores source app claims seen stores
    else
      (match s.kind with
        | .postgres =>
          [{ kind := s.kind, name := databaseName source app
             path := postgresArtefact (databaseName source app) }]
        | .mariadb =>
          [{ kind := s.kind, name := databaseName source app
             path := mariadbArtefact (databaseName source app) }]
        | .s3 =>
          [{ kind := s.kind, name := s3Bucket source app
             path := s3Artefact (s3Bucket source app) }]
        | .volume =>
          claims.map fun claim => { kind := s.kind, name := claim, path := volumeArtefact claim }
        | _ => [s]) ++ derivedStores source app claims (s.kind :: seen) stores

/-- The artifact of an installed app's database of an engine. -/
def databaseArtefact (inv : AppInventory) (engine : DatabaseEngine) (s : ManifestStore) :
    Answer ε BundleArtefact :=
  if inv.stores.database ≠ some engine then .ok (.error (.otherEngine engine inv.stores.database))
  else .ok (.ok { s.artefact with target := inv.database })

/-- One store of `planApp`. -/
def appStore (inv : AppInventory) (claims : List String) (app : String) (s : ManifestStore) :
    Answer ε BundleArtefact :=
  match s.kind with
  | .secrets => plannedSecrets app s
  | .authorization => .ok (.ok { s.artefact with name := app })
  | .postgres | .postgresOwned => databaseArtefact inv .postgresql s
  | .mariadb | .mariadbOwned => databaseArtefact inv .mariadb s
  | .s3 =>
    if !inv.stores.s3 then .ok (.error .noObjectStorage)
    else .ok (.ok { s.artefact with target := inv.bucket })
  | .volume =>
    if s.name ∉ claims then .ok (.error (.notItsClaim s.name claims))
    else .ok (.ok { s.artefact with target := s.name })
  | kind => .ok (.error (.unknownKind kind))

/-- `planApp`. -/
def planApp (lessThan : String → String → Option Bool) (m : Manifest) (source tenant : Tenant)
    (app : ManifestApp) (now : LiveApp) (skip : Bool) : Answer ε (List BundleArtefact) :=
  if !now.installed then .ok (.error .notInstalled)
  else
    match now.profile with
    | none => .ok (.error .noProfile)
    | some profile =>
      match buildRule lessThan app.chartVersion profile.chartVersion skip with
      | some why => .ok (.error why)
      | none =>
        let inv := inventoryOf tenant app.name (some profile.component)
        planStores app.name (appStore inv now.claims app.name)
          (if m.namesArtefacts then app.stores
           else derivedStores source app.name now.claims [] app.stores)

/-- The artifact of an uninstalled app's database of an engine. -/
def heldDatabaseArtefact (tenant : Tenant) (app : String) (now : LiveApp) (declared : Stores)
    (intoNewTenant : Bool) (engine : DatabaseEngine) (s : ManifestStore) :
    Answer ε BundleArtefact :=
  let target : BundleArtefact := { s.artefact with target := databaseName tenant app }
  if now.held.database = some engine then .ok (.ok target)
  else if now.held.database ≠ none then .ok (.error (.holdsEngine engine now.held.database))
  else if !intoNewTenant then .ok (.error (.gone s.kind s.name))
  else if declared.database ≠ some engine then
    .ok (.error (.declaresEngine engine declared.database))
  else .ok (.ok target)

/-- One store of `planRetained`. -/
def retainedStore (tenant : Tenant) (app : String) (now : LiveApp) (declared : Stores)
    (intoNewTenant : Bool) (s : ManifestStore) : Answer ε BundleArtefact :=
  match s.kind with
  | .secrets => plannedSecrets app s
  | .authorization => .ok (.ok { s.artefact with name := app })
  | .postgres | .postgresOwned =>
    heldDatabaseArtefact tenant app now declared intoNewTenant .postgresql s
  | .mariadb | .mariadbOwned =>
    heldDatabaseArtefact tenant app now declared intoNewTenant .mariadb s
  | .s3 =>
    let target : BundleArtefact := { s.artefact with target := s3Bucket tenant app }
    if now.held.s3 then .ok (.ok target)
    else if !intoNewTenant then .ok (.error (.gone s.kind s.name))
    else if !declared.s3 then .ok (.error .declaresNoObjectStorage)
    else .ok (.ok target)
  | .volume =>
    if s.name ∈ now.claims then .ok (.ok { s.artefact with target := s.name })
    else if !intoNewTenant then .ok (.error (.gone s.kind s.name))
    else if s.claim.all fun claim => claim.size = "" then
      .ok (.error (.claimNotRecorded s.name))
    else .ok (.ok { s.artefact with target := s.name, claim := s.claim })
  | kind => .ok (.error (.unknownKind kind))

/-- `holdsNothing` of `planRetained`. -/
def LiveApp.holdsNothing (now : LiveApp) : Bool :=
  now.held = ⟨none, false, false⟩ && now.claims.isEmpty

/-- `planRetained`: an app that was kept though it is installed no more. -/
def planRetained (tenant : Tenant) (app : ManifestApp) (now : LiveApp) (intoNewTenant : Bool) :
    Answer ε (List BundleArtefact) :=
  if now.holdsNothing && !intoNewTenant then .ok (.error .purged)
  else if now.profile.isNone && intoNewTenant then .ok (.error .noDefinition)
  else
    let declared := profileStores (now.profile.map (·.component))
    match planStores app.name (retainedStore tenant app.name now declared intoNewTenant)
        app.stores with
    | .error e => .error e
    | .ok (.error why) => .ok (.error why)
    | .ok (.ok artefacts) =>
      if artefacts.any fun a => a.kind ≠ .secrets then .ok (.ok artefacts)
      else .ok (.error .noData)

/-! ### The whole plan -/

variable (lessThan : String → String → Option Bool) (m : Manifest) (tenant : Tenant)
  (wanted : List String) (skip : Bool) (target : PlanTarget) (live : String → Except ε LiveApp)

/-- The tenant the bundle was taken of, under the names it had there. -/
def sourceTenant : Tenant := ⟨tenant.name, "", m.isolation, 0, []⟩

/-- The artifacts of one app that is considered, or why it is not restored. -/
def planOne (app : ManifestApp) (now : LiveApp) : Answer ε (List BundleArtefact) :=
  if now.profile.any (·.domainBound) && domainMoved (bundleDomain m) target.domain then
    .ok (.error (.domainBound (bundleDomain m) target.domain))
  else if app.retained && !now.installed then planRetained tenant app now target.intoNewTenant
  else planApp lessThan m (sourceTenant m tenant) tenant app now skip

/-- Whether the loop of `planRestore` looks at an entry. -/
def considered (app : ManifestApp) : Bool :=
  app.name ≠ tenantComponent && app.name ≠ "" && (wanted.isEmpty || wanted.contains app.name)

/-- The loop of `planRestore` over the apps of the manifest. -/
def planApps : List ManifestApp → Except (PlanError ε) (List PlannedApp × List RestoreOmission)
  | [] => .ok ([], [])
  | app :: apps =>
    if !considered wanted app then planApps apps
    else do
      let now ← (live app.name).mapError PlanError.live
      match ← planOne lessThan m tenant skip target app now with
      | .error why => do
        let (planned, omitted) ← planApps apps
        return (planned, ⟨app.name, why⟩ :: omitted)
      | .ok artefacts => do
        let (planned, omitted) ← planApps apps
        return (⟨app.name, artefacts, app.retained && !now.installed,
          plainValue app.chartVersion⟩ :: planned, omitted)

/-- The names of the manifest's apps: `held` of `planRestore`. -/
def heldApps : List String :=
  (m.apps.map (·.name)).filter fun name => name ≠ tenantComponent ∧ name ≠ ""

/-- An artifact that is the tenant's own, by the name and at the place that the manifest
gives. -/
def ownArtefact (kind : ArtefactKind) (held : Option (String × String)) (target : String) :
    Except (PlanError ε) (List BundleArtefact) :=
  match held with
  | none => .ok []
  | some (name, path) =>
    if path = "" then .ok []
    else if !cleanArtefactPath path then .error (.bundleUnusable "" path)
    else .ok [{ kind, name, path, target }]

/-- A store's name and path. -/
def ManifestStore.place (s : ManifestStore) : String × String := (s.name, s.path)

/-- What is the tenant's own, in the order of `TenantArtefacts`. -/
def tenantWide : Except (PlanError ε) (List BundleArtefact) := do
  let identity ← ownArtefact .identity m.identity (namesOf tenant).realm
  let shell ← ownArtefact .postgres (m.shell.map ManifestStore.place) target.desktopDatabase
  let mailboxes ← ownArtefact .mailboxes (m.mailboxes.map ManifestStore.place) target.mailDomain
  -- mail that there is no place for is left where it is: its path is checked all the same
  return identity ++ shell ++ if target.mailDomain = "" then [] else mailboxes

/-- `planRestore`. -/
def planRestore : Except (PlanError ε) RestorePlan :=
  if m.tenant ≠ tenant.name ∧ m.tenant ≠ "" then .error (.otherTenant m.tenant tenant.name)
  else do
    let (apps, notRestored) ← planApps lessThan m tenant wanted skip target live m.apps
    let missing := wanted.filter fun name => name ∉ heldApps m
    if !wanted.isEmpty && !(missing.isEmpty && notRestored.isEmpty) then
      .error (.cannotRestoreAsAsked missing notRestored)
    else do
      let wide ← tenantWide m tenant target
      if apps.isEmpty then .error (.nothingToRestore notRestored)
      else
        return { apps, tenantWide := wide, notRestored, derived := !m.namesArtefacts
                 rights := rightsPlan m.rights tenant.name target.cluster target.provenance
                   target.haveRights }

end plan

/-! ### The claims of an import -/

/-- `claimIdentityKey`: the labels and annotations that say whose a claim is. -/
def claimIdentityKey (key : String) : Bool :=
  hasPrefix key "app.kubernetes.io/" || hasPrefix key "meta.helm.sh/" ||
    hasPrefix key "helm.sh/" || hasPrefix key "gentianos.io/"

/-- The value of a key that names a claim. -/
def ManifestClaim.identity (pairs : List (String × String)) (key : String) : Option String :=
  (pairs.filter fun pair => claimIdentityKey pair.1).lookup key

/-- The claim that `ensureRetainedClaim` makes. -/
def madeClaim (name : String) (claim : ManifestClaim) : VolumeClaim where
  name
  appLabel := ManifestClaim.identity claim.labels "gentianos.io/app"
  instanceLabel := ManifestClaim.identity claim.labels "app.kubernetes.io/instance"
  nameLabel := ManifestClaim.identity claim.labels "app.kubernetes.io/name"
  releaseName := ManifestClaim.identity claim.annotations "meta.helm.sh/release-name"

/-- `ensureRetainedClaim`: the claims of the namespace after it, or the size that is none.
`quantity` is whether a text is a quantity. -/
def ensureRetainedClaim (quantity : String → Bool) (claims : List VolumeClaim) (name : String)
    (claim : ManifestClaim) : Except String (List VolumeClaim) :=
  if name ∈ claims.map VolumeClaim.name then .ok claims
  else if !quantity claim.size then .error claim.size
  else .ok (claims ++ [madeClaim name claim])

end Gentian.Restore
