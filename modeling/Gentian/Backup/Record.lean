/-
# The record of what was provisioned

`internal/backup/record.go`, with `InventoryOf` and `StoreDestroyJobs` of
`internal/backup/teardown.go` and `purgeSteps` of `internal/applifecycle/purge.go`.
Provisioning writes the names of an app's stores to the record before it makes them, and a
purge destroys them kind by kind:

| kind | name made under | destroyed under |
| --- | --- | --- |
| database | engine of the profile, prefix of the tenant | engine on record, prefix of the tenant |
| bucket | prefix of the tenant | prefix of the tenant |
| cache user | name of the tenant | name of the tenant |

A later provisioning writes over the record's one place for a kind, and the Jobs of a purge
read only the engine from it, so a store can be lost when the profile or the tenant's prefixes
change (`store_lost`).
-/

import Gentian.Backup.MariaDB

namespace Gentian.Backup

open GoStrings List Option Function

/-! ### What an app owns -/

/-- `Kind`, of the kinds that the record keeps. -/
inductive Kind where
  | database
  | objectStorage
  | cache
  | modelAccess
deriving DecidableEq

/-- `AppInventory`, of the stores and the model key. -/
structure AppInventory where
  stores : Stores
  database : String
  databaseUser : String
  bucket : String
  cacheUser : String
  modelKey : String
deriving DecidableEq

/-- `modelgateway.KeyAlias`. -/
def keyAlias (tenantName app : String) : String := tenantName ++ "-" ++ app

/-- The login an app has on a server of an engine. -/
def databaseLogin (tenantName app : String) : DatabaseEngine → String
  | .postgresql => postgresRole tenantName app
  | .mariadb => mariadbUser tenantName app

/-- `inventoryOf`: the stores of an app under their names. -/
def inventoryOf (t : Tenant) (app : String) (profile : Option ComponentProfile) : AppInventory :=
  let stores := profileStores profile
  { stores
    database := if stores.database.isSome then databaseName t app else ""
    databaseUser := (stores.database.map (databaseLogin t.name app)).getD ""
    bucket := if stores.s3 then s3Bucket t app else ""
    cacheUser := if stores.redis then redisACLUser t.name app else ""
    modelKey := if profile.any ComponentProfile.llm then keyAlias t.name app else "" }

/-- `Provisioned`: what was made for an app. -/
structure Provisioned where
  databaseEngine : Option DatabaseEngine
  database : String
  databaseUser : String
  bucket : String
  cacheUser : String
  modelKey : String
deriving DecidableEq

/-- Nothing was made. -/
def Provisioned.none : Provisioned := ⟨Option.none, "", "", "", "", ""⟩

/-- What is recorded of an inventory. -/
def provisionedOf (inv : AppInventory) : Provisioned :=
  ⟨inv.stores.database, inv.database, inv.databaseUser, inv.bucket, inv.cacheUser, inv.modelKey⟩

/-- Whether nothing is recorded. -/
def Provisioned.empty (p : Provisioned) : Bool := p = .none

/-- An entry without the stores of one kind. -/
def Provisioned.without (p : Provisioned) : Kind → Provisioned
  | .database => { p with databaseEngine := Option.none, database := "", databaseUser := "" }
  | .objectStorage => { p with bucket := "" }
  | .cache => { p with cacheUser := "" }
  | .modelAccess => { p with modelKey := "" }

/-- An entry with what was made now put in its place. -/
def Provisioned.merged (p made : Provisioned) : Provisioned :=
  let engine := made.databaseEngine.isSome
  { databaseEngine := if engine then made.databaseEngine else p.databaseEngine
    database := if engine then made.database else p.database
    databaseUser := if engine then made.databaseUser else p.databaseUser
    bucket := if made.bucket ≠ "" then made.bucket else p.bucket
    cacheUser := if made.cacheUser ≠ "" then made.cacheUser else p.cacheUser
    modelKey := if made.modelKey ≠ "" then made.modelKey else p.modelKey }

/-- The stores a profile declares, and those recorded for it. -/
def mergeStores (declared : Stores) (recorded : Provisioned) : Stores :=
  { database := if recorded.databaseEngine.isSome then recorded.databaseEngine else declared.database
    s3 := declared.s3 || recorded.bucket ≠ ""
    redis := declared.redis || recorded.cacheUser ≠ "" }

/-! ### The record -/

/-- The record of a tenant: an entry for each app that has one. -/
abbrev Record := String → Option Provisioned

/-- `entryOf`, of an entry that parses. -/
def entryOf (record : Record) (app : String) : Provisioned := (record app).getD .none

/-- What the record holds of an entry: nothing of one that records nothing. -/
def Provisioned.kept (p : Provisioned) : Option Provisioned :=
  if p.empty then Option.none else some p

/-- `setEntry`, and whether the record changed. -/
def setEntry (record : Record) (app : String) (p : Provisioned) : Record × Bool :=
  if record app = p.kept then (record, false) else (Function.update record app p.kept, true)

/-- `recordProvisioned`, and whether the record is written. -/
def recordProvisioned (record : Record) (app : String) (made : Provisioned) : Record × Bool :=
  if made.empty then (record, false) else setEntry record app ((entryOf record app).merged made)

/-- `forgetProvisioned`, and whether the record is written. -/
def forgetProvisioned (record : Record) (app : String) (kind : Kind) : Record × Bool :=
  if (record app).isNone then (record, false)
  else setEntry record app ((entryOf record app).without kind)

section entries

variable {record : Record} {app other : String} {p made : Provisioned}

theorem getD_kept (p : Provisioned) : p.kept.getD .none = p := by
  rw [Provisioned.kept]
  split_ifs with hempty
  · exact (of_decide_eq_true hempty).symm
  · rfl

theorem setEntry_fst : (setEntry record app p).1 = Function.update record app p.kept := by
  rw [setEntry]
  split_ifs with hsame
  · rw [← hsame, update_eq_self]
  · rfl

/-- An entry is what was set. -/
theorem entryOf_setEntry : entryOf (setEntry record app p).1 app = p := by
  rw [entryOf, setEntry_fst, update_self, getD_kept]

theorem entryOf_setEntry_of_ne (hne : other ≠ app) :
    entryOf (setEntry record app p).1 other = entryOf record other := by
  rw [entryOf, setEntry_fst, update_of_ne hne, entryOf]

theorem merged_none (p : Provisioned) : p.merged .none = p := by
  simp [Provisioned.merged, Provisioned.none]

/-- **The entry after a provisioning.** -/
theorem entryOf_recordProvisioned :
    entryOf (recordProvisioned record app made).1 app = (entryOf record app).merged made := by
  rw [recordProvisioned]
  split_ifs with hempty
  · rw [of_decide_eq_true hempty, merged_none]
  · exact entryOf_setEntry

theorem entryOf_recordProvisioned_of_ne (hne : other ≠ app) :
    entryOf (recordProvisioned record app made).1 other = entryOf record other := by
  rw [recordProvisioned]
  split_ifs
  · rfl
  · exact entryOf_setEntry_of_ne hne

/-- **The entry after a kind is forgotten.** -/
theorem entryOf_forgetProvisioned (kind : Kind) :
    entryOf (forgetProvisioned record app kind).1 app = (entryOf record app).without kind := by
  rw [forgetProvisioned]
  split_ifs with hnone
  · rw [isNone_iff_eq_none] at hnone
    cases kind <;> simp [entryOf, hnone, Provisioned.without, Provisioned.none]
  · exact entryOf_setEntry

theorem entryOf_forgetProvisioned_of_ne (kind : Kind) (hne : other ≠ app) :
    entryOf (forgetProvisioned record app kind).1 other = entryOf record other := by
  rw [forgetProvisioned]
  split_ifs
  · rfl
  · exact entryOf_setEntry_of_ne hne

end entries

/-! ### Stores and the Jobs that destroy them -/

/-- A store of an app.  The PostgreSQL server records the role that owns a database, and
the MariaDB server the account that holds rights on it. -/
inductive Store where
  | database (engine : DatabaseEngine) (name user : String)
  | bucket (name : String)
  | cacheUser (name : String)
deriving DecidableEq

/-- The kind of a store. -/
def Store.kind : Store → Kind
  | .database _ _ _ => .database
  | .bucket _ => .objectStorage
  | .cacheUser _ => .cache

/-- The store of a kind that an entry names. -/
def Provisioned.named (p : Provisioned) : Kind → Option Store
  | .database => p.databaseEngine.map fun engine => .database engine p.database p.databaseUser
  | .objectStorage => if p.bucket ≠ "" then some (.bucket p.bucket) else Option.none
  | .cache => if p.cacheUser ≠ "" then some (.cacheUser p.cacheUser) else Option.none
  | .modelAccess => Option.none

/-- `StoreDestroyJobs`: the store that the Job of a kind destroys. -/
def storeDestroyJobs (t : Tenant) (app : String) (stores : Stores) : Kind → Option Store
  | .database => stores.database.map fun engine =>
    .database engine (databaseName t app) (databaseLogin t.name app engine)
  | .objectStorage => if stores.s3 then some (.bucket (s3Bucket t app)) else none
  | .cache => if stores.redis then some (.cacheUser (redisACLUser t.name app)) else none
  | .modelAccess => none

/-- The stores of the cluster, each with the app that it was made for, and the buckets
that hold objects under a lock. -/
structure Shelf where
  stores : List (String × Store)
  locked : List String
deriving DecidableEq

/-- Whether an account other than the user holds rights on a MariaDB database. -/
def Shelf.heldByAnother (shelf : Shelf) (name user : String) : Bool :=
  shelf.stores.any fun e => match e.2 with
    | .database .mariadb n u => n = name && u ≠ user
    | _ => false

/-- Whether a destroy script takes a store: `postgresDestroyScript` the database and what
else the role owns, `mariadbDestroyScript` the database and what is under its prefix and
no other account's, `objectStorageDestroyScript` a bucket without locked objects. -/
def Shelf.takes (shelf : Shelf) : Store → Store → Bool
  | .database .postgresql name role, .database .postgresql n u => n = name || u = role
  | .database .mariadb name user, .database .mariadb n _ =>
    n = name || (mariadbOwns name n && !shelf.heldByAnother n user)
  | .bucket name, .bucket n => n = name && !shelf.locked.contains n
  | .cacheUser name, .cacheUser n => n = name
  | _, _ => false

/-- A Job that ends well: the stores that are left.  A MariaDB script is refused for names
that are not safe. -/
def Shelf.destroy (shelf : Shelf) (job : Store) : Option Shelf :=
  match job with
  | .database .mariadb name user =>
    if mariadbName name && mariadbName user then
      some { shelf with stores := shelf.stores.filter fun e => !shelf.takes job e.2 }
    else none
  | _ => some { shelf with stores := shelf.stores.filter fun e => !shelf.takes job e.2 }

/-! ### Provisionings and purges -/

/-- A step of `purgeSteps` and the store that its Job destroys: a model key has none. -/
structure PurgeStep where
  kind : Kind
  job : Option Store
deriving DecidableEq

/-- `AppPurgeOrder`, of the kinds that the record keeps. -/
def appPurgeOrder : List Kind := [.modelAccess, .cache, .objectStorage, .database]

/-- `purgeSteps`, of the kinds that the record keeps. -/
def purgeSteps (t : Tenant) (profile : ComponentProfile) (app : String) (recorded : Provisioned) :
    List PurgeStep :=
  let owned := mergeStores (inventoryOf t app (some profile)).stores recorded
  appPurgeOrder.filterMap fun kind =>
    match kind with
    | .modelAccess => if recorded.modelKey ≠ "" then some ⟨kind, none⟩ else none
    | _ => (storeDestroyJobs t app owned kind).map fun job => ⟨kind, some job⟩

/-- The record of a tenant, the stores, the steps that the purge of an app has left, and
the stores that were there under the recorded name when their kind was forgotten. -/
structure Estate where
  record : Record
  shelf : Shelf
  purging : String → List PurgeStep
  lost : List Store

/-- Nothing is recorded and nothing is there. -/
def Estate.empty : Estate := ⟨fun _ => none, ⟨[], []⟩, fun _ => [], []⟩

/-- How a step of a purge ends: done, with its Job failed, or with the Job done and the
record not changed. -/
inductive StepEnd where
  | done
  | jobFailed
  | notForgotten
deriving DecidableEq

/-- What happens to the stores of a tenant: an app is provisioned, on a cluster that
serves models or does not, and the Jobs of some kinds make their stores; a purge begins;
the next step of a purge; objects come under a lock, or a retention ends.  The tenant's
isolation and the app's profile are those of the time. -/
inductive EstateMove where
  | provision (app : String) (iso : Option Isolation) (profile : Option ComponentProfile)
      (models : Bool) (made : List Kind)
  | purge (app : String) (iso : Option Isolation) (profile : ComponentProfile)
  | purgeNext (app : String) (ends : StepEnd)
  | lock (bucket : String)
  | unlock (bucket : String)
deriving DecidableEq

/-- The entry that `recordProvisionedStores` writes for an app. -/
def madeFor (t : Tenant) (app : String) (profile : Option ComponentProfile) (models : Bool) :
    Provisioned :=
  let p := provisionedOf (inventoryOf t app profile)
  if models then p else { p with modelKey := "" }

/-- The end of a purge step whose Job has left this shelf. -/
def Estate.forget (e : Estate) (app : String) (kind : Kind) (shelf : Shelf)
    (rest : List PurgeStep) : Estate :=
  { record := (forgetProvisioned e.record app kind).1
    shelf
    purging := Function.update e.purging app rest
    lost := e.lost ++ ((entryOf e.record app).named kind).toList.filter fun store =>
      shelf.stores.any fun held => held.2 = store }

/-- One move, for the tenant `t` with the isolation that it states. -/
def estateStep (t : Tenant) (e : Estate) : EstateMove → Option Estate
  | .provision app iso profile models made =>
    let p := madeFor { t with isolation := iso } app profile models
    some { e with
      record := (recordProvisioned e.record app p).1
      shelf := { e.shelf with stores := e.shelf.stores ++ (made.filterMap p.named).map (app, ·) } }
  | .purge app iso profile =>
    if e.purging app = [] then
      let steps := purgeSteps { t with isolation := iso } profile app (entryOf e.record app)
      some { e with purging := Function.update e.purging app steps }
    else none
  | .purgeNext app ends =>
    match e.purging app with
    | [] => none
    | step :: rest =>
      match ends with
      | .jobFailed => some { e with purging := Function.update e.purging app [] }
      | .notForgotten => (step.job.elim (some e.shelf) e.shelf.destroy).map fun shelf =>
        { e with shelf, purging := Function.update e.purging app [] }
      | .done => (step.job.elim (some e.shelf) e.shelf.destroy).map fun shelf =>
        e.forget app step.kind shelf rest
  | .lock bucket => some { e with shelf := { e.shelf with locked := bucket :: e.shelf.locked } }
  | .unlock bucket =>
    let locked := e.shelf.locked.filter fun b => b ≠ bucket
    some { e with shelf := { e.shelf with locked } }

/-- **Every store is on record, and none was lost**: it is named in the entry of the app
it was made for, and no kind was forgotten while the store under its recorded name was
still there. -/
structure OnRecord (e : Estate) : Prop where
  named : ∀ held ∈ e.shelf.stores, ∃ kind, (entryOf e.record held.1).named kind = some held.2
  forgotten : e.lost = []

/-- The names stand: a provisioning comes while no purge of the app runs, and a kind that
is on record is made under the recorded name; a purge begins under the recorded names;
and a bucket on record that a purge comes to holds no locked objects. -/
def namesStand (t : Tenant) (e : Estate) : EstateMove → Prop
  | .provision app iso profile _ _ => e.purging app = [] ∧ ∀ kind ∈ appPurgeOrder,
      ∀ store ∈ (entryOf e.record app).named kind,
      ∀ made ∈ (provisionedOf (inventoryOf { t with isolation := iso } app profile)).named kind,
        made = store
  | .purge app iso _ =>
    ((entryOf e.record app).databaseEngine.isSome = true →
      (entryOf e.record app).database = databaseName { t with isolation := iso } app) ∧
    ((entryOf e.record app).bucket ≠ "" →
      (entryOf e.record app).bucket = s3Bucket { t with isolation := iso } app)
  | .purgeNext app _ => ∀ step ∈ (e.purging app).head?, step.kind = .objectStorage →
      (entryOf e.record app).bucket ∉ e.shelf.locked
  | .lock _ | .unlock _ => True

instance namesStand.decidable (t : Tenant) (e : Estate) : ∀ m, Decidable (namesStand t e m)
  | .provision _ _ _ _ _ => inferInstanceAs (Decidable (_ ∧ ∀ kind ∈ appPurgeOrder, _))
  | .purge _ _ _ => inferInstanceAs (Decidable (_ ∧ _))
  | .purgeNext app _ => inferInstanceAs (Decidable (∀ step ∈ (e.purging app).head?, _))
  | .lock _ | .unlock _ => inferInstanceAs (Decidable True)

/-! ### The names of an entry -/

section names

variable {t : Tenant} {app : String} {p q made : Provisioned} {kind other : Kind} {store : Store}
  {profile : Option ComponentProfile} {models : Bool} {engine : DatabaseEngine}

/-- **A provisioning writes over the kinds that it makes**, and leaves the others. -/
theorem named_merged (p made : Provisioned) (kind : Kind) :
    (p.merged made).named kind = (made.named kind).or (p.named kind) := by
  cases kind with
  | database =>
    cases hengine : made.databaseEngine <;> simp [Provisioned.merged, Provisioned.named, hengine]
  | objectStorage =>
    by_cases hbucket : made.bucket = "" <;> simp [Provisioned.merged, Provisioned.named, hbucket]
  | cache =>
    by_cases huser : made.cacheUser = "" <;> simp [Provisioned.merged, Provisioned.named, huser]
  | modelAccess => rfl

/-- What is forgotten is named no more. -/
theorem named_without_self (p : Provisioned) (kind : Kind) : (p.without kind).named kind = none := by
  cases kind <;> rfl

/-- The rest is named as before. -/
theorem named_without_of_ne (hne : other ≠ kind) :
    (p.without kind).named other = p.named other := by
  cases kind <;> cases other <;> first | rfl | exact absurd rfl hne

theorem kind_of_named (h : p.named kind = some store) : store.kind = kind := by
  cases kind with
  | database =>
    obtain ⟨_, -, rfl⟩ := map_eq_some_iff.1 h
    rfl
  | objectStorage | cache =>
    rw [Provisioned.named, ite_none_right_eq_some] at h
    cases h.2
    rfl
  | modelAccess => cases h

theorem mem_appPurgeOrder (kind : Kind) : kind ∈ appPurgeOrder := by
  cases kind <;> decide

theorem named_madeFor : (madeFor t app profile models).named kind =
    (provisionedOf (inventoryOf t app profile)).named kind := by
  cases models <;> cases kind <;> rfl

/-- The logins of an entry follow from the names of the tenant and the app. -/
structure Provisioned.UsersOf (p : Provisioned) (tenantName app : String) : Prop where
  database : ∀ engine, p.databaseEngine = some engine →
    p.databaseUser = databaseLogin tenantName app engine
  cache : p.cacheUser ≠ "" → p.cacheUser = redisACLUser tenantName app

theorem usersOf_madeFor : (madeFor t app profile models).UsersOf t.name app := by
  have h : (provisionedOf (inventoryOf t app profile)).UsersOf t.name app := by
    refine ⟨fun engine hengine => ?_, fun hcache => ?_⟩
    · have hengine : (profileStores profile).database = some engine := hengine
      simp [provisionedOf, inventoryOf, hengine]
    · simp only [provisionedOf, inventoryOf] at hcache ⊢
      split_ifs at hcache ⊢
      · rfl
      · exact absurd rfl hcache
  cases models with
  | true => exact h
  | false => exact ⟨h.database, h.cache⟩

variable {tenantName : String}

/-- Logins stay those of the app. -/
theorem usersOf_merged (hp : p.UsersOf tenantName app)
    (hmade : made.UsersOf tenantName app) : (p.merged made).UsersOf tenantName app := by
  refine ⟨fun engine hengine => ?_, fun hcache => ?_⟩
  · simp only [Provisioned.merged] at hengine ⊢
    split_ifs at hengine ⊢
    · exact hmade.database engine hengine
    · exact hp.database engine hengine
  · simp only [Provisioned.merged] at hcache ⊢
    split_ifs at hcache ⊢ with hempty
    · exact hmade.cache hcache
    · exact hp.cache hcache

theorem usersOf_without (hp : p.UsersOf tenantName app) (kind : Kind) :
    (p.without kind).UsersOf tenantName app := by
  cases kind with
  | database => exact ⟨nofun, hp.cache⟩
  | cache => exact ⟨hp.database, nofun⟩
  | objectStorage | modelAccess => exact ⟨hp.database, hp.cache⟩

/-- **The Jobs of a purge destroy the stores on record**, when the tenant's prefixes are
those that the stores were made with. -/
theorem job_of_mem_purgeSteps {profile : ComponentProfile} {step : PurgeStep}
    (husers : p.UsersOf t.name app)
    (hdatabase : p.databaseEngine.isSome → p.database = databaseName t app)
    (hbucket : p.bucket ≠ "" → p.bucket = s3Bucket t app)
    (hstep : step ∈ purgeSteps t profile app p) (hnamed : p.named step.kind = some store) :
    step.job = some store := by
  obtain ⟨kind, -, hkind⟩ := mem_filterMap.1 hstep
  cases kind with
  | modelAccess =>
    rw [ite_none_right_eq_some] at hkind
    cases hkind.2
    cases hnamed
  | database =>
    obtain ⟨job, hjob, rfl⟩ := map_eq_some_iff.1 hkind
    obtain ⟨engine, hengine, rfl⟩ := map_eq_some_iff.1 hnamed
    rw [hdatabase (by simp [hengine]), husers.database engine hengine]
    simpa [storeDestroyJobs, mergeStores, hengine] using hjob.symm
  | objectStorage =>
    obtain ⟨job, hjob, rfl⟩ := map_eq_some_iff.1 hkind
    rw [Provisioned.named, ite_none_right_eq_some] at hnamed
    rw [← hnamed.2, hbucket hnamed.1]
    simpa [storeDestroyJobs, mergeStores, hnamed.1] using hjob.symm
  | cache =>
    obtain ⟨job, hjob, rfl⟩ := map_eq_some_iff.1 hkind
    rw [Provisioned.named, ite_none_right_eq_some] at hnamed
    rw [← hnamed.2, husers.cache hnamed.1]
    simpa [storeDestroyJobs, mergeStores, hnamed.1] using hjob.symm

end names

/-! ### What a move keeps -/

section moves

variable {t : Tenant} {e e' : Estate} {m : EstateMove} {shelf shelf' : Shelf} {job store : Store}

/-- **A Job that ends well takes the store it is for**, unless that is a bucket with
locked objects. -/
theorem takes_self (hlocked : ∀ name, store = .bucket name → name ∉ shelf.locked) :
    shelf.takes store store := by
  match store with
  | .database .postgresql _ _ | .database .mariadb _ _ | .cacheUser _ => simp [Shelf.takes]
  | .bucket name => simp [Shelf.takes, hlocked name rfl]

/-- A job takes what it takes and leaves the rest. -/
theorem stores_destroy (h : shelf.destroy job = some shelf') :
    shelf'.stores = shelf.stores.filter fun held => !shelf.takes job held.2 := by
  match job with
  | .database .mariadb _ _ =>
    rw [Shelf.destroy, ite_none_right_eq_some] at h
    rw [← some.inj h.2]
  | .database .postgresql _ _ | .bucket _ | .cacheUser _ => rw [← some.inj h]

/-- What every run keeps: the stores are on record, the logins are the platform's, and the
Job of a kind that is on record is for the store on record. -/
structure Tidy (t : Tenant) (e : Estate) : Prop extends OnRecord e where
  users : ∀ app, (entryOf e.record app).UsersOf t.name app
  jobs : ∀ app, ∀ step ∈ e.purging app, ∀ store,
    (entryOf e.record app).named step.kind = some store → step.job = some store

theorem tidy_empty (t : Tenant) : Tidy t .empty where
  named := nofun
  forgotten := rfl
  users := fun _ => ⟨nofun, nofun⟩
  jobs := fun _ _ hstep => absurd hstep not_mem_nil

variable {app : String}

variable {rest : List PurgeStep} {iso : Option Isolation}

section

variable (h : Tidy t e)

include h

/-- To provision an app keeps the estate tidy. -/
theorem tidy_provision {profile : Option ComponentProfile} {models : Bool}
    {made : List Kind}
    (hstand : namesStand t e (.provision app iso profile models made))
    (hstep : estateStep t e (.provision app iso profile models made) = some e') : Tidy t e' := by
  cases hstep
  obtain ⟨hidle, hsame⟩ := hstand
  have hentry : ∀ other, other ≠ app → entryOf (recordProvisioned e.record app
      (madeFor { t with isolation := iso } app profile models)).1 other = entryOf e.record other :=
    fun other hne => entryOf_recordProvisioned_of_ne hne
  refine { named := fun held hheld => ?_, forgotten := h.forgotten, users := fun other => ?_,
           jobs := fun other step hmem store hnamed => ?_ }
  · rcases mem_append.1 hheld with hold | hnew
    · obtain ⟨kind, hkind⟩ := h.named held hold
      refine ⟨kind, ?_⟩
      by_cases heq : held.1 = app
      · rw [heq] at hkind ⊢
        rw [entryOf_recordProvisioned, named_merged, named_madeFor]
        cases hmade : (provisionedOf (inventoryOf { t with isolation := iso } app profile)).named kind
          with
        | none => exact hkind
        | some store => rw [hsame kind (mem_appPurgeOrder kind) _ hkind store hmade]; rfl
      · exact (congrArg (Provisioned.named · kind) (hentry _ heq)).trans hkind
    · obtain ⟨store, hstore, rfl⟩ := mem_map.1 hnew
      obtain ⟨kind, -, hkind⟩ := mem_filterMap.1 hstore
      refine ⟨kind, ?_⟩
      rw [entryOf_recordProvisioned, named_merged, hkind]
      rfl
  · by_cases heq : other = app
    · subst heq
      rw [entryOf_recordProvisioned]
      exact usersOf_merged (h.users other) usersOf_madeFor
    · rw [hentry other heq]
      exact h.users other
  · have hne : other ≠ app := by
      rintro rfl
      rw [hidle] at hmem
      cases hmem
    exact h.jobs other step hmem store
      ((congrArg (Provisioned.named · step.kind) (hentry other hne)).symm.trans hnamed)

/-- So does the begin of a purge. -/
theorem tidy_purge {profile : ComponentProfile}
    (hstand : namesStand t e (.purge app iso profile))
    (hstep : estateStep t e (.purge app iso profile) = some e') : Tidy t e' := by
  rw [estateStep, ite_none_right_eq_some] at hstep
  cases hstep.2
  refine { named := h.named, forgotten := h.forgotten, users := h.users,
           jobs := fun other step hmem store hnamed => ?_ }
  change step ∈ update e.purging app _ other at hmem
  by_cases heq : other = app
  · subst heq
    rw [update_self] at hmem
    have husers : (entryOf e.record other).UsersOf ({ t with isolation := iso } : Tenant).name other :=
      h.users other
    exact job_of_mem_purgeSteps husers hstand.1 hstand.2 hmem hnamed
  · rw [update_of_ne heq] at hmem
    exact h.jobs other step hmem store hnamed

section

variable (hless : ∀ held ∈ shelf'.stores, held ∈ e.shelf.stores)

include hless

theorem tidy_abandon :
    Tidy t { e with shelf := shelf', purging := Function.update e.purging app [] } where
  named := fun held hheld => h.named held (hless held hheld)
  forgotten := h.forgotten
  users := h.users
  jobs := fun other step hmem store hnamed => by
    change step ∈ Function.update e.purging app [] other at hmem
    by_cases heq : other = app
    · subst heq
      rw [Function.update_self] at hmem
      cases hmem
    · rw [Function.update_of_ne heq] at hmem
      exact h.jobs other step hmem store hnamed

/-- **A kind is forgotten once its store is gone.** -/
theorem tidy_forget {kind : Kind}
    (hgone : ∀ store, (entryOf e.record app).named kind = some store →
      ∀ held ∈ shelf'.stores, held.2 ≠ store) (hrest : ∀ step ∈ rest, step ∈ e.purging app) :
    Tidy t (e.forget app kind shelf' rest) := by
  have hentry : entryOf (e.forget app kind shelf' rest).record app =
      (entryOf e.record app).without kind := entryOf_forgetProvisioned kind
  have hother : ∀ other, other ≠ app → entryOf (e.forget app kind shelf' rest).record other =
      entryOf e.record other := fun other hne => entryOf_forgetProvisioned_of_ne kind hne
  refine { named := fun held hheld => ?_, forgotten := ?_, users := fun other => ?_,
           jobs := fun other step hmem store hnamed => ?_ }
  · obtain ⟨k, hk⟩ := h.named held (hless held hheld)
    refine ⟨k, ?_⟩
    by_cases heq : held.1 = app
    · rw [heq] at hk ⊢
      have hne : k ≠ kind := by
        rintro rfl
        exact hgone _ hk held hheld rfl
      rw [hentry, named_without_of_ne hne, hk]
    · rw [hother _ heq, hk]
  · have hnone : (((entryOf e.record app).named kind).toList.filter fun store =>
        shelf'.stores.any fun held => held.2 = store) = [] := by
      refine filter_eq_nil_iff.2 fun store hstore => ?_
      have hgone := hgone store (mem_toList.1 hstore)
      simpa using fun name hheld => hgone (name, store) hheld rfl
    exact (congrArg (e.lost ++ ·) hnone).trans (by rw [append_nil, h.forgotten])
  · by_cases heq : other = app
    · subst heq
      rw [hentry]
      exact usersOf_without (h.users other) kind
    · rw [hother other heq]
      exact h.users other
  · by_cases heq : other = app
    · subst heq
      rw [hentry] at hnamed
      have hne : step.kind ≠ kind := by
        rintro heq
        rw [heq, named_without_self] at hnamed
        cases hnamed
      rw [named_without_of_ne hne] at hnamed
      change step ∈ update e.purging other rest other at hmem
      rw [update_self] at hmem
      exact h.jobs other step (hrest step hmem) store hnamed
    · rw [hother other heq] at hnamed
      change step ∈ update e.purging app rest other at hmem
      rw [update_of_ne heq] at hmem
      exact h.jobs other step hmem store hnamed

end

/-- A purge's job takes nothing but what is recorded for the app. -/
theorem of_job {step : PurgeStep} {ends : StepEnd}
    (hstand : namesStand t e (.purgeNext app ends)) (hpurging : e.purging app = step :: rest)
    (hjob : step.job.elim (some e.shelf) e.shelf.destroy = some shelf') :
    (∀ held ∈ shelf'.stores, held ∈ e.shelf.stores) ∧
      ∀ store, (entryOf e.record app).named step.kind = some store →
        ∀ held ∈ shelf'.stores, held.2 ≠ store := by
  have hmem : step ∈ e.purging app := by rw [hpurging]; exact mem_cons_self
  cases hj : step.job with
  | none =>
    rw [hj] at hjob
    cases hjob
    refine ⟨fun _ hheld => hheld, fun store hnamed => ?_⟩
    exact absurd (h.jobs app step hmem store hnamed) (by simp [hj])
  | some job =>
    rw [hj] at hjob
    have hstores := stores_destroy hjob
    refine ⟨fun held hheld => ?_, fun store hnamed held hheld heq => ?_⟩
    · rw [hstores] at hheld
      exact (mem_filter.1 hheld).1
    · have hsame : job = store := some.inj (hj.symm.trans (h.jobs app step hmem store hnamed))
      subst hsame
      rw [hstores] at hheld
      have hkept := (mem_filter.1 hheld).2
      rw [heq, takes_self] at hkept
      · cases hkept
      · -- the bucket on record is the one whose objects are not locked
        rintro name rfl
        have hkind := kind_of_named hnamed
        have hbucket : (entryOf e.record app).bucket = name := by
          rw [← hkind, Store.kind, Provisioned.named, ite_none_right_eq_some] at hnamed
          exact Store.bucket.inj (some.inj hnamed.2)
        rw [← hbucket]
        exact hstand step (by rw [hpurging]; rfl) hkind.symm

/-- **One move keeps the stores on record.** -/
theorem tidy_estateStep (hstand : namesStand t e m)
    (hstep : estateStep t e m = some e') : Tidy t e' := by
  cases m with
  | provision app iso profile _ _ => exact tidy_provision h hstand hstep
  | purge app iso profile => exact tidy_purge h hstand hstep
  | purgeNext app ends =>
    rw [estateStep] at hstep
    split at hstep
    · cases hstep
    next step _ hpurging =>
      cases ends with
      | jobFailed =>
        cases hstep
        exact tidy_abandon h fun _ hheld => hheld
      | notForgotten =>
        obtain ⟨shelf, hjob, rfl⟩ := map_eq_some_iff.1 hstep
        exact tidy_abandon h (of_job h hstand hpurging hjob).1
      | done =>
        obtain ⟨shelf, hjob, rfl⟩ := map_eq_some_iff.1 hstep
        obtain ⟨hless, hgone⟩ := of_job h hstand hpurging hjob
        exact tidy_forget h hless hgone fun step hmem => by
          rw [hpurging]
          exact mem_cons_of_mem _ hmem
  | lock bucket | unlock bucket =>
    cases hstep
    exact { named := h.named, forgotten := h.forgotten, users := h.users, jobs := h.jobs }

end

end moves

/-- **A store that was provisioned and not destroyed is on record, and a purge destroys the
store on record**, in every state that a run reaches in which the names of the stores on
record stand. -/
theorem stores_on_record {t : Tenant} {e : Estate} {ms : List EstateMove}
    (hm : Runs.Meets (estateStep t) (namesStand t) .empty ms)
    (hr : Runs.run (estateStep t) .empty ms = some e) : OnRecord e :=
  (Runs.invariant (fun _ _ _ h hstand hstep => tidy_estateStep h hstand hstep) (tidy_empty t) hm
    hr).toOnRecord

/-- A profile that declares a MariaDB database, a bucket and a cache. -/
def wholeProfile : ComponentProfile := ⟨[], none, some .mariadb, true, some .redis, false⟩

/-- An app is provisioned twice and purged, the first time with a Job that fails. -/
def wholeLife : List EstateMove :=
  [.provision "wiki" none (some wholeProfile) false [.database, .objectStorage],
    .provision "wiki" none (some wholeProfile) false [.database, .objectStorage, .cache],
    .purge "wiki" none wholeProfile, .purgeNext "wiki" .done, .purgeNext "wiki" .jobFailed,
    .purge "wiki" none wholeProfile, .purgeNext "wiki" .done, .purgeNext "wiki" .done,
    .purgeNext "wiki" .done]

theorem whole_stores_on_record :
    ∃ e, Runs.run (estateStep (plainTenant "demo")) .empty wholeLife = some e ∧ OnRecord e ∧
      e.shelf.stores = [] ∧ e.record "wiki" = none := by
  have hr : Runs.run (estateStep (plainTenant "demo")) .empty wholeLife = some _ :=
    (some_get (by decide +kernel)).symm
  exact ⟨_, hr, stores_on_record (by decide +kernel) hr, by decide +kernel⟩

/-- **A store is lost.**  The tenant states another prefix for its buckets after an app
was provisioned.  The app is provisioned again, and the first bucket is on record no
more; or it is purged, and its bucket is forgotten and left. -/
theorem store_lost : ∃ t moved profile, ∀ purged : Bool, ∃ e,
    Runs.run (estateStep t) .empty (.provision "wiki" none (some profile) false [.objectStorage] ::
      if purged then [.purge "wiki" moved profile, .purgeNext "wiki" .done, .purgeNext "wiki" .done]
      else [.provision "wiki" moved (some profile) false [.objectStorage]]) = some e ∧
    ("wiki", .bucket "demo-wiki") ∈ e.shelf.stores ∧
    (∀ kind, (entryOf e.record "wiki").named kind ≠ some (.bucket "demo-wiki")) ∧
    (purged = true → e.lost = [.bucket "demo-wiki"]) := by
  refine ⟨plainTenant "demo", some ⟨"", "", "", "other-"⟩, wholeProfile, fun purged => ?_⟩
  cases purged with
  | true =>
    exact ⟨_, (some_get (by decide +kernel)).symm, by decide +kernel,
      fun kind => by cases kind <;> decide +kernel, fun _ => by decide +kernel⟩
  | false =>
    exact ⟨_, (some_get (by decide +kernel)).symm, by decide +kernel,
      fun kind => by cases kind <;> decide +kernel, nofun⟩

end Gentian.Backup
