/-
# The names of a tenant's stores

`NamesOf`, `NamesTaken` and the store names of `internal/backup/inventory.go`:

| store | name |
| --- | --- |
| database | database prefix, then the app with `_` for `-` |
| PostgreSQL role | tenant, `_`, app |
| MariaDB user | tenant, `_`, app, both with `_` for `-` |
| bucket | bucket prefix, then the app |
| cache user | tenant, `-`, app |
| `Database` object | `db-`, tenant, `-`, app |
| backup bucket | bucket prefix, then `gentian-backup` |

`NamesTaken` asks that the prefixes of two tenants differ.  A prefix that begins another one
is not refused, and the stores of two apps can then have one name.
-/

import Gentian.Api.Names

namespace Gentian.Backup

open GoStrings String

/-! ### Tenants -/

/-- `TenantIsolation`. -/
structure Isolation where
  inNamespace : String
  keycloakRealm : String
  databasePrefix : String
  s3Prefix : String
deriving DecidableEq

/-- `TenantApp`: an entry of `spec.apps`, with the profile that its `profileRef` names
and whether the platform placed it. -/
structure TenantApp where
  profile : String
  profileRef : String
  placed : Bool
  addons : List String
deriving DecidableEq

/-- `Tenant`, with the reason its handover annotation gives and the most apps its
quotas allow, zero for no limit. -/
structure Tenant where
  name : String
  handoverOverride : String
  isolation : Option Isolation
  maxApps : ℤ
  apps : List TenantApp
deriving DecidableEq

/-! ### Profiles -/

/-- The engines a database can have. -/
inductive DatabaseEngine where
  | postgresql
  | mariadb
deriving DecidableEq

/-- The engines a cache can have. -/
inductive CacheEngine where
  | redis
  | memcached
deriving DecidableEq

/-- `ComponentProfile`: its extensions, its chart's name and the services it requires. -/
structure ComponentProfile where
  extensions : List String
  chart : Option String
  database : Option DatabaseEngine
  s3 : Bool
  cache : Option CacheEngine
  llm : Bool
deriving DecidableEq

/-- Which stores an app has. -/
structure Stores where
  database : Option DatabaseEngine
  s3 : Bool
  redis : Bool
deriving DecidableEq

/-- `ProfileStores`: the stores a profile asks for. -/
def profileStores : Option ComponentProfile → Stores
  | none => ⟨none, false, false⟩
  | some p => ⟨p.database, p.s3, p.cache = some .redis⟩

/-- The extensions of a profile that have a name. -/
def sidecarNames : Option ComponentProfile → List String
  | none => []
  | some p => p.extensions.filter fun name => name ≠ ""

/-! ### The three names -/

/-- The character that `s3Safe` writes for one. -/
def s3SafeChar (c : Char) : Char :=
  if Api.isLabelChar c then c else if Api.isUpper c then c.toLower else '-'

/-- `s3Safe`: a text with what a bucket's name cannot hold replaced. -/
def s3Safe (value : String) : String := String.ofList (value.toList.map s3SafeChar)

/-- The names all of a tenant's stores are built from. -/
structure TenantNames where
  realm : String
  databasePrefix : String
  bucketPrefix : String
deriving DecidableEq

/-- What a manifest states, or else what the platform's rule says. -/
def statedOr (stated rule : String) : String := if stated ≠ "" then stated else rule

/-- `namesOf`: a tenant's names, as it states them or by its own name. -/
def namesOf (t : Tenant) : TenantNames :=
  let iso := t.isolation.getD ⟨"", "", "", ""⟩
  { realm := statedOr iso.keycloakRealm t.name
    databasePrefix := replaceAll (statedOr iso.databasePrefix (t.name ++ "_")) '-' '_'
    bucketPrefix := s3Safe (statedOr iso.s3Prefix (t.name ++ "-")) }

/-- The namespace of a tenant. -/
def Tenant.namespaceName (t : Tenant) : String :=
  statedOr (t.isolation.getD ⟨"", "", "", ""⟩).inNamespace ("tenant-" ++ t.name)

/-! ### Names that are taken -/

/-- Which of the names is another's. -/
inductive NameKind where
  | realm
  | databasePrefix
  | bucketPrefix
deriving DecidableEq

/-- A name that is another tenant's. -/
structure Clash where
  kind : NameKind
  value : String
  other : String
deriving DecidableEq

/-- What the refusal says of one name. -/
def Clash.text (c : Clash) : String :=
  let what := match c.kind with
    | .realm => "the realm"
    | .databasePrefix => "the database prefix"
    | .bucketPrefix => "the bucket prefix"
  what ++ " \"" ++ c.value ++ "\" is tenant " ++ c.other ++ "'s"

/-- `ErrNamesTaken`, of the tenant that is refused. -/
structure NamesTakenError where
  tenant : String
  clashes : List Clash
deriving DecidableEq

/-- What the refusal says. -/
def NamesTakenError.text (e : NamesTakenError) : String :=
  "a name this tenant would use is another tenant's: tenant \"" ++ e.tenant ++
    "\" is refused, because " ++
    "; ".intercalate ((e.clashes.map Clash.text).mergeSort fun a b => decide (a ≤ b)) ++
    ". Two tenants with one of these in common share the thing itself; give the tenant names " ++
    "of its own (spec.isolation), or leave them out so that they follow from its name"

/-- The clashes of a tenant's names with those of another. -/
def clashesWith (mine : TenantNames) (other : Tenant) : List Clash :=
  let theirs := namesOf other
  (if mine.realm = theirs.realm then [⟨.realm, mine.realm, other.name⟩] else []) ++
  (if mine.databasePrefix = theirs.databasePrefix then
    [⟨.databasePrefix, mine.databasePrefix, other.name⟩] else []) ++
  (if mine.bucketPrefix = theirs.bucketPrefix then
    [⟨.bucketPrefix, mine.bucketPrefix, other.name⟩] else [])

/-- `NamesTaken`: refuses a tenant one of whose names another has. -/
def namesTaken (candidate : Tenant) (others : List Tenant) : Except NamesTakenError Unit :=
  let clashes := others.flatMap fun other =>
    if other.name = candidate.name then [] else clashesWith (namesOf candidate) other
  if clashes.isEmpty then .ok () else .error ⟨candidate.name, clashes⟩

/-- Two tenants that share no name. -/
def NamesApart (t u : Tenant) : Prop :=
  (namesOf t).realm ≠ (namesOf u).realm ∧
    (namesOf t).databasePrefix ≠ (namesOf u).databasePrefix ∧
    (namesOf t).bucketPrefix ≠ (namesOf u).bucketPrefix
deriving Decidable

theorem NamesApart.symm {t u : Tenant} (h : NamesApart t u) : NamesApart u t :=
  ⟨h.1.symm, h.2.1.symm, h.2.2.symm⟩

instance NamesApart.isSymm : Std.Symm NamesApart := ⟨fun _ _ => NamesApart.symm⟩

/-- **A tenant that is accepted has names of its own.** -/
theorem namesApart_of_ok {t u : Tenant} {ts : List Tenant} (h : namesTaken t ts = .ok ())
    (hu : u ∈ ts) (hname : u.name ≠ t.name) : NamesApart t u := by
  rw [namesTaken] at h
  split_ifs at h with hempty
  have hclash := List.flatMap_eq_nil_iff.1 (List.isEmpty_iff.1 hempty) u hu
  rw [if_neg hname] at hclash
  simp only [clashesWith, List.append_eq_nil_iff, ite_eq_right_iff, List.cons_ne_nil] at hclash
  exact ⟨hclash.1.1, hclash.1.2, hclash.2⟩

/-! ### The stores -/

/-- `DatabaseName`. -/
def databaseName (t : Tenant) (app : String) : String :=
  (namesOf t).databasePrefix ++ replaceAll app '-' '_'

/-- `PostgresRole`. -/
def postgresRole (tenantName app : String) : String := tenantName ++ "_" ++ app

/-- `MariaDBUser`. -/
def mariadbUser (tenantName app : String) : String :=
  replaceAll tenantName '-' '_' ++ "_" ++ replaceAll app '-' '_'

/-- `S3Bucket`. -/
def s3Bucket (t : Tenant) (app : String) : String := (namesOf t).bucketPrefix ++ s3Safe app

/-- `BackupBucket`. -/
def backupBucket (t : Tenant) : String := (namesOf t).bucketPrefix ++ "gentian-backup"

/-- `RedisACLUser`. -/
def redisACLUser (tenantName app : String) : String := tenantName ++ "-" ++ app

/-- `CNPGDatabaseCR`. -/
def cnpgDatabaseCR (tenantName app : String) : String := "db-" ++ tenantName ++ "-" ++ app

/-- The names that are the platform's own stores. -/
def isPlatformStore (name : String) : Bool :=
  name = "shell" || name = "gentian-backup" || name = "gentian-mail"

/-! ### One owner of each store -/

/-- A cluster's tenants: their names are valid and their own, and each of them is one
that `NamesTaken` accepts beside the others. -/
structure Accepted (ts : List Tenant) : Prop where
  valid : ∀ t ∈ ts, Api.validTenantName t.name = true
  named : ∀ t ∈ ts, ∀ u ∈ ts, t.name = u.name → t = u
  accepted : ∀ t ∈ ts, namesTaken t ts = .ok ()

instance Accepted.decidable (ts : List Tenant) : Decidable (Accepted ts) :=
  decidable_of_iff ((∀ t ∈ ts, Api.validTenantName t.name = true) ∧
      (∀ t ∈ ts, ∀ u ∈ ts, t.name = u.name → t = u) ∧ ∀ t ∈ ts, (namesTaken t ts).isOk = true)
    ⟨fun ⟨hv, hn, ha⟩ => ⟨hv, hn, fun t ht => by
      have := ha t ht
      cases h : namesTaken t ts with
      | error e => rw [h] at this; cases this
      | ok _ => rfl⟩,
    fun h => ⟨h.valid, h.named, fun t ht => by rw [h.accepted t ht]; rfl⟩⟩

/-- No app of one tenant has the name of a store that another app, of the other tenant or of the
same, has. -/
def OneOwner (name : Tenant → String → String) (t u : Tenant) : Prop :=
  ∀ app app', Api.dnsLabel app = true → Api.dnsLabel app' = true →
    name t app = name u app' → t = u ∧ app = app'

/-- **No two apps of two tenants share a store**, and no app's bucket is the other tenant's backup
bucket, where the app has none of the `reserved` names. -/
structure StoresApart (reserved : String → Bool) (t u : Tenant) : Prop where
  database : OneOwner databaseName t u
  role : OneOwner (fun t => postgresRole t.name) t u
  user : OneOwner (fun t => mariadbUser t.name) t u
  bucket : OneOwner s3Bucket t u
  cacheUser : OneOwner (fun t => redisACLUser t.name) t u
  databaseObject : OneOwner (fun t => cnpgDatabaseCR t.name) t u
  backup : ∀ app, Api.dnsLabel app = true → reserved app = false →
    s3Bucket t app ≠ backupBucket u

/-- The database prefix as it reads before the hyphens of the app are written as underscores. -/
def hyphenated (t : Tenant) : String := replaceAll (namesOf t).databasePrefix '_' '-'

/-- A label that is none of the platform's own stores ends the backup bucket of a tenant after the
bucket prefix of another. -/
def reachesBackup (t u : Tenant) : Bool :=
  hasPrefix (backupBucket u) (namesOf t).bucketPrefix &&
    Api.dnsLabel (trimPrefix (backupBucket u) (namesOf t).bucketPrefix) &&
    !isPlatformStore (trimPrefix (backupBucket u) (namesOf t).bucketPrefix)

/-- No prefix of one tenant goes on as a label may begin to a prefix of another: not the name and
a hyphen, not the database prefix, not the bucket prefix. -/
def PrefixesApart (t u : Tenant) : Prop :=
  t ≠ u → Api.mayMeet 61 (t.name ++ "-") (u.name ++ "-") = false ∧
    Api.mayMeet 61 (hyphenated t) (hyphenated u) = false ∧
    Api.mayMeet 61 (namesOf t).bucketPrefix (namesOf u).bucketPrefix = false ∧
    reachesBackup t u = false
deriving Decidable

/-- A label can stand in a bucket's name as it is. -/
theorem s3Safe_of_dnsLabel {app : String} (h : Api.dnsLabel app) : s3Safe app = app := by
  have hchars : app.toList.map s3SafeChar = app.toList :=
    (List.map_congr_left fun c hc => by
      simp [s3SafeChar, Api.isLabelChar_of_dnsLabel h c hc]).trans (List.map_id _)
  rw [s3Safe, hchars, ofList_toList]

/-- **A store whose name tells as much as a prefix and the app** has one owner exactly when the
prefixes of the two tenants cannot meet. -/
theorem oneOwner_iff {name : Tenant → String → String} (first : Tenant → String) {t u : Tenant}
    (hname : ∀ app app', Api.dnsLabel app → Api.dnsLabel app' →
      (name t app = name u app' ↔ first t ++ app = first u ++ app')) :
    OneOwner name t u ↔ (t ≠ u → Api.mayMeet 61 (first t) (first u) = false) := by
  constructor
  · intro howner hne
    rw [Bool.eq_false_iff]
    intro hmeet
    obtain ⟨app, app', happ, happ', heq⟩ := Api.mayMeet_iff.1 hmeet
    exact hne (howner app app' happ happ' ((hname app app' happ happ').2 heq)).1
  · intro hapart app app' happ happ' heq
    rw [hname app app' happ happ'] at heq
    by_cases htu : t = u
    · subst htu
      exact ⟨rfl, (append_right_inj _).1 heq⟩
    · have hmeet := Api.mayMeet_iff.2 ⟨app, app', happ, happ', heq⟩
      rw [hapart htu] at hmeet
      cases hmeet

/-- **A role's name says whose it is**, whatever the tenants are called. -/
theorem oneOwner_postgresRole {ts : List Tenant} (h : Accepted ts) {t u : Tenant} (ht : t ∈ ts)
    (hu : u ∈ ts) : OneOwner (fun t => postgresRole t.name) t u := by
  intro app app' _ _ heq
  simp only [postgresRole, append_assoc] at heq
  obtain ⟨hname, happ⟩ := append_inj rfl (Api.not_mem_of_validTenantName (h.valid t ht) (by decide))
    (Api.not_mem_of_validTenantName (h.valid u hu) (by decide)) heq
  exact ⟨h.named t ht u hu hname, happ⟩

/-- Two databases have one name exactly when the hyphenated joins are one. -/
theorem databaseName_eq_iff {t u : Tenant} {app app' : String} (happ : Api.dnsLabel app)
    (happ' : Api.dnsLabel app') :
    databaseName t app = databaseName u app' ↔ hyphenated t ++ app = hyphenated u ++ app' := by
  have hjoin : ∀ t app, Api.dnsLabel app →
      replaceAll (databaseName t app) '_' '-' = hyphenated t ++ app := by
    intro t app happ
    rw [databaseName, replaceAll_append,
      replaceAll_replaceAll (Api.not_mem_of_dnsLabel happ (by decide))]
    rfl
  have hfree : ∀ t app, '-' ∉ (databaseName t app).toList := by
    intro t app hmem
    rw [databaseName, toList_append, List.mem_append] at hmem
    exact hmem.elim (not_mem_replaceAll _ (by decide)) (not_mem_replaceAll _ (by decide))
  rw [← hjoin t app happ, ← hjoin u app' happ']
  exact ⟨fun h => h ▸ rfl, fun h => replaceAll_inj (hfree t app) (hfree u app') h⟩

/-- Two users of MariaDB have one name exactly when the hyphenated joins are one: the user's name
is the join with every hyphen written as an underscore. -/
theorem mariadbUser_eq_iff {n n' app app' : String} (hn : Api.validTenantName n)
    (hn' : Api.validTenantName n') (happ : Api.dnsLabel app) (happ' : Api.dnsLabel app') :
    mariadbUser n app = mariadbUser n' app' ↔ n ++ "-" ++ app = n' ++ "-" ++ app' := by
  have hjoin : ∀ n app, mariadbUser n app = replaceAll (n ++ "-" ++ app) '-' '_' := by
    intro n app
    rw [replaceAll_append, replaceAll_append]
    rfl
  have hfree : ∀ n app, Api.validTenantName n → Api.dnsLabel app →
      '_' ∉ (n ++ "-" ++ app).toList := by
    intro n app hn happ hmem
    rw [toList_append, toList_append, List.mem_append, List.mem_append] at hmem
    rcases hmem with (hmem | hmem) | hmem
    · exact Api.not_mem_of_validTenantName hn (by decide) hmem
    · exact absurd hmem (by decide)
    · exact Api.not_mem_of_dnsLabel happ (by decide) hmem
  rw [hjoin, hjoin]
  exact ⟨replaceAll_inj (hfree n app hn happ) (hfree n' app' hn' happ'), fun h => h ▸ rfl⟩

/-- A tenant's app has the backup bucket of another exactly when a name that is not reserved ends
it; it never has its own tenant's. -/
theorem backup_iff {t u : Tenant} : (∀ app, Api.dnsLabel app = true →
      isPlatformStore app = false → s3Bucket t app ≠ backupBucket u) ↔
    (t ≠ u → reachesBackup t u = false) := by
  constructor
  · intro hnone _
    rw [Bool.eq_false_iff]
    intro hreach
    simp only [reachesBackup, Bool.and_eq_true, Bool.not_eq_true'] at hreach
    obtain ⟨⟨hstart, hlabel⟩, hstore⟩ := hreach
    obtain ⟨rest, hrest⟩ := hasPrefix_iff.1 hstart
    rw [hrest, trimPrefix_append] at hlabel hstore
    exact hnone rest hlabel hstore (by rw [s3Bucket, s3Safe_of_dnsLabel hlabel, hrest])
  · intro hreach app happ hstore heq
    rw [s3Bucket, s3Safe_of_dnsLabel happ] at heq
    by_cases htu : t = u
    · subst htu
      rw [backupBucket, append_right_inj] at heq
      rw [heq] at hstore
      cases hstore
    · have := hreach htu
      rw [reachesBackup, ← heq] at this
      simp [happ, hstore] at this

/-- A tenant that states nothing. -/
def plainTenant (name : String) : Tenant := ⟨name, "", none, 0, []⟩

/-- Tenants that state nothing but their names. -/
def plainTenants (names : List String) : List Tenant := names.map plainTenant

end Gentian.Backup
