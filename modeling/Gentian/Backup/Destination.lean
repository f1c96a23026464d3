/-
# Where a backup goes

`ResolveEffective`, `ApplyExportDestination` and `BundlePrefix` of
`internal/backup/policy.go`, and the bundle that `Reconcile` of
`internal/controller/tenantexport_controller.go` assigns to an export that goes there.
Of four statements the last one that says where a bundle goes counts:

| statement | by | without a bucket |
| --- | --- | --- |
| the platform's own storage | no one | the tenant's |
| the cluster's policy | the cluster's administrators | what was there before |
| the tenant's policy | the tenant's administrators | what was there before |
| the export's destination | who asks for the export | what was there before |

The credential of an export with its own endpoint stays too, unless it brings its own keys.
So an endpoint that a tenant chooses is used with the bucket of the cluster's policy
(`endpoint_with_cluster_bucket`).
-/

import Gentian.Backup.Inventory

namespace Gentian.Backup

open GoStrings Option

/-! ### Policies -/

/-- How a bucket is addressed. -/
inductive S3AddressingStyle where
  | unset
  | path
  | virtualHost
deriving DecidableEq

/-- `BackupDestination`: where a policy sends exports. -/
structure BackupDestination where
  endpoint : String
  bucket : String
  region : String
  addressingStyle : S3AddressingStyle
deriving DecidableEq

/-- Whether a destination states an endpoint or a bucket. -/
def BackupDestination.isSet (d : BackupDestination) : Bool := d.endpoint ≠ "" || d.bucket ≠ ""

/-- A store outside of the cluster asks for a credential. -/
def BackupDestination.needsCredential (d : BackupDestination) : Bool := d.endpoint ≠ ""

/-- Whom a policy is for. -/
inductive PolicyScope where
  | cluster
  | tenant
deriving DecidableEq

/-- `BackupPolicySpec`.  `encryption` is the recipients of its encryption block. -/
structure BackupPolicy where
  scope : PolicyScope
  tenant : String
  destination : Option BackupDestination
  encryption : Option (List String)
  allowTenantOverride : Option Bool
deriving DecidableEq

/-- The destination a policy states, if it states one. -/
def BackupPolicy.sets (p : BackupPolicy) : Option BackupDestination :=
  p.destination.filter BackupDestination.isSet

/-- The recipients a policy sets: `BackupEncryption.IsSet`. -/
def BackupPolicy.recipients (p : BackupPolicy) : Option (List String) :=
  p.encryption.filter fun rs => rs ≠ []

/-- Whether a tenant may have a policy of its own; it may unless that is denied. -/
def BackupPolicy.overrideAllowed (p : BackupPolicy) : Bool := p.allowTenantOverride.getD true

/-- What names the owner of a policy's Secret. -/
def scopeTag (scope : PolicyScope) (tenant : String) : String :=
  if scope = .tenant && tenant ≠ "" then tenant else "cluster"

/-- The credential of a policy's destination. -/
def destinationCredentialName (scope : PolicyScope) (tenant : String) : String :=
  if scope = .tenant && tenant ≠ "" then "backup-destination-" ++ tenant else "backup-destination"

/-- The Secret of a policy's destination. -/
def destinationSecretName (scope : PolicyScope) (tenant : String) : String :=
  "backup-destination-" ++ scopeTag scope tenant

/-- The Secret of an export's own destination. -/
def exportCredentialSecretName (tenantName exportName : String) : String :=
  "tenant-export-destination-" ++ tenantName ++ "-" ++ exportName

/-! ### What a tenant's backups do -/

/-- Where an export goes, and with which credential. -/
structure Effective where
  endpoint : String
  bucket : String
  region : String
  addressingStyle : S3AddressingStyle
  credentialName : String
  credentialSecret : String
  recipients : List String
  overridden : Bool
deriving DecidableEq

/-- `PlatformStorage`, of a tenant without any policy. -/
def Effective.platform (t : Tenant) : Effective :=
  ⟨"", backupBucket t, "", .unset, "", "", [], false⟩

/-- The destination with what a policy states put in place. -/
def Effective.goesTo (eff : Effective) (p : BackupPolicy) (d : BackupDestination) : Effective :=
  { eff with
    endpoint := d.endpoint
    region := d.region
    addressingStyle := d.addressingStyle
    credentialName := if d.needsCredential then destinationCredentialName p.scope p.tenant else ""
    credentialSecret := if d.needsCredential then destinationSecretName p.scope p.tenant else ""
    bucket := if d.bucket ≠ "" then d.bucket else eff.bucket }

/-- `apply` of `ResolveEffective`. -/
def Effective.apply (eff : Effective) (p : BackupPolicy) : Effective :=
  let eff := match p.sets with
    | some d => eff.goesTo p d
    | none => eff
  match p.recipients with
  | some recipients => { eff with recipients := recipients }
  | none => eff

/-- The destination that the cluster's policy leaves. -/
def clusterEffective (t : Tenant) (cluster : Option BackupPolicy) : Effective :=
  match cluster with
  | some p => (Effective.platform t).apply p
  | none => .platform t

/-- `ResolveEffective`: the platform's destination, then the cluster's policy, then the tenant's
own. -/
def resolveEffective (t : Tenant) (cluster override : Option BackupPolicy) :
    Except String Effective :=
  let eff := clusterEffective t cluster
  match override with
  | none => .ok eff
  | some p =>
    let overrideAllowed := (cluster.map BackupPolicy.overrideAllowed).getD true
    if !overrideAllowed && (p.sets.isSome || p.recipients.isSome) then
      .error ("this cluster does not permit tenants to set their own backup policy " ++
        "(allowTenantOverride is false)")
    else
      let after := eff.apply p
      .ok (if p.sets.isSome || after.endpoint ≠ eff.endpoint then { after with overridden := true }
        else after)

/-! ### What one export does -/

/-- `ExportDestinationMode`. -/
inductive DestinationMode where
  | unset
  | policy
  | platform
  | custom
  | source
deriving DecidableEq

/-- `ExportCredentialSource`. -/
inductive CredentialSource where
  | unset
  | managed
  | transient
deriving DecidableEq

/-- The destination an export itself may state. -/
structure ExportDestination where
  mode : DestinationMode
  endpoint : String
  bucket : String
  region : String
  addressingStyle : S3AddressingStyle
  source : String
  credentialSource : CredentialSource
deriving DecidableEq

/-- `Resolved`. -/
def resolvedMode (d : Option ExportDestination) : DestinationMode :=
  match d with
  | none => .policy
  | some d => if d.mode = .unset then .policy else d.mode

/-- Where the credential comes from; it is a managed one unless stated. -/
def ExportDestination.resolvedCredentialSource (d : ExportDestination) : CredentialSource :=
  if d.credentialSource = .unset then .managed else d.credentialSource

/-- `ApplyExportDestination` of a destination of its own. -/
def Effective.custom (eff : Effective) (d : ExportDestination) (t : Tenant) (exportName : String) :
    Effective :=
  let transient := d.resolvedCredentialSource = .transient
  { eff with
    endpoint := d.endpoint
    region := d.region
    addressingStyle := d.addressingStyle
    bucket := if d.bucket ≠ "" then d.bucket else eff.bucket
    credentialName := if transient then "" else eff.credentialName
    credentialSecret :=
      if transient then exportCredentialSecretName t.name exportName else eff.credentialSecret
    overridden := true }

/-- What an export's own statement makes of the destination. -/
def applyExportDestination (eff : Effective) (d : Option ExportDestination) (t : Tenant)
    (exportName : String) : Effective :=
  match resolvedMode d, d with
  | .platform, _ =>
    { eff with
      endpoint := "", region := "", addressingStyle := .unset
      credentialName := "", credentialSecret := ""
      bucket := backupBucket t
      overridden := true }
  | .custom, some d => eff.custom d t exportName
  | _, _ => eff

/-- Where the bundle of an export is. -/
structure BundleRef where
  bucket : String
  below : String
  endpoint : String
  region : String
  addressingStyle : S3AddressingStyle
  credentialSecret : String
deriving DecidableEq

/-- What the objects of a bundle begin with. -/
def bundlePrefix (eff : Effective) (t : Tenant) (exportName : String) : String :=
  if eff.endpoint = "" && eff.bucket = backupBucket t then exportName
  else t.name ++ "/" ++ exportName

/-- The bundle of an export at its destination. -/
def Effective.bundle (eff : Effective) (t : Tenant) (exportName : String) : BundleRef where
  bucket := eff.bucket
  below := bundlePrefix eff t exportName
  endpoint := eff.endpoint
  region := eff.region
  addressingStyle := eff.addressingStyle
  credentialSecret := eff.credentialSecret

/-! ### One place -/

/-- A place a bundle can be at: a store, a bucket in it and a credential for it. -/
structure Place where
  endpoint : String
  region : String
  addressingStyle : S3AddressingStyle
  bucket : String
  credentialName : String
  credentialSecret : String
deriving DecidableEq

/-- The place of a destination. -/
def Effective.place (eff : Effective) : Place :=
  ⟨eff.endpoint, eff.region, eff.addressingStyle, eff.bucket, eff.credentialName,
    eff.credentialSecret⟩

/-- Who states where an export goes. -/
inductive Statement where
  | platform
  | policy (p : BackupPolicy) (d : BackupDestination)
  | custom (d : ExportDestination)
deriving DecidableEq

/-- The place that a statement is about, by itself.  A bucket that is not named is the
tenant's own, and an export's keys are its own. -/
def Statement.place (t : Tenant) (exportName : String) : Statement → Place
  | .platform => ⟨"", "", .unset, backupBucket t, "", ""⟩
  | .policy p d =>
    ⟨d.endpoint, d.region, d.addressingStyle, if d.bucket = "" then backupBucket t else d.bucket,
      if d.needsCredential then destinationCredentialName p.scope p.tenant else "",
      if d.needsCredential then destinationSecretName p.scope p.tenant else ""⟩
  | .custom d =>
    ⟨d.endpoint, d.region, d.addressingStyle, if d.bucket = "" then backupBucket t else d.bucket,
      "", exportCredentialSecretName t.name exportName⟩

/-- The last statement of the policies. -/
def policyStatement (cluster override : Option BackupPolicy) : Statement :=
  match override.bind fun p => p.sets.map (Statement.policy p) with
  | some s => s
  | none => ((cluster.bind fun p => p.sets.map (Statement.policy p))).getD .platform

/-- The last statement there is. -/
def lastStatement (cluster override : Option BackupPolicy) (d : Option ExportDestination) :
    Statement :=
  match resolvedMode d, d with
  | .platform, _ => .platform
  | .custom, some d => .custom d
  | _, _ => policyStatement cluster override

/-- The bucket a policy names. -/
def bucketNamed (p : Option BackupPolicy) : String :=
  ((p.bind BackupPolicy.sets).map BackupDestination.bucket).getD ""

/-- The bucket that the policies leave. -/
def bucketOf (t : Tenant) (cluster override : Option BackupPolicy) : String :=
  if bucketNamed override ≠ "" then bucketNamed override
  else if bucketNamed cluster ≠ "" then bucketNamed cluster
  else backupBucket t

/-- Where no bucket is named by the statement that counts, those before it leave the tenant's own;
and an export with its own endpoint brings its keys. -/
def statedWhole (t : Tenant) (cluster override : Option BackupPolicy)
    (d : Option ExportDestination) : Prop :=
  match resolvedMode d, d with
  | .platform, _ => True
  | .custom, some own => own.resolvedCredentialSource = .transient ∧
      (own.bucket = "" → bucketOf t cluster override = backupBucket t)
  | _, _ => (override.bind BackupPolicy.sets).isSome = true → bucketNamed override = "" →
      bucketOf t cluster none = backupBucket t

instance statedWhole.decidable (t : Tenant) (cluster override : Option BackupPolicy)
    (d : Option ExportDestination) : Decidable (statedWhole t cluster override d) := by
  unfold statedWhole
  split <;> infer_instance

section place

variable {t : Tenant} {cluster override : Option BackupPolicy} {d : Option ExportDestination}
  {eff : Effective} {exportName : String} {p : BackupPolicy}

/-- A policy that sets no destination changes no place. -/
theorem apply_place_of_none (h : p.sets = none) : (eff.apply p).place = eff.place := by
  rw [Effective.apply, h]
  split <;> rfl

variable {dest : BackupDestination}

/-- One that does sets the place. -/
theorem apply_place_of_some (h : p.sets = some dest) :
    (eff.apply p).place = (eff.goesTo p dest).place := by
  rw [Effective.apply, h]
  split <;> rfl

theorem bucketNamed_of_sets (h : p.sets = some dest) : bucketNamed (some p) = dest.bucket := by
  simp [bucketNamed, h]

theorem bucketNamed_of_not_sets (h : p.sets = none) : bucketNamed (some p) = "" := by
  simp [bucketNamed, h]

/-- The tenant's policy has the last word when it sets a destination. -/
theorem policyStatement_of_sets (h : p.sets = some dest) :
    policyStatement cluster (some p) = .policy p dest := by
  simp [policyStatement, h]

theorem policyStatement_of_not_sets (h : p.sets = none) :
    policyStatement cluster (some p) = policyStatement cluster none := by
  simp [policyStatement, h]

/-- **The cluster's policy alone** gives the place of its statement, with the bucket it leaves. -/
theorem clusterEffective_place (t : Tenant) (cluster : Option BackupPolicy) (exportName : String) :
    (clusterEffective t cluster).place = (policyStatement cluster none).place t exportName ∧
      (clusterEffective t cluster).bucket = bucketOf t cluster none := by
  cases cluster with
  | none => exact ⟨rfl, rfl⟩
  | some p =>
    cases hsets : p.sets with
    | none =>
      have hplace : (clusterEffective t (some p)).place = (Effective.platform t).place :=
        apply_place_of_none hsets
      refine ⟨?_, (congrArg Place.bucket hplace).trans ?_⟩
      · rw [hplace, policyStatement, Option.bind_some, hsets]
        rfl
      · rw [bucketOf, bucketNamed_of_not_sets hsets]
        rfl
    | some dest =>
      have hplace : (clusterEffective t (some p)).place =
          ((Effective.platform t).goesTo p dest).place := apply_place_of_some hsets
      refine ⟨?_, (congrArg Place.bucket hplace).trans ?_⟩
      · rw [hplace, policyStatement, Option.bind_some, hsets]
        by_cases hb : dest.bucket = "" <;>
          simp [Effective.place, Effective.goesTo, Effective.platform, Statement.place, hb]
      · rw [bucketOf, bucketNamed_of_sets hsets]
        by_cases hb : dest.bucket = "" <;>
          simp [Effective.place, Effective.goesTo, Effective.platform, hb, bucketNamed]

/-- **What `ResolveEffective` accepts is the place of the last policy that sets one**, with the
bucket that the policies leave. -/
theorem resolveEffective_place (exportName : String)
    (h : resolveEffective t cluster override = .ok eff) :
    eff.place = { (policyStatement cluster override).place t exportName with
      bucket := bucketOf t cluster override } := by
  obtain ⟨hcluster, hbucket⟩ := clusterEffective_place t cluster exportName
  cases override with
  | none =>
    cases h
    rw [← hcluster, ← hbucket]
    rfl
  | some p =>
    have hafter : eff.place = ((clusterEffective t cluster).apply p).place := by
      simp only [resolveEffective] at h
      split_ifs at h
      · exact (congrArg Effective.place (Except.ok.inj h)).symm
      · exact (congrArg Effective.place (Except.ok.inj h)).symm
    rw [hafter]
    cases hsets : p.sets with
    | none =>
      have hsame : bucketOf t cluster (some p) = bucketOf t cluster none := by
        rw [bucketOf, bucketNamed_of_not_sets hsets]
        rfl
      rw [apply_place_of_none hsets, policyStatement_of_not_sets hsets, hsame, ← hcluster, ← hbucket]
      rfl
    | some dest =>
      rw [apply_place_of_some hsets, policyStatement_of_sets hsets, bucketOf,
        bucketNamed_of_sets hsets]
      rw [bucketOf, if_neg (by simp [bucketNamed])] at hbucket
      by_cases hb : dest.bucket = "" <;>
        simp [Effective.place, Effective.goesTo, Statement.place, hb, hbucket]

/-- **The bucket that the policies leave is the one of their last statement**, unless the tenant's
names none and the cluster's another than the tenant's own. -/
theorem bucketOf_eq_iff : bucketOf t cluster override =
      ((policyStatement cluster override).place t exportName).bucket ↔
    ((override.bind BackupPolicy.sets).isSome → bucketNamed override = "" →
      bucketOf t cluster none = backupBucket t) := by
  obtain ⟨hcluster, hbucket⟩ := clusterEffective_place t cluster exportName
  have hnone : bucketOf t cluster none =
      ((policyStatement cluster none).place t exportName).bucket :=
    hbucket.symm.trans (congrArg Place.bucket hcluster)
  cases override with
  | none => simp [hnone]
  | some p =>
    cases hsets : p.sets with
    | none =>
      rw [policyStatement_of_not_sets hsets, ← hnone, bucketOf, bucketNamed_of_not_sets hsets]
      simp [hsets, bucketOf, bucketNamed]
    | some dest =>
      rw [policyStatement_of_sets hsets, bucketNamed_of_sets hsets]
      by_cases hb : dest.bucket = ""
      · simp [Statement.place, hb, hsets, bucketOf, bucketNamed]
      · simp [Statement.place, hb, bucketOf, bucketNamed_of_sets hsets]

/-- A place with another bucket is the same place only if it is the same bucket. -/
theorem place_eq_iff {q : Place} {bucket : String} :
    { q with bucket := bucket } = q ↔ bucket = q.bucket :=
  ⟨congrArg Place.bucket, by rintro rfl; rfl⟩

/-- The Secret of an export is none of a policy. -/
theorem ne_exportCredentialSecretName {secret : String}
    (h : secret = "" ∨ ∃ tag, secret = "backup-destination-" ++ tag) :
    secret ≠ exportCredentialSecretName t.name exportName := by
  have hname : exportCredentialSecretName t.name exportName =
      "tenant-export-destination-" ++ (t.name ++ ("-" ++ exportName)) := by
    unfold exportCredentialSecretName
    exact String.append_assoc.trans String.append_assoc
  have hapart : hasPrefix "tenant-export-destination-" "backup-destination-" = false ∧
      hasPrefix "backup-destination-" "tenant-export-destination-" = false := by decide +kernel
  rw [hname]
  rcases h with h | ⟨tag, h⟩
  · intro heq
    have hempty := (String.append_eq_empty_iff.1 (heq.symm.trans h)).1
    exact absurd hempty (by decide +kernel)
  · intro heq
    rcases hasPrefix_of_append_eq (h.symm.trans heq) with hp | hp
    · exact absurd hp (by rw [hapart.1]; decide)
    · exact absurd hp (by rw [hapart.2]; decide)

/-- The keys of a policy's destination are not those of an export. -/
theorem policyStatement_secret_ne :
    ((policyStatement cluster override).place t exportName).credentialSecret ≠
      exportCredentialSecretName t.name exportName := by
  have hone : ∀ (q : Option BackupPolicy),
      ∀ s ∈ q.bind fun p => p.sets.map (Statement.policy p),
        (s.place t exportName).credentialSecret ≠ exportCredentialSecretName t.name exportName := by
    intro q s hs
    obtain ⟨p, -, hp⟩ := bind_eq_some_iff.1 hs
    obtain ⟨dest, -, rfl⟩ := map_eq_some_iff.1 hp
    refine ne_exportCredentialSecretName ?_
    by_cases hneeds : dest.needsCredential
    · exact .inr ⟨scopeTag p.scope p.tenant, if_pos hneeds⟩
    · exact .inl (if_neg hneeds)
  unfold policyStatement
  split
  next s hs => exact hone override s hs
  · cases hs : cluster.bind fun p => p.sets.map (Statement.policy p) with
    | none => exact ne_exportCredentialSecretName (.inl rfl)
    | some s => exact hone cluster s hs

/-- **`ApplyExportDestination`** of a destination of the export's own. -/
theorem custom_place_iff {own : ExportDestination}
    (hsecret : eff.credentialSecret ≠ exportCredentialSecretName t.name exportName) :
    (eff.custom own t exportName).place = (Statement.custom own).place t exportName ↔
      own.resolvedCredentialSource = .transient ∧
        (own.bucket = "" → eff.bucket = backupBucket t) := by
  simp only [Effective.place, Effective.custom, Statement.place, Place.mk.injEq, true_and]
  by_cases hkeys : own.resolvedCredentialSource = .transient <;>
    by_cases hb : own.bucket = "" <;> simp [hkeys, hb, hsecret]

end place

/-- **A backup's destination is one place**: endpoint, region, addressing style, bucket and
credential are those of the last statement that sets a destination, exactly when that names its
bucket or those before it leave the tenant's own, and an export with an endpoint of its own brings
its keys. -/
theorem destination_is_one_place {t : Tenant} {cluster override : Option BackupPolicy}
    {d : Option ExportDestination} {eff : Effective} {exportName : String}
    (h : resolveEffective t cluster override = .ok eff) :
    (applyExportDestination eff d t exportName).place =
        (lastStatement cluster override d).place t exportName ↔
      statedWhole t cluster override d := by
  have hplace := resolveEffective_place exportName h
  have hpolicy : eff.place = (policyStatement cluster override).place t exportName ↔
      ((override.bind BackupPolicy.sets).isSome → bucketNamed override = "" →
        bucketOf t cluster none = backupBucket t) := by
    rw [hplace, place_eq_iff]
    exact bucketOf_eq_iff
  cases d with
  | none => exact hpolicy
  | some own =>
    cases hmode : resolvedMode (some own) with
    | custom =>
      have hbucket : eff.bucket = bucketOf t cluster override := congrArg Place.bucket hplace
      simp only [applyExportDestination, lastStatement, statedWhole, hmode]
      rw [custom_place_iff, hbucket]
      rw [show eff.credentialSecret = _ from congrArg Place.credentialSecret hplace]
      exact policyStatement_secret_ne
    | platform =>
      simp [applyExportDestination, lastStatement, statedWhole, hmode, Effective.place,
        Statement.place]
    | unset | policy | source =>
      simp only [applyExportDestination, lastStatement, statedWhole, hmode]
      exact hpolicy

/-- A policy of the cluster. -/
def clusterPolicy : BackupPolicy :=
  ⟨.cluster, "", some ⟨"https://store.cluster", "vault", "ch", .path⟩, none, none⟩

/-- A policy of the tenant `a`. -/
def ownPolicy (bucket : String) : BackupPolicy :=
  ⟨.tenant, "a", some ⟨"https://store.own", bucket, "", .path⟩, none, none⟩

/-- An export to a store of its own. -/
def ownExport (credential : CredentialSource) : ExportDestination :=
  ⟨.custom, "https://store.other", "bundles", "", .path, "", credential⟩

theorem own_store_is_one_place :
    ∃ eff, resolveEffective (plainTenant "a") (some clusterPolicy) (some (ownPolicy "own")) = .ok eff ∧
      (applyExportDestination eff (some (ownExport .transient)) (plainTenant "a") "nightly").place =
        (lastStatement (some clusterPolicy) (some (ownPolicy "own"))
          (some (ownExport .transient))).place (plainTenant "a") "nightly" :=
  ⟨_, rfl, (destination_is_one_place rfl).2 (by decide +kernel)⟩

/-- **An endpoint of the tenant's with the cluster's bucket.** -/
theorem endpoint_with_cluster_bucket :
    ∃ eff, resolveEffective (plainTenant "a") (some clusterPolicy) (some (ownPolicy "")) = .ok eff ∧
      eff.endpoint = "https://store.own" ∧ eff.bucket = "vault" ∧
      (applyExportDestination eff none (plainTenant "a") "nightly").place ≠
        (lastStatement (some clusterPolicy) (some (ownPolicy "")) none).place
          (plainTenant "a") "nightly" :=
  ⟨_, rfl, by decide +kernel⟩

/-- **No two exports write to one place**, whatever destinations they resolve to: the bucket of a
bundle and what it is below in it say which export of which tenant it is. -/
theorem bundles_apart {ts : List Tenant} (h : Accepted ts) {t u : Tenant} (ht : t ∈ ts)
    (hu : u ∈ ts) {e e' : String} (he : '/' ∉ e.toList) (he' : '/' ∉ e'.toList)
    {eff eff' : Effective} (hbucket : (eff.bundle t e).bucket = (eff'.bundle u e').bucket)
    (hbelow : (eff.bundle t e).below = (eff'.bundle u e').below) : t = u ∧ e = e' := by
  have hslash : ∀ {x y z : String}, '/' ∉ x.toList → x ≠ y ++ "/" ++ z := by
    rintro _ y z hx rfl
    simp at hx
  simp only [Effective.bundle, bundlePrefix] at hbucket hbelow
  split_ifs at hbelow with hown hown' hown'
  · simp only [Bool.and_eq_true, decide_eq_true_eq] at hown hown'
    refine ⟨?_, hbelow⟩
    by_contra hne
    rw [hown.2, hown'.2] at hbucket
    have hapart : NamesApart t u :=
      namesApart_of_ok (h.accepted t ht) hu fun heq => hne (h.named t ht u hu heq.symm)
    exact hapart.2.2 ((String.append_left_inj _).1 hbucket)
  · exact absurd hbelow (hslash he)
  · exact absurd hbelow.symm (hslash he')
  · simp only [String.append_assoc] at hbelow
    obtain ⟨hname, hexport⟩ := append_inj rfl
      (Api.not_mem_of_validTenantName (h.valid t ht) (by decide))
      (Api.not_mem_of_validTenantName (h.valid u hu) (by decide)) hbelow
    exact ⟨h.named t ht u hu hname, hexport⟩

/-- Two tenants' exports of one name, in the cluster's bucket. -/
theorem nightly_apart : ((clusterEffective (plainTenant "a") (some clusterPolicy)).bundle
      (plainTenant "a") "nightly").below ≠ ((clusterEffective (plainTenant "b")
      (some clusterPolicy)).bundle (plainTenant "b") "nightly").below := by
  intro hbelow
  have hts : Accepted (plainTenants ["a", "b"]) := by decide +kernel
  have hname := (bundles_apart hts (t := plainTenant "a") (u := plainTenant "b") (by decide)
    (by decide) (by decide) (by decide) rfl hbelow).1
  exact absurd hname (by decide)

end Gentian.Backup
