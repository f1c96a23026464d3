/-
# Where a component's entries answer, and who holds the cluster's main address

`internal/addresses/zone.go` (`ZoneOf`, `Host`, `PerimeterHost`, `Prefixes`,
`ReservedZone`), `main_address.go` (`MainTenant`, `Refusal`, `Holder`, `VerdictFor`) and
`alias.go` (`AliasHost`), `internal/hostnames` (`Check`) and what they read in `api/v1alpha1`:
`ExposureSpec`, `RequestKind`, `ApprovedAs`, `EffectiveDomain` and `keycloak.RealmName`.

A gateway entry is served behind the zone's session on `<label>.<domain>`.  A perimeter
entry is served without one, once the tenant's approver enabled it as what it is.  An apex
entry answers on the cluster's bare domain, which only the platform tenant's zone has.

The main address is the cluster's bare domain.  The tenant the cluster names, or the user
tenant of a single-tenancy cluster, may put a website there: of the surfaces published with
`apex`, the first one.  An alias is a second address of a published surface, one label below
the cluster's domain, and the first surface that was given it has it.
-/

import Gentian.Base.Collections
import Gentian.Webhook.TenantValidator

namespace Gentian.Addresses

open GoStrings

/-! ### What a profile declares -/

/-- `SurfaceKind`. -/
inductive Surface where
  | gateway
  | perimeter
deriving DecidableEq

/-- How an entry knows who asks: by a sign-in, by the app itself, by a token, or not at all. -/
inductive AuthMode where
  | oidc
  | app
  | jwt
  | bearer
  | basic
  | signature
  | none
deriving DecidableEq

/-- `ExposureKind`: what an approval of an entry is an approval of. -/
inductive ExposureKind where
  | publicAddress
  | publicAppCredential
  | signInAppAuthorization
deriving DecidableEq

/-- What a tile of the desktop is about. -/
inductive TileObject where
  | app
  | tenant
  | cluster
deriving DecidableEq

/-- `ExposureTile`: the question a tile asks about the viewer. -/
structure Tile where
  relation : String
  object : TileObject
deriving DecidableEq

/-- The service an entry leads to. -/
structure BackendRef where
  component : String
  service : String
  port : ℕ
deriving DecidableEq

/-- `ExposureSpec`.  `clientAuthorization` says that it is `app`. -/
structure ExposureSpec where
  name : String
  surface : Surface
  authMode : AuthMode
  subDomain : String := ""
  apex : Bool := false
  paths : List String := []
  denyPaths : List String := []
  forwardToken : Bool := false
  exchangeToken : Bool := false
  clientAuthorization : Bool := false
  tile : Option Tile := none
  backend : BackendRef
deriving DecidableEq

/-- `ExposureSpec.RequestKind`, `none` for an entry that asks an approver for nothing. -/
def ExposureSpec.requestKind (e : ExposureSpec) : Option ExposureKind :=
  match e.surface with
  | .perimeter =>
    match e.authMode with
    | .none => some .publicAddress
    | .app => some .publicAppCredential
    | _ => none
  | .gateway =>
    if e.authMode = .oidc ∧ e.clientAuthorization then some .signInAppAuthorization else none

/-- `ExposureSpec.ApprovedAs`: an approval that names no kind is one of a public
address. -/
def ExposureSpec.approvedAs (e : ExposureSpec) (kind : Option ExposureKind) : Bool :=
  e.requestKind = some (kind.getD .publicAddress)

/-- `ComponentLaunch`. -/
inductive Launch where
  | tile
  | opened
  | none
deriving DecidableEq

/-- What is read of a `ComponentProfile` here: its entries, whose names differ
(`listMapKey=name`), and what says where it comes from. -/
structure Profile where
  name : String
  launch : Launch
  expose : List ExposureSpec
  expose_nodup : (expose.map ExposureSpec.name).Nodup
  /-- the `OriginAnnotation`, `""` when it has none -/
  origin : String
  /-- the bundle's `Annotation`, `""` when it has none -/
  bundle : String
  /-- the label `LabelProfileEdition`, `""` when it has none -/
  edition : String
deriving DecidableEq

/-! ### What a tenant publishes -/

/-- `TenantExposure`, with times in seconds. -/
structure TenantExposure where
  install : String
  exposureName : String
  kind : Option ExposureKind := none
  expiresAt : Option ℕ := none
  publishedAt : Option ℕ := none
  apex : Bool := false
  aliasName : String := ""
  aliasSetAt : Option ℕ := none
deriving DecidableEq

/-- Whether a bound that may be absent has passed: `t != nil && !now.Before(t)`. -/
def expired (now : ℕ) (t : Option ℕ) : Bool := t.any fun t => decide (t ≤ now)

/-- What is read of a `Tenant` here. -/
structure Tenant where
  name : String
  /-- `spec.isolation.keycloakRealm`, `""` when it names none -/
  keycloakRealm : String := ""
  /-- `status.domain` -/
  domain : String := ""
  deleting : Bool := false
  /-- `status.phase` is `Ready` -/
  ready : Bool := true
  exposures : List TenantExposure := []
deriving DecidableEq

/-- `RealmName`: the realm a tenant signs in with, its own name unless it states one. -/
def realmName (t : Tenant) : String := if t.keycloakRealm ≠ "" then t.keycloakRealm else t.name

/-- `SingleUserTenantName`. -/
def singleUserTenantName : String := "user"

/-- Whether a tenant has the cluster's own domain: the one user's, where tenancy is single. -/
def Tenant.onClusterDomain (t : Tenant) (tenancyMode : String) : Bool :=
  t.name = singleUserTenantName && Api.isSingle tenancyMode

/-- `EffectiveDomain`: the domain a tenant's hosts are under. -/
def Tenant.effectiveDomain (t : Tenant) (kernelDomain tenancyMode : String) : String :=
  if t.domain ≠ "" then t.domain
  else if kernelDomain = "" then ""
  else if t.onClusterDomain tenancyMode then kernelDomain
  else t.name ++ "." ++ kernelDomain

/-! ### Zones -/

/-- `Zone`: a domain that hosts are under, and the host at its apex. -/
structure Zone where
  domain : String
  kernel : Bool
  apex : String
deriving DecidableEq

/-- What the addresses of a cluster depend on besides its tenants. -/
structure Cluster where
  kernelDomain : String
  kernelRealm : String
  tenancyMode : String
  mainAddressTenant : String
deriving DecidableEq

/-- Whether a tenant signs in with the kernel's realm. -/
def adoptsKernelRealm (t : Tenant) (kernelRealm : String) : Bool :=
  kernelRealm ≠ "" && realmName t = kernelRealm

/-- The zone of a tenant on a cluster. -/
def zoneOf (t : Tenant) (c : Cluster) : Zone :=
  let domain := t.effectiveDomain c.kernelDomain c.tenancyMode
  if adoptsKernelRealm t c.kernelRealm then ⟨domain, true, c.kernelDomain⟩ else ⟨domain, false, ""⟩

/-- The label of the desktop's host. -/
def desktopLabel : String := "desktop"

/-- The label of an entry's host: its own, or the component's name. -/
def ExposureSpec.label (e : ExposureSpec) (component : String) : String :=
  if e.subDomain = "" then component else e.subDomain

/-- The host of an entry of a component in a zone, empty where there is none. -/
def host (zone : Zone) (component : String) (e : ExposureSpec) : String :=
  if zone.domain = "" then ""
  else if e.apex then zone.apex
  else if zone.kernel ∧ e.label component = desktopLabel then zone.domain
  else e.label component ++ "." ++ zone.domain

/-- `PerimeterHost`: where a perimeter entry is published once it is approved, and
whether it is there as a tenant's website on the main address. -/
def perimeterHost (zone : Zone) (component : String) (e : ExposureSpec) (approvedForMain : Bool)
    (mainEntry mainHost : String) : String × Bool :=
  if zone.kernel then (host zone component e, false)
  else if e.apex ≠ approvedForMain then ("", false)
  else if e.apex ∧ mainEntry = e.name then (mainHost, true)
  else (host zone component e, false)

/-- `Prefixes`: the paths a perimeter entry publishes, in order. -/
def prefixes (e : ExposureSpec) : List String :=
  ((e.paths.map trimSpace).filter fun p => p ≠ "" && hasPrefix p "/").insertionSort (· ≤ ·)

/-- `onClusterDomain` of the package. -/
def onClusterDomain (effectiveDomain kernelDomain : String) : Bool :=
  kernelDomain ≠ "" && effectiveDomain = kernelDomain

/-! ### Names an entry may not take -/

/-- `hostnames.Reserved`, without the texts. -/
structure Reserved where
  label : String
  owner : String := ""
  fromClusterCatalogue : Bool := false
deriving DecidableEq

/-- The labels that the platform's own profiles hold, and who holds each. -/
def platformLabels : List Reserved :=
  [⟨"desktop", "desktop", false⟩, ⟨"admin", "admin-console", false⟩, ⟨"store", "app-store", true⟩,
    ⟨"console", "", false⟩, ⟨"platform", "", false⟩, ⟨"id", "", false⟩, ⟨"auth", "", false⟩,
    ⟨"login", "", false⟩, ⟨"signin", "", false⟩, ⟨"sign-in", "", false⟩, ⟨"sso", "", false⟩,
    ⟨"account", "", false⟩, ⟨"accounts", "", false⟩]

/-- The labels that no profile holds. -/
def kernelLabels : List Reserved :=
  ["argocd", "headlamp", "id", "imap", "llm", "mail", "mail-egress", "monitoring", "platform",
    "www"].map fun l => ⟨l, "", false⟩

/-- `match`: the reserved name that a label is, or is below. -/
def reservedMatch (tier : List Reserved) (label : String) : Option Reserved :=
  let l := toLower (trimSpace label)
  tier.find? fun r => l = r.label || hasSuffix l ("." ++ r.label)

/-- `Kept`: the reserved name of either tier. -/
def kept (label : String) : Option Reserved :=
  (reservedMatch kernelLabels label).or (reservedMatch platformLabels label)

/-- A profile that came with the platform: it has no origin and no bundle. -/
def Profile.platformShipped (p : Profile) : Bool :=
  trimSpace p.origin = "" && trimSpace p.bundle = ""

/-- A profile from the catalogue of the cluster, with its bundle. -/
def Profile.fromClusterCatalogue (p : Profile) : Bool :=
  hasPrefix (trimSpace p.origin) "cluster/" && trimSpace p.bundle ≠ ""

/-- Whether a profile is that of an owner of a label, in one of its editions. -/
def Profile.ownedBy (p : Profile) (owner : String) : Bool :=
  p.name = owner || (decide (p.edition ∈ ["ce", "me", "ie", "pe", "ee"]) &&
    p.name = owner ++ "-" ++ p.edition)

/-- Whether an entry's label is one that `Check` refuses, in a zone on the cluster's own
domain or not. -/
def refusedLabel (p : Profile) (onCluster : Bool) (label : String) : Bool :=
  (onCluster && (reservedMatch kernelLabels label).isSome) ||
    match reservedMatch platformLabels label with
    | none => false
    | some r => !((p.platformShipped || (r.fromClusterCatalogue && p.fromClusterCatalogue)) &&
        r.owner ≠ "" && p.ownedBy r.owner && label = r.label)

/-- `hostnames.Check`: the first entry whose name the platform keeps, with
`ReservedZone`. -/
def check (component : String) (p : Profile) (zone : Zone) (kernelDomain : String) :
    Option ExposureSpec :=
  p.expose.find? fun e =>
    !(e.apex || (e.backend.component ≠ "" && e.backend.component ≠ component)) &&
      refusedLabel p (!zone.kernel && onClusterDomain zone.domain kernelDomain) (e.label component)

open List Option

/-! ### The main address -/

/-- `Inputs`.  `profiles` is the map of the cluster's profiles by name. -/
structure Inputs where
  tenants : List Tenant
  profiles : String → Option Profile
  cluster : Cluster
  now : ℕ

/-- The paths that no entry may serve. -/
def reservedPrefixes : List String :=
  ["/branding/", "/sign-in", "/.well-known/acme-challenge/", "/.well-known/pki-validation/"]

/-- Whether a path is another or lies below it. -/
def pathWithin (path outer : String) : Bool :=
  let p := trimSuffix path "/"
  let q := trimSuffix outer "/"
  decide (p = q) || hasPrefix p (q ++ "/")

/-- `reservedPath`: the platform's path that one of the entry's is inside. -/
def reservedPath (e : ExposureSpec) : Option String :=
  (prefixes e).findSome? fun p => reservedPrefixes.find? (pathWithin p)

/-- A published entry that asks for the main address. -/
structure Claim where
  tenant : String
  install : String
  exposure : String
deriving DecidableEq

/-- `Claim.String`. -/
def Claim.text (c : Claim) : String := c.install ++ "/" ++ c.exposure

namespace Inputs

variable (i : Inputs)

/-- `Inputs.MainTenantName`, with `tenancy.MainAddressTenant`. -/
def mainTenantName : String :=
  if i.cluster.mainAddressTenant ≠ "" then i.cluster.mainAddressTenant
  else if Api.isSingle i.cluster.tenancyMode then singleUserTenantName else ""

/-- The tenant that may have the main address, unless it is being deleted. -/
def mainTenant : Option Tenant :=
  if i.mainTenantName = "" then none
  else i.tenants.find? fun t => !t.deleting && t.name = i.mainTenantName &&
    !adoptsKernelRealm t i.cluster.kernelRealm

end Inputs

/-- The entry of a profile under a name. -/
def apexEntry (profile : Option Profile) (name : String) : Option ExposureSpec :=
  profile.bind fun p => p.expose.find? fun e =>
    e.name = name && e.surface = .perimeter && e.apex

/-- The reasons of `Refusal`, without the sentences. -/
inductive RefusalReason where
  | notAMainAddressEntry
  | approvedAsAnotherKind
  | notRequested
  | multiTenancy
  | notTheMainAddressTenant
  | notTheUserTenant
  | ownDomain
  | expired
  | noPaths
  | reservedPath
  | tenantNotReady
deriving DecidableEq

/-- `Inputs.Refusal`: why a published surface is not on the main address, `none` when
only another claim could stand in its way. -/
def Inputs.refusal (i : Inputs) (t : Tenant) (e : TenantExposure) : Option RefusalReason :=
  match apexEntry (i.profiles e.install) e.exposureName with
  | none => some .notAMainAddressEntry
  | some entry =>
    if !entry.approvedAs e.kind then some .approvedAsAnotherKind
    else if !e.apex then some .notRequested
    else if i.mainTenantName = "" then some .multiTenancy
    else if i.cluster.mainAddressTenant ≠ "" ∧ i.mainTenant.map Tenant.name ≠ some t.name then
      some .notTheMainAddressTenant
    else if i.mainTenant.map Tenant.name ≠ some t.name then some .notTheUserTenant
    else if i.cluster.mainAddressTenant = "" ∧
        !onClusterDomain (t.effectiveDomain i.cluster.kernelDomain i.cluster.tenancyMode)
          i.cluster.kernelDomain then
      some .ownDomain
    else if expired i.now e.expiresAt then some .expired
    else if prefixes entry = [] then some .noPaths
    else if (reservedPath entry).isSome then some .reservedPath
    else if !t.ready then some .tenantNotReady
    else none

/-- The order of two candidates: the one published first, then by name. -/
def publishedBefore (a b : Claim × Option ℕ) : Bool :=
  match a.2, b.2 with
  | some x, some y => if x ≠ y then decide (x < y) else decide (a.1.text < b.1.text)
  | some _, none => true
  | none, some _ => false
  | none, none => decide (a.1.text < b.1.text)

/-- The surfaces of a tenant that nothing but another claim could keep off the main
address. -/
def Inputs.candidates (i : Inputs) (t : Tenant) : List (Claim × Option ℕ) :=
  (t.exposures.filter fun e => e.apex && (i.refusal t e).isNone).map fun e =>
    (⟨t.name, e.install, e.exposureName⟩, e.publishedAt)

/-- Who holds the main address: of the candidates, the one that was published first. -/
def holder (i : Inputs) : Option Claim :=
  i.mainTenant.bind fun t =>
    (((i.candidates t).insertionSort fun a b => publishedBefore b a = false).head?).map Prod.fst

/-- `Verdict`, without its message. -/
structure Verdict where
  /-- the entry that holds the main address, `""` when none of the component's does -/
  entry : String
deriving DecidableEq

/-- The loop of `VerdictFor` over the tenant's exposures. -/
def verdictLoop (i : Inputs) (t : Tenant) (install : String) :
    List TenantExposure → Option Verdict → Option Verdict
  | [], v => v
  | e :: es, v =>
    if e.install ≠ install then verdictLoop i t install es v
    else if !e.apex ∧ apexEntry (i.profiles install) e.exposureName = none then
      verdictLoop i t install es v
    else if (i.refusal t e).isSome then verdictLoop i t install es (some ⟨""⟩)
    else if holder i = some ⟨t.name, install, e.exposureName⟩ then some ⟨e.exposureName⟩
    else verdictLoop i t install es (some ⟨""⟩)

/-- `VerdictFor`, `none` for a component that has nothing to do with the main address. -/
def verdictFor (i : Inputs) (t : Tenant) (install : String) : Option Verdict :=
  verdictLoop i t install t.exposures none

/-! ### Aliases -/

/-- `aliasOrder`: when the alias was given, the tenant, the install and the exposure. -/
structure AliasOrder where
  setAt : Option ℕ
  tenant : String
  install : String
  exposure : String
deriving DecidableEq

/-- `aliasOrder.before`.  A time that is not set is before every other. -/
def AliasOrder.before (a b : AliasOrder) : Bool :=
  if a.setAt ≠ b.setAt then
    match a.setAt, b.setAt with
    | none, _ => true
    | some _, none => false
    | some x, some y => decide (x < y)
  else if a.tenant ≠ b.tenant then decide (a.tenant < b.tenant)
  else if a.install ≠ b.install then decide (a.install < b.install)
  else decide (a.exposure < b.exposure)

/-- The last exposure of the tenants of that name with the install and the name. -/
def exposureOf (tenants : List Tenant) (tenant install exposure : String) : Option TenantExposure :=
  (((tenants.filter fun t => t.name = tenant).flatMap Tenant.exposures).filter fun e =>
    e.install = install && e.exposureName = exposure).getLast?

/-- The host an entry is published under as its alias. -/
def aliasHost (i : Inputs) (tenant install exposure : String) : String :=
  match exposureOf i.tenants tenant install exposure with
  | none => ""
  | some mine =>
    if mine.aliasName = "" ∨ i.cluster.kernelDomain = "" then ""
    else if Api.isSingle i.cluster.tenancyMode then ""
    else if (kept mine.aliasName).isSome then ""
    else if i.tenants.any fun other => other.name = mine.aliasName ||
        other.exposures.any fun e => e.aliasName = mine.aliasName &&
          AliasOrder.before ⟨e.aliasSetAt, other.name, e.install, e.exposureName⟩
            ⟨mine.aliasSetAt, tenant, install, exposure⟩ then ""
    else mine.aliasName ++ "." ++ i.cluster.kernelDomain

/-! ### Who keeps the main address -/

/-- A publication as a claim, with the time it was published. -/
def TenantExposure.claim (e : TenantExposure) (tenant : String) : Claim × Option ℕ :=
  (⟨tenant, e.install, e.exposureName⟩, e.publishedAt)

/-- The order of the candidates: one without a time is after every other. -/
def rank (c : Claim × Option ℕ) : WithTop ℕ ×ₗ String := toLex (c.2.elim ⊤ (↑), c.1.text)

/-- The order of claims is that of their ranks. -/
theorem publishedBefore_iff (a b : Claim × Option ℕ) :
    publishedBefore b a = false ↔ rank a ≤ rank b := by
  obtain ⟨a, x⟩ := a
  obtain ⟨b, y⟩ := b
  have htext : decide (b.text < a.text) = false ↔ a.text ≤ b.text := by
    rw [decide_eq_false_iff_not, not_lt]
  unfold publishedBefore rank
  rw [Prod.Lex.toLex_le_toLex]
  cases x with
  | none => cases y <;> simp only [htext] <;> simp
  | some x =>
    cases y with
    | none => simp
    | some y =>
      by_cases h : y = x
      · simp only [h, htext, ne_eq, not_true, if_false]
        simp
      · simp [h, Ne.symm h, lt_iff_le_and_ne]

variable {i : Inputs} {t : Tenant} {e f : TenantExposure} {l : List TenantExposure}

variable {c : Claim × Option ℕ}

/-- The candidates are the claims on the apex that nothing speaks against. -/
theorem mem_candidates : c ∈ i.candidates t ↔
    ∃ e ∈ t.exposures, (e.apex = true ∧ i.refusal t e = none) ∧ e.claim t.name = c := by
  simp [Inputs.candidates, TenantExposure.claim, and_assoc]

/-- The holder comes before every other candidate. -/
theorem holder_least {c : Claim} (ht : i.mainTenant = some t) (h : holder i = some c) :
    ∃ x ∈ i.candidates t, x.1 = c ∧ ∀ y ∈ i.candidates t, rank x ≤ rank y := by
  rw [holder, ht, bind_some] at h
  obtain ⟨x, hx, rfl⟩ := map_eq_some_iff.1 h
  obtain ⟨hmem, -, hleast⟩ := Ranked.first_of_rank (q := fun _ => true) publishedBefore_iff
    (by rwa [← head?_filter, filter_true])
  exact ⟨x, hmem, rfl, fun y hy => hleast y hy rfl⟩

/-- Where there is a candidate, somebody holds the address. -/
theorem exists_holder (ht : i.mainTenant = some t)
    (h : c ∈ i.candidates t) : ∃ c, holder i = some c := by
  rw [← mem_insertionSort fun a b => publishedBefore b a = false] at h
  rw [holder, ht, bind_some]
  cases hs : (i.candidates t).insertionSort fun a b => publishedBefore b a = false with
  | nil =>
    rw [hs] at h
    cases h
  | cons x _ => exact ⟨x.1, rfl⟩

theorem refusal_not_expired (h : i.refusal t e = none) : expired i.now e.expiresAt = false := by
  unfold Inputs.refusal at h
  split at h
  · cases h
  · split_ifs at h
    simpa using ‹¬expired i.now e.expiresAt›

/-- What has not expired had not expired before. -/
theorem expired_mono {now : ℕ} {x : Option ℕ} (h : i.now ≤ now) (hx : expired now x = false) :
    expired i.now x = false := by
  cases x with
  | none => rfl
  | some x =>
    simp only [expired, any_some, decide_eq_false_iff_not] at hx ⊢
    exact fun hle => hx (hle.trans h)

/-- **The main address stays where it is** at a later time, when its surface has a time and the
other surfaces are as they were or were published later; and it is always with a surface that
nothing is said against. -/
theorem holder_keeps {tenants : List Tenant} {now p : ℕ} (hstart : i.mainTenant = some t)
    (hlater : ({ i with tenants, now } : Inputs).mainTenant = some { t with exposures := l })
    (hnow : i.now ≤ now) (he : e ∈ t.exposures) (he' : e ∈ l)
    (hvalid : expired now e.expiresAt = false) (hp : e.publishedAt = some p)
    (hnames : (t.exposures.map fun e => (e.claim t.name).1.text).Nodup)
    (hnames' : (l.map fun e => (e.claim t.name).1.text).Nodup)
    (hothers : ∀ f ∈ l, f ∈ t.exposures ∨ ∀ x, f.publishedAt = some x → p < x) :
    (holder i = some (e.claim t.name).1 →
      holder { i with tenants, now } = some (e.claim t.name).1) ∧
    ∀ j c, holder j = some c → ∃ t, j.mainTenant = some t ∧ ∃ e ∈ t.exposures,
      j.refusal t e = none ∧ c = (e.claim t.name).1 := by
  refine ⟨fun hholds => ?_, fun j c hc => ?_⟩
  · set j : Inputs := { i with tenants, now }
    have hrefusal : ∀ f, expired now f.expiresAt = false → expired i.now f.expiresAt = false →
        j.refusal { t with exposures := l } f = i.refusal t f := by
      intro f hnot hnot'
      have hexp : expired j.now f.expiresAt = expired i.now f.expiresAt := hnot.trans hnot'.symm
      simp only [Inputs.refusal, hlater, hstart, hexp]
      rfl
    obtain ⟨x, hx, heq, hleast⟩ := holder_least hstart hholds
    obtain ⟨g, hg, ⟨hapex, hnone⟩, rfl⟩ := mem_candidates.1 hx
    obtain rfl : g = e := inj_on_of_nodup_map hnames hg he (congrArg Claim.text heq)
    have hmine : g.claim t.name ∈ j.candidates { t with exposures := l } :=
      mem_candidates.2 ⟨g, he', ⟨hapex, (hrefusal g hvalid (refusal_not_expired hnone)).trans hnone⟩,
        rfl⟩
    obtain ⟨c, hc⟩ := exists_holder hlater hmine
    obtain ⟨y, hy, rfl, hleast'⟩ := holder_least hlater hc
    obtain ⟨f, hf, ⟨hapex', hnone'⟩, rfl⟩ := mem_candidates.1 hy
    rw [hc]
    have hle := hleast' _ hmine
    rcases hothers f hf with hold | hnew
    · -- it was there before, and not before `e`
      have hexp := refusal_not_expired hnone'
      rw [hrefusal f hexp (expired_mono hnow hexp)] at hnone'
      have hge := hleast _ (mem_candidates.2 ⟨f, hold, ⟨hapex', hnone'⟩, rfl⟩)
      rw [inj_on_of_nodup_map hnames' hf he' (congrArg (·.2) (le_antisymm hle hge))]
    · rw [rank, rank, Prod.Lex.toLex_le_toLex] at hle
      cases hx : f.publishedAt with
      | none => simp [TenantExposure.claim, hx, hp] at hle
      | some x =>
        have := hnew x hx
        simp [TenantExposure.claim, hx, hp] at hle
        omega
  · cases ht : j.mainTenant with
    | none => simp [holder, ht] at hc
    | some t =>
      obtain ⟨x, hx, rfl, -⟩ := holder_least ht hc
      obtain ⟨e, he, ⟨-, hnone⟩, rfl⟩ := mem_candidates.1 hx
      exact ⟨t, rfl, e, he, hnone, rfl⟩

/-- A site with one entry at the apex. -/
def siteProfile : Profile :=
  ⟨"site", .none, [{ name := "site", surface := .perimeter, authMode := .none, apex := true
                     paths := ["/"], backend := ⟨"", "web", 80⟩ }], by decide, "", "", ""⟩

/-- A single-tenancy cluster whose user has these sites. -/
def sites (es : List TenantExposure) (now : ℕ) : Inputs where
  tenants := [{ name := "user", exposures := es }]
  profiles _ := some siteProfile
  cluster := ⟨"example.org", "kernel", "single", ""⟩
  now := now

/-- The site, published. -/
def site (install : String) (publishedAt : Option ℕ) (apex : Bool) : TenantExposure :=
  { install, exposureName := "site", publishedAt, apex }

theorem holder_keeps_wiki :
    holder (sites [site "wiki" (some 10) true, site "blog" (some 12) true] 13) =
      some ⟨"user", "wiki", "site"⟩ :=
  (holder_keeps (i := sites [site "wiki" (some 10) true] 11) (e := site "wiki" (some 10) true)
    (t := { name := "user", exposures := [site "wiki" (some 10) true] })
    (l := [site "wiki" (some 10) true, site "blog" (some 12) true]) (by decide +kernel)
    (by decide +kernel) (by decide) (by decide) (by decide) (by decide) rfl (by decide) (by decide)
    (by decide)).1 (by decide +kernel)

/-- **The main address goes to another surface**: to one that was published before and is now
put there by a review, to one published in the same second, and to any other when the surface
has no time. -/
theorem holder_replaced :
    holder (sites [site "wiki" (some 10) true, site "blog" (some 5) false] 20) =
        some ⟨"user", "wiki", "site"⟩ ∧
      holder (sites [site "wiki" (some 10) true, site "blog" (some 5) true] 21) =
        some ⟨"user", "blog", "site"⟩ ∧
    holder (sites [site "wiki" (some 10) true] 10) = some ⟨"user", "wiki", "site"⟩ ∧
      holder (sites [site "wiki" (some 10) true, site "blog" (some 10) true] 10) =
        some ⟨"user", "blog", "site"⟩ ∧
    holder (sites [site "wiki" none true] 20) = some ⟨"user", "wiki", "site"⟩ ∧
      holder (sites [site "wiki" none true, site "blog" (some 21) true] 21) =
        some ⟨"user", "blog", "site"⟩ := by
  decide +kernel

end Gentian.Addresses
