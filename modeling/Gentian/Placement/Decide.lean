/-
# Which components the platform places where

`internal/placement/placement.go` (`Decide`, `preApproved`) and `PlacementOf` of
`api/v1alpha1/componentprofile_types.go`.

Each profile is wanted, undecided or left out, for the user tenants and for the platform tenant
(`verdict`).  The contracts that are approved beforehand are gathered while ranging over a map
and sorted by app and contract.  Neither the order of a map nor that of two equal keys is fixed
in Go (`Runtime`); the result is, when no profile names a contract twice (`grants_unique`).
-/

import Gentian.Base.Runs

namespace Gentian.Placement

open List

/-! ### Profiles -/

/-- The tenants a component is placed in. -/
inductive Tenants where
  | every
  | platform
  | users
deriving DecidableEq

/-- What the placing of a component depends on. -/
inductive Condition where
  | always
  | storeOffered
  | llm
  | credentialSet
deriving DecidableEq

/-- The classes of a component. -/
inductive ComponentClass where
  | service
  | app
  | sharedApp
  | adapter
deriving DecidableEq

/-- How far a component is trusted. -/
inductive TrustTier where
  | platform
  | certified
  | experimental
deriving DecidableEq

/-- `ComponentPlacement`: where a component goes, and while what. -/
structure ComponentPlacement where
  tenants : Tenants
  condition : Condition
deriving DecidableEq

/-- `IntegrationRef`. -/
structure Integration where
  contract : String
  provider : String
  capabilities : List String
deriving DecidableEq

/-- What a `ComponentProfile` says about its placement and its contracts. -/
structure Profile where
  name : String
  annotations : String → String
  classes : List ComponentClass
  trustTier : TrustTier
  integrations : List Integration
  provides : List String
  placement : Option ComponentPlacement
  defaultForTenants : Bool
  defaultForPlatform : Bool
  defaultWhereStoreOffered : Bool

/-- `RequiresUsageStatisticsAnnotation`. -/
def requiresUsageStatistics : String := "gentianos.io/requires-usage-statistics"

/-- `RequiresCapabilityAnnotation`. -/
def requiresCapability : String := "gentianos.io/requires-capability"

/-- `PlacementOf`: the placement, or what the deprecated flags say. -/
def Profile.placementOf (p : Profile) : Option ComponentPlacement :=
  match p.placement with
  | some place => some place
  | none =>
    if p.defaultForTenants then some ⟨.every, .always⟩
    else if p.defaultForPlatform then some ⟨.platform, .always⟩
    else if p.defaultWhereStoreOffered then some ⟨.users, .storeOffered⟩
    else if p.annotations requiresCapability = "llm" then some ⟨.users, .llm⟩
    else none

/-- A profile that is an app. -/
def Profile.isApp (p : Profile) : Bool := p.classes.contains .app

/-- `ByOperator`: placed for the life of a tenant, while a store is offered or on a credential. -/
def Profile.byOperator (p : Profile) : Bool :=
  match p.placementOf with
  | none => false
  | some place => place.condition ≠ .llm

/-! ### The decision -/

/-- `Facts`.  The profiles are the objects of one cluster, so no two of them have one name. -/
structure Facts where
  profiles : List Profile
  usageStatistics : Bool
  /-- `none` where it could not be read -/
  storeOffered : Option Bool
  credentialed : String → Bool
  gone : String → Bool
  distinct : (profiles.map Profile.name).Nodup

/-- What is decided of one profile for one kind of tenant. -/
inductive Verdict where
  | left
  | undecided
  | wanted
deriving DecidableEq

/-- Whether a tenant is among them. -/
def Tenants.includes : Tenants → Bool → Bool
  | .every, _ => true
  | .platform, isPlatform => isPlatform
  | .users, isPlatform => !isPlatform

/-- One turn of the loop of `Decide`, for the user tenants or for the platform tenant. -/
def verdict (f : Facts) (platform : Bool) (p : Profile) : Verdict :=
  match p.placementOf with
  | none => .left
  | some place =>
    if place.condition = .llm || !p.isApp then .left
    else if p.annotations requiresUsageStatistics = "true" && !f.usageStatistics then .left
    else if f.gone p.name then .left
    else if place.condition = .storeOffered && f.storeOffered = none then .undecided
    else if place.condition = .storeOffered && f.storeOffered = some false then .left
    else if place.condition = .credentialSet && !f.credentialed p.name then
      -- undecided for the platform tenant alone
      if platform then .undecided else .left
    else if place.tenants.includes platform then .wanted
    else .left

/-- `Set`. -/
structure Placements where
  wanted : List String
  undecided : List String
deriving DecidableEq

/-- `Set.Has`. -/
def Placements.has (s : Placements) (name : String) : Bool := s.wanted.contains name

/-- `Set.Decided`. -/
def Placements.decided (s : Placements) (name : String) : Bool := !s.undecided.contains name

/-- The profiles of a verdict, by name. -/
def named (f : Facts) (platform : Bool) (v : Verdict) : List String :=
  ((f.profiles.filter fun p => verdict f platform p = v).map Profile.name).insertionSort (· ≤ ·)

/-- What is placed in a kind of tenant, and what is not decided. -/
def placements (f : Facts) (platform : Bool) : Placements :=
  ⟨named f platform .wanted, named f platform .undecided⟩

/-! ### The contracts between placed components -/

/-- A consent: an app may use a contract of a provider. -/
structure Grant where
  app : String
  contract : String
  provider : String
  capabilities : List String
deriving DecidableEq

/-- The order that grants are sorted by. -/
def Grant.less (a b : Grant) : Bool :=
  if a.app ≠ b.app then a.app < b.app else a.contract < b.contract

/-- What the order goes by. -/
def Grant.key (a : Grant) : String ×ₗ String := toLex (a.app, a.contract)

variable {a : Grant} {ps : List Profile} {p : Profile}

variable {b : Grant} {qs : List Profile}

theorem Grant.less_eq_false : b.less a = false ↔ a.key ≤ b.key := by
  rw [Grant.key, Grant.key, Prod.Lex.toLex_le_toLex, Grant.less]
  by_cases h : b.app = a.app
  · rw [if_neg (not_not.2 h), decide_eq_false_iff_not]
    exact ⟨fun hle => .inr ⟨h.symm, hle⟩, fun hor => hor.elim
      (fun hlt => absurd h hlt.ne') And.right⟩
  · rw [if_pos h, decide_eq_false_iff_not]
    exact ⟨fun hle => .inl (lt_of_le_of_ne hle (Ne.symm h)), fun hor => hor.elim le_of_lt
      fun heq => heq.1.le⟩

/-- The order, as a relation. -/
def Grant.le (a b : Grant) : Prop := b.less a = false

instance : DecidableRel Grant.le := fun a b => inferInstanceAs (Decidable (b.less a = false))

instance : Std.Total Grant.le where
  total a b := by simpa only [Grant.le, Grant.less_eq_false] using le_total a.key b.key

instance : IsTrans Grant Grant.le where
  trans a b c := by simpa only [Grant.le, Grant.less_eq_false] using le_trans

/-- What Go leaves open: the order in which a map is ranged over, and the order in which
`sort.Slice` puts what its comparison does not tell apart. -/
structure Runtime where
  range : List Profile → List Profile
  sort : List Grant → List Grant
  range_perm : ∀ ps, (range ps).Perm ps
  sort_perm : ∀ gs, (sort gs).Perm gs
  sort_sorted : ∀ gs, (sort gs).Pairwise Grant.le

/-- The platform's own apps that the operator places and that are not gone. -/
def ours (f : Facts) : List Profile :=
  f.profiles.filter fun p => p.byOperator && p.isApp && !f.gone p.name && p.trustTier = .platform

/-- What one consumer is granted for one of its integrations. -/
def grantFor (ours : List Profile) (consumer : Profile) (i : Integration) : Option Grant :=
  match ours.find? fun p => p.name = i.provider with
  | none => none
  | some provider =>
    if i.capabilities ≠ [] ∧ provider.name ≠ consumer.name ∧ i.contract ∈ provider.provides then
      some ⟨consumer.name, i.contract, provider.name, i.capabilities⟩
    else none

/-- `preApproved`: the consents that are given beforehand. -/
def preApproved (r : Runtime) (f : Facts) : List Grant :=
  r.sort ((r.range (ours f)).flatMap fun consumer =>
    consumer.integrations.filterMap (grantFor (ours f) consumer))

/-- What is decided. -/
structure Answer where
  users : Placements
  platform : Placements
  grants : List Grant
deriving DecidableEq

/-- `Answer.For`. -/
def Answer.forTenant (a : Answer) (platform : Bool) : Placements :=
  if platform then a.platform else a.users

/-- `Decide`. -/
def decidePlacement (r : Runtime) (f : Facts) : Answer :=
  ⟨placements f false, placements f true, preApproved r f⟩

@[simp] theorem forTenant_decidePlacement (r : Runtime) (f : Facts) (platform : Bool) :
    (decidePlacement r f).forTenant platform = placements f platform := by
  cases platform <;> rfl

/-! ### Wanted and undecided -/

variable {f g : Facts} {platform : Bool} {v : Verdict} {n : String}

/-- The profiles of a verdict. -/
theorem mem_named : n ∈ named f platform v ↔
    ∃ p ∈ f.profiles, verdict f platform p = v ∧ p.name = n := by
  rw [named]
  simp [and_assoc]

/-- **Nothing is both wanted and undecided.** -/
theorem disjoint_placements (f : Facts) (platform : Bool) :
    (placements f platform).wanted.Disjoint (placements f platform).undecided := by
  intro n hw hu
  obtain ⟨p, hp, hpv, rfl⟩ := mem_named.1 hw
  obtain ⟨q, hq, hqv, hname⟩ := mem_named.1 hu
  rw [inj_on_of_nodup_map f.distinct hq hp hname, hpv] at hqv
  simp at hqv

/-- The second facts are the first with the store unread, or with credentials missing. -/
structure LessRead (f g : Facts) : Prop where
  profiles : g.profiles = f.profiles
  usageStatistics : g.usageStatistics = f.usageStatistics
  gone : g.gone = f.gone
  storeOffered : g.storeOffered = f.storeOffered ∨ g.storeOffered = none
  credentialed : ∀ n, g.credentialed n = true → f.credentialed n = true

/-- A profile that is placed on a credential goes to the platform tenant. -/
def Profile.credentialOnPlatform (p : Profile) : Bool :=
  p.placementOf.all fun place => place.condition ≠ .credentialSet || place.tenants = .platform

/-- What is placed on a credential goes to the platform tenant. -/
def CredentialOnPlatform (f : Facts) : Prop := ∀ p ∈ f.profiles, p.credentialOnPlatform = true
deriving Decidable

/-- A placement that the facts leave standing, its condition apart. -/
structure Stands (f : Facts) (p : Profile) (place : ComponentPlacement) : Prop where
  placementOf : p.placementOf = some place
  condition : place.condition ≠ .llm
  isApp : p.isApp = true
  usage : p.annotations requiresUsageStatistics = "true" → f.usageStatistics = true
  gone : f.gone p.name = false

/-- Only a profile that stands is placed. -/
theorem stands_of_verdict (h : verdict f platform p ≠ .left) : ∃ place, Stands f p place := by
  unfold verdict at h
  split at h
  · exact absurd rfl h
  next place hplace =>
    split_ifs at h with h1 h2 h3
    all_goals first
      | exact absurd rfl h
      | exact ⟨place, hplace, by simp_all, by simp_all, by simp_all, by simpa using h3⟩

/-- The verdict on one that stands. -/
theorem verdict_of_stands {place : ComponentPlacement} (h : Stands f p place) :
    verdict f platform p =
      if place.condition = .storeOffered ∧ f.storeOffered = none then .undecided
      else if place.condition = .storeOffered ∧ f.storeOffered = some false then .left
      else if place.condition = .credentialSet ∧ f.credentialed p.name = false then
        if platform then .undecided else .left
      else if place.tenants.includes platform then .wanted
      else .left := by
  have husage : (decide (p.annotations requiresUsageStatistics = "true") && !f.usageStatistics) =
      false := by
    by_cases h' : p.annotations requiresUsageStatistics = "true"
    · simp [h.usage h']
    · simp [h']
  simp only [verdict, h.placementOf, h.condition, h.isApp, husage, h.gone, decide_false,
    Bool.not_true, Bool.or_self, Bool.false_eq_true, if_false, Bool.and_eq_true, decide_eq_true_eq,
    Bool.not_eq_true']

/-- Less that is read withdraws nothing. -/
theorem verdict_of_lessRead (h : LessRead f g) (hcred : CredentialOnPlatform f)
    (hp : p ∈ f.profiles) (hw : verdict f platform p = .wanted) :
    verdict g platform p = .wanted ∨ verdict g platform p = .undecided := by
  obtain ⟨place, hstands⟩ := stands_of_verdict (show verdict f platform p ≠ .left by simp [hw])
  have hstands' : Stands g p place :=
    ⟨hstands.placementOf, hstands.condition, hstands.isApp, h.usageStatistics ▸ hstands.usage,
      h.gone ▸ hstands.gone⟩
  rw [verdict_of_stands hstands] at hw
  rw [verdict_of_stands hstands']
  cases hcond : place.condition with
  | llm => exact absurd hcond hstands.condition
  | always => exact .inl (by simpa [hcond] using hw)
  | storeOffered =>
    rcases h.storeOffered with hsame | hnone
    · exact .inl (by simpa [hcond, hsame] using hw)
    · exact .inr (by simp [hnone])
  | credentialSet =>
    have htenants : place.tenants = .platform := by
      simpa [Profile.credentialOnPlatform, hstands.placementOf, hcond] using hcred p hp
    simp only [hcond, htenants, Tenants.includes, reduceCtorEq, false_and] at hw ⊢
    split_ifs at hw ⊢ <;> simp

/-- **What cannot be decided is not withdrawn**, from either kind of tenant. -/
theorem wanted_of_lessRead (h : LessRead f g) (hcred : CredentialOnPlatform f)
    (hn : n ∈ (placements f platform).wanted) :
    n ∈ (placements g platform).wanted ∨ n ∈ (placements g platform).undecided := by
  obtain ⟨p, hp, hw, rfl⟩ := mem_named.1 hn
  have hp' : p ∈ g.profiles := h.profiles ▸ hp
  exact (verdict_of_lessRead h hcred hp hw).imp (fun hv => mem_named.2 ⟨p, hp', hv, rfl⟩)
    fun hv => mem_named.2 ⟨p, hp', hv, rfl⟩

/-! ### The order of the profiles -/

/-- The same facts, with the profiles in another order. -/
structure Reordered (f g : Facts) : Prop where
  profiles : g.profiles.Perm f.profiles
  usageStatistics : g.usageStatistics = f.usageStatistics
  storeOffered : g.storeOffered = f.storeOffered
  credentialed : g.credentialed = f.credentialed
  gone : g.gone = f.gone

/-- Order does not matter to a verdict. -/
theorem Reordered.verdict_eq (h : Reordered f g) (p : Profile) :
    verdict g platform p = verdict f platform p := by
  simp [verdict, h.usageStatistics, h.storeOffered, h.credentialed, h.gone]

/-- **The placements do not depend on the order of the profiles.** -/
theorem placements_perm (h : Reordered f g) (platform : Bool) :
    placements g platform = placements f platform := by
  have hnamed : ∀ v, named g platform v = named f platform v := fun v => by
    have hperm : (g.profiles.filter fun p => verdict g platform p = v).Perm
        (f.profiles.filter fun p => verdict f platform p = v) := by
      simpa only [h.verdict_eq] using h.profiles.filter _
    exact List.Perm.eq_of_pairwise (fun a b _ _ hab hba => le_antisymm hab hba)
      (pairwise_insertionSort _ _) (pairwise_insertionSort _ _)
      ((perm_insertionSort _ _).trans ((hperm.map _).trans (perm_insertionSort _ _).symm))
  rw [placements, placements, hnamed, hnamed]

/-- No profile among those a contract is approved between names a contract twice. -/
def ContractsOnce (f : Facts) : Prop := ∀ p ∈ ours f, (p.integrations.map (·.contract)).Nodup
deriving Decidable

theorem find_name_iff (hd : (ps.map Profile.name).Nodup) :
    (ps.find? fun p => p.name = n) = some p ↔ p ∈ ps ∧ p.name = n := by
  constructor
  · intro h
    exact ⟨mem_of_find?_eq_some h, by simpa using find?_some h⟩
  · rintro ⟨hp, rfl⟩
    cases hfind : ps.find? fun q => q.name = p.name with
    | none => simpa using find?_eq_none.1 hfind p hp
    | some q =>
      have hname : q.name = p.name := by simpa using find?_some hfind
      rw [inj_on_of_nodup_map hd (mem_of_find?_eq_some hfind) hp hname]

/-- Nor to a grant. -/
theorem grantFor_perm (h : qs.Perm ps) (hd : (ps.map Profile.name).Nodup)
    (consumer : Profile) (i : Integration) : grantFor qs consumer i = grantFor ps consumer i := by
  have hd' : (qs.map Profile.name).Nodup := (h.map _).nodup_iff.2 hd
  have hfind : (qs.find? fun p => p.name = i.provider) = ps.find? fun p => p.name = i.provider :=
    Option.ext fun p => by rw [find_name_iff hd', find_name_iff hd, h.mem_iff]
  rw [grantFor, grantFor, hfind]

theorem grantFor_eq_some {consumer : Profile} {i : Integration}
    (h : grantFor ps consumer i = some a) : a.app = consumer.name ∧ a.contract = i.contract := by
  unfold grantFor at h
  split at h
  · simp at h
  · split_ifs at h
    cases h
    exact ⟨rfl, rfl⟩

/-- The grants of consumers. -/
def granted (f : Facts) (consumers : List Profile) : List Grant :=
  consumers.flatMap fun consumer => consumer.integrations.filterMap (grantFor (ours f) consumer)

theorem ours_sublist (f : Facts) : ((ours f).map Profile.name).Nodup :=
  f.distinct.sublist (filter_sublist.map _)

/-- A key names one grant. -/
theorem eq_of_key (honce : ContractsOnce f) (ha : a ∈ granted f (ours f))
    (hb : b ∈ granted f (ours f)) (hkey : a.key = b.key) : a = b := by
  obtain ⟨happ, hcontract⟩ : a.app = b.app ∧ a.contract = b.contract := by
    simpa [Grant.key] using hkey
  obtain ⟨p, hp, ha⟩ := mem_flatMap.1 ha
  obtain ⟨i, hi, hai⟩ := mem_filterMap.1 ha
  obtain ⟨q, hq, hb⟩ := mem_flatMap.1 hb
  obtain ⟨j, hj, hbj⟩ := mem_filterMap.1 hb
  obtain ⟨hap, hac⟩ := grantFor_eq_some hai
  obtain ⟨hbp, hbc⟩ := grantFor_eq_some hbj
  obtain rfl : p = q := inj_on_of_nodup_map (ours_sublist f) hp hq (hap.symm.trans (happ.trans hbp))
  obtain rfl : i = j := inj_on_of_nodup_map (honce p hp) hi hj
    (hac.symm.trans (hcontract.trans hbc))
  exact Option.some.inj (hai.symm.trans hbj)

theorem Reordered.ours_perm (h : Reordered f g) : (ours g).Perm (ours f) := by
  unfold ours
  rw [h.gone]
  exact h.profiles.filter _

theorem Reordered.granted_perm (h : Reordered f g) (hpq : qs.Perm ps) :
    (granted g qs).Perm (granted f ps) := by
  unfold granted
  simp only [grantFor_perm h.ours_perm (ours_sublist f)]
  exact hpq.flatMap_right _

/-- **What is approved beforehand does not depend on any order**: not on that of the profiles, of
a map or of equal keys. -/
theorem grants_unique (r r' : Runtime) (h : Reordered f g) (honce : ContractsOnce f) :
    preApproved r g = preApproved r' f := by
  have hleft : (preApproved r g).Perm (granted f (ours f)) := (r.sort_perm _).trans
    (h.granted_perm ((r.range_perm _).trans h.ours_perm))
  have hright : (preApproved r' f).Perm (granted f (ours f)) := (r'.sort_perm _).trans
    ((r'.range_perm _).flatMap_right _)
  refine List.Perm.eq_of_pairwise (fun a b ha hb hab hba => ?_) (r.sort_sorted _)
    (r'.sort_sorted _) (hleft.trans hright.symm)
  have hkey : a.key = b.key := le_antisymm (Grant.less_eq_false.1 hab) (Grant.less_eq_false.1 hba)
  exact eq_of_key honce (hleft.mem_iff.1 ha) (hright.mem_iff.1 hb) hkey

/-! ### The placement worker

`internal/director/api/platform_apps.go` (`placePlatformApps`): pass after pass, what is wanted is
written into each tenant's apps, and an entry that is neither wanted nor undecided is taken out
when the pass before found it so too.  The apps that come with a capability of the cluster are
another part of the pass and are left out, as are the contracts that are approved.

Any read and any write of a pass may fail, and the operator may not answer.  An entry that was
wanted stays through any number of passes on facts of which less can be read (`entry_stays`). -/

/-- An entry of `spec.apps`. -/
structure App where
  profile : String
  placed : Bool
deriving DecidableEq

/-- A tenant, with the apps it has. -/
structure Tenant where
  name : String
  purging : Bool
  platform : Bool
  apps : List App
deriving DecidableEq

/-- The repository, and what the last pass found withdrawn (`placementAbsent`). -/
structure Director where
  tenants : List Tenant
  absent : List String
deriving DecidableEq

/-- The calls of a pass. -/
inductive Call where
  | tenantDetails
  | isPlatformTenant (tenant : String)
  | apps (tenant : String)
  | place (tenant profile : String)
  | unplace (tenant profile : String)
deriving DecidableEq

/-- One pass: what the operator answered, if it did, and which calls fail. -/
structure Pass where
  answer : Option Answer
  fails : Call → Bool

/-- What an app that a pass did not want is remembered by. -/
def absentKey (tenant profile : String) : String := tenant ++ "/" ++ profile

/-- A tenant that the pass can read. -/
def reads (fails : Call → Bool) (t : Tenant) : Bool :=
  !t.purging && !fails (.isPlatformTenant t.name) && !fails (.apps t.name)

/-- What is placed: wanted, without an entry of the name. -/
def toPlace (fails : Call → Bool) (set : Placements) (t : Tenant) : List App :=
  (set.wanted.filter fun name =>
    !(t.apps.any fun a => a.profile = name) && !fails (.place t.name name)).map fun name =>
      ⟨name, true⟩

/-- An app that was placed and is decidedly not wanted. -/
def isWithdrawn (set : Placements) (a : App) : Bool :=
  a.placed && !set.has a.profile && set.decided a.profile

/-- A withdrawn app that the pass before had found withdrawn as well. -/
def isRemoved (fails : Call → Bool) (before : List String) (set : Placements) (t : Tenant)
    (a : App) : Bool :=
  isWithdrawn set a && before.contains (absentKey t.name a.profile) &&
    !fails (.unplace t.name a.profile)

/-- What a pass makes of a tenant. -/
def placeIn (fails : Call → Bool) (before : List String) (answer : Answer) (t : Tenant) : Tenant :=
  if reads fails t then
    let set := answer.forTenant t.platform
    { t with apps := (t.apps ++ toPlace fails set t).filter fun a =>
        !(a.placed && isRemoved fails before set t a) }
  else t

/-- What a pass remembers of a tenant. -/
def foundAbsent (fails : Call → Bool) (answer : Answer) (t : Tenant) : List String :=
  if reads fails t then
    (t.apps.filter (isWithdrawn (answer.forTenant t.platform))).map fun a =>
      absentKey t.name a.profile
  else []

/-- `placePlatformApps`, without the apps of a capability. -/
def placePlatformApps (d : Director) (p : Pass) : Director :=
  match p.answer with
  | none => d
  | some answer =>
    if p.fails .tenantDetails then d
    else ⟨d.tenants.map (placeIn p.fails d.absent answer),
      d.tenants.flatMap (foundAbsent p.fails answer)⟩

variable {d : Director} {t : Tenant} {a : App}

/-- A tenant of a kind has an app. -/
def Has (d : Director) (tenant : String) (platform : Bool) (a : App) : Prop :=
  ∃ t ∈ d.tenants, t.name = tenant ∧ t.platform = platform ∧ a ∈ t.apps

variable {tenant : String}

/-- **A pass takes out only what it finds withdrawn**: an entry that is wanted or undecided
stays. -/
theorem has_of_pass {p : Pass} (h : Has d tenant platform a)
    (hstays : ∀ answer, p.answer = some answer →
      isWithdrawn (answer.forTenant platform) a = false) :
    Has (placePlatformApps d p) tenant platform a := by
  obtain ⟨t, ht, rfl, rfl, ha⟩ := h
  unfold placePlatformApps
  split
  · exact ⟨t, ht, rfl, rfl, ha⟩
  next answer hanswer =>
    split_ifs
    · exact ⟨t, ht, rfl, rfl, ha⟩
    · refine ⟨placeIn p.fails d.absent answer t, List.mem_map_of_mem ht, ?_⟩
      unfold placeIn
      split_ifs
      · exact ⟨rfl, rfl, List.mem_filter.2 ⟨List.mem_append_left _ ha, by
          simp [isRemoved, hstays answer hanswer]⟩⟩
      · exact ⟨rfl, rfl, ha⟩

/-- The passes of a run are answered on facts of which no more is read. -/
def AnsweredOn (f : Facts) (p : Pass) : Prop :=
  p.answer = none ∨ ∃ r g, LessRead f g ∧ p.answer = some (decidePlacement r g)

/-- **What was wanted stays through any number of passes** on facts less of which is read. -/
theorem entry_stays (hcred : CredentialOnPlatform f) {ps : List Pass}
    (hps : ∀ p ∈ ps, AnsweredOn f p)
    (hwanted : a.profile ∈ (placements f platform).wanted) (h : Has d tenant platform a) :
    Has (ps.foldl placePlatformApps d) tenant platform a := by
  induction ps generalizing d with
  | nil => exact h
  | cons p ps ih =>
    refine ih (fun q hq => hps q (List.mem_cons_of_mem _ hq))
      (has_of_pass h fun answer hanswer => ?_)
    rcases hps p List.mem_cons_self with hnone | ⟨r, g, hless, hsome⟩
    · simp [hnone] at hanswer
    · obtain rfl : decidePlacement r g = answer := Option.some.inj (hsome.symm.trans hanswer)
      rcases wanted_of_lessRead hless hcred hwanted with hw | hu
      · simp [isWithdrawn, Placements.has, hw]
      · simp [isWithdrawn, Placements.decided, hu]

/-- A profile that the operator places. -/
def placedProfile (name : String) (place : ComponentPlacement) (integrations : List Integration)
    (provides : List String) : Profile :=
  ⟨name, fun _ => "", [.app], .platform, integrations, provides, some place, false, false, false⟩

/-- A vault that is placed on a credential, and a desktop that takes tiles from others. -/
def cluster (tenants : Tenants) (credentialed : Bool) (integrations : List Integration) :
    Facts where
  profiles := [placedProfile "vault" ⟨tenants, .credentialSet⟩ [] [],
    placedProfile "desktop" ⟨.every, .always⟩ integrations [],
    placedProfile "files" ⟨.every, .always⟩ [] ["tiles"],
    placedProfile "mail" ⟨.every, .always⟩ [] ["tiles"]]
  usageStatistics := false
  storeOffered := none
  credentialed := fun n => credentialed && n = "vault"
  gone := fun _ => false
  distinct := by simp [placedProfile]

/-- The tiles of an app of files. -/
def tilesOfFiles : Integration := ⟨"tiles", "files", ["read"]⟩

/-- The tiles of an app of mail. -/
def tilesOfMail : Integration := ⟨"tiles", "mail", ["read"]⟩

/-- A map ranged over in the order of the profiles, and equal keys left as they are or turned
round. -/
def someRuntime (turned : Bool) : Runtime where
  range := id
  sort gs := (if turned then gs.reverse else gs).insertionSort Grant.le
  range_perm _ := .refl _
  sort_perm gs := (List.perm_insertionSort _ _).trans (by
    cases turned
    · exact .refl _
    · exact gs.reverse_perm)
  sort_sorted _ := List.pairwise_insertionSort _ _

/-- A tenant with an app that was placed. -/
def oneTenant : Director := ⟨[⟨"acme", false, false, [⟨"vault", true⟩]⟩], []⟩

/-- A pass on the facts without the credential, in which nothing fails. -/
def passWithout : Pass :=
  ⟨some (decidePlacement (someRuntime false) (cluster .every false [])), fun _ => false⟩

end Gentian.Placement
