/-
# A restore writes into the app's own stores

What the plan of `Gentian.Restore.Plan` holds, for every manifest that it is made of.  `Home`
says which targets are an app's, `appStore_home` and `retainedStore_home` are the two planners'
artifacts one by one, and `planApps_ok` carries them through the loop over the manifest's apps.

Two things a manifest can say are not looked at.  An import makes the claims that the bundle
records for an uninstalled app, and a claim of that name that is there already is taken for it
(`recorded_claim_is_another_apps`); and an app that is listed twice is planned twice.
-/

import Gentian.Restore.Plan

namespace Gentian.Restore

open GoStrings Backup List GoErrors

/-! ### Targets -/

/-- A place that a restore writes to. -/
inductive Slot where
  | database (name : String)
  | bucket (name : String)
  | volume (claim : String)
deriving DecidableEq

/-- The store of an artifact, none for the kinds without a target. -/
def BundleArtefact.slot (a : BundleArtefact) : Option Slot :=
  match a.kind with
  | .postgres | .postgresOwned | .mariadb | .mariadbOwned => some (.database a.target)
  | .s3 => some (.bucket a.target)
  | .volume => some (.volume a.target)
  | _ => none

/-- The stores of an app: its database and its bucket by the inventory's names, its
claims, and the claims that are to be made for it. -/
def Home (tenant : Tenant) (app : String) (claims : List String) (made : String → Prop) :
    Slot → Prop
  | .database name => name = databaseName tenant app
  | .bucket name => name = s3Bucket tenant app
  | .volume claim => claim ∈ claims ∨ made claim

/-- A path that does not lead out of a bundle. -/
def InBundle (p : String) : Prop := GoPath.clean p = p ∧ GoPath.Inside p

/-- A clean path stays in the bundle. -/
theorem inBundle_of_cleanArtefactPath {p : String} (h : cleanArtefactPath p) : InBundle p := by
  simp only [cleanArtefactPath, Bool.not_eq_true', Bool.or_eq_false_iff, decide_eq_false_iff_not,
    not_not] at h
  obtain ⟨⟨⟨⟨⟨-, hrel⟩, hclean⟩, hup⟩, hunder⟩, -⟩ := h
  exact ⟨hclean, GoPath.inside_of_clean hrel hclean hup hunder⟩

section plan

variable {ε : Type} {tenant : Tenant} {app : String} {claims : List String}

variable {artefacts : List BundleArtefact} {a : BundleArtefact}

variable {intoNewTenant : Bool} {profile : ComponentProfile} {stores : List ManifestStore}
  {planned : List PlannedApp} {omitted : List RestoreOmission}
  {one : ManifestStore → Answer ε BundleArtefact} {declared : Stores} {b name : String}

/-- **The loop over an app's stores.**  Every artifact of the answer is that of a store
whose path was let pass. -/
theorem planStores_ok (h : planStores app one stores = .ok (.ok artefacts)) (ha : a ∈ artefacts) :
    ∃ s ∈ stores, cleanArtefactPath s.path ∧ one s = .ok (.ok a) := by
  induction stores generalizing artefacts with
  | nil =>
    obtain rfl : [] = artefacts := by simpa [planStores] using h
    cases ha
  | cons s stores ih =>
    unfold planStores at h
    by_cases hpath : cleanArtefactPath s.path
    · rw [hpath] at h
      match hone : one s, h with
      | .ok (.ok b), h =>
        match hrest : planStores app one stores, h with
        | .ok (.ok rest), h =>
          obtain rfl : b :: rest = artefacts := by simpa using h
          rcases mem_cons.1 ha with rfl | ha
          · exact ⟨s, mem_cons_self, hpath, hone⟩
          · obtain ⟨s', hs', hclean, hone'⟩ := ih hrest ha
            exact ⟨s', mem_cons_of_mem _ hs', hclean, hone'⟩
    · simp [hpath] at h

/-- An artifact of the path of its store, whose target is one of the app's: it says how
to make a claim only where one is to be made. -/
structure AtHome (tenant : Tenant) (app : String) (claims : List String) (made : String → Prop)
    (s : ManifestStore) (a : BundleArtefact) : Prop where
  path : a.path = s.path
  home : ∀ slot, a.slot = some slot → Home tenant app claims made slot
  claim : ∀ claim, a.claim = some claim → made a.target

variable {engine : DatabaseEngine}

theorem slot_of_engine (h : a.kind.engine = some engine) : a.slot = some (.database a.target) := by
  unfold BundleArtefact.slot
  cases hkind : a.kind <;> simp_all [ArtefactKind.engine]

variable {s : ManifestStore} {made : String → Prop}

theorem atHome_database (hkind : s.kind.engine = some engine)
    (ha : a = { s.artefact with target := databaseName tenant app }) :
    AtHome tenant app claims made s a := by
  subst ha
  refine ⟨rfl, fun _ hslot => ?_, nofun⟩
  rw [slot_of_engine hkind] at hslot
  cases hslot
  rfl

/-- A database is restored into the app's own. -/
theorem databaseArtefact_home (hkind : s.kind.engine = some engine)
    (h : (databaseArtefact (inventoryOf tenant app (some profile)) engine s : Answer ε _) =
      .ok (.ok a)) : AtHome tenant app claims made s a := by
  unfold databaseArtefact at h
  split_ifs at h with hengine
  · cases h
  · rw [not_not] at hengine
    have hname : (inventoryOf tenant app (some profile)).database = databaseName tenant app :=
      if_pos (Option.isSome_iff_exists.2 ⟨engine, hengine⟩)
    rw [hname] at h
    cases h
    exact atHome_database hkind rfl

variable {now : LiveApp}

/-- So is that of an app that is kept. -/
theorem heldDatabaseArtefact_home (hkind : s.kind.engine = some engine)
    (h : (heldDatabaseArtefact tenant app now declared intoNewTenant engine s : Answer ε _) =
      .ok (.ok a)) : AtHome tenant app claims made s a := by
  unfold heldDatabaseArtefact at h
  split_ifs at h <;> cases h <;> exact atHome_database hkind rfl

theorem atHome_of_slot_none
    (hpath : a.path = s.path) (hslot : a.slot = none) (hclaim : a.claim = none) :
    AtHome tenant app claims made s a :=
  ⟨hpath, fun _ h => by simp [hslot] at h, fun _ h => by simp [hclaim] at h⟩

theorem plannedSecrets_home (hkind : s.kind = .secrets)
    (h : (plannedSecrets app s : Answer ε BundleArtefact) = .ok (.ok a)) :
    AtHome tenant app claims made s a := by
  unfold plannedSecrets at h
  split_ifs at h
  cases h
  exact atHome_of_slot_none rfl (by simp [BundleArtefact.slot, ManifestStore.artefact, hkind]) rfl

/-- **Each artifact of an installed app** goes into a store of the app. -/
theorem appStore_home
    (h : (appStore (inventoryOf tenant app (some profile)) claims app s : Answer ε _) =
      .ok (.ok a)) : AtHome tenant app claims made s a := by
  unfold appStore at h
  cases hkind : s.kind <;> simp only [hkind] at h
  case secrets => exact plannedSecrets_home hkind h
  case authorization =>
      cases h
      exact atHome_of_slot_none rfl
        (by simp [BundleArtefact.slot, ManifestStore.artefact, hkind]) rfl
  case s3 =>
      split_ifs at h with hs3
      · cases h
      · cases h
        refine ⟨rfl, fun slot hslot => ?_, fun _ h => by cases h⟩
        obtain rfl : .bucket _ = slot := by
          simpa [BundleArtefact.slot, ManifestStore.artefact, hkind] using hslot
        have hdeclared : (profileStores (some profile)).s3 := by
          simpa [inventoryOf] using hs3
        exact if_pos hdeclared
  case volume =>
      by_cases hclaim : s.name ∈ claims
      swap
      · rw [if_pos hclaim] at h
        cases h
      rw [if_neg (not_not.2 hclaim)] at h
      cases h
      refine ⟨rfl, fun slot hslot => ?_, fun _ h => by cases h⟩
      obtain rfl : .volume _ = slot := by
        simpa [BundleArtefact.slot, ManifestStore.artefact, hkind] using hslot
      exact .inl hclaim
  all_goals first
    | cases h
    | exact databaseArtefact_home (by rw [hkind]; rfl) h

/-- The claims that an import makes for an entry of the manifest: those of its volumes
that the app, uninstalled, does not have. -/
def ToMake (target : PlanTarget) (app : ManifestApp) (now : LiveApp) (claim : String) : Prop :=
  target.intoNewTenant = true ∧ app.retained = true ∧ now.installed = false ∧ claim ∉ now.claims ∧
    ∃ s ∈ app.stores, s.kind = .volume ∧ s.name = claim

/-- **Each artifact of an uninstalled app** goes into a store of the app, or into the
claim that its store names. -/
theorem retainedStore_home
    (h : (retainedStore tenant app now declared intoNewTenant s : Answer ε _) = .ok (.ok a)) :
    AtHome tenant app now.claims (fun claim => intoNewTenant ∧ claim ∉ now.claims ∧
      s.kind = .volume ∧ s.name = claim) s a := by
  unfold retainedStore at h
  cases hkind : s.kind <;> simp only [hkind] at h
  case secrets => exact plannedSecrets_home hkind h
  case authorization =>
      cases h
      exact atHome_of_slot_none rfl
        (by simp [BundleArtefact.slot, ManifestStore.artefact, hkind]) rfl
  case s3 =>
      have ha : a = { s.artefact with target := s3Bucket tenant app } := by
        split_ifs at h <;> cases h <;> rfl
      subst ha
      refine ⟨rfl, fun slot hslot => ?_, nofun⟩
      obtain rfl : .bucket _ = slot := by
        simpa [BundleArtefact.slot, ManifestStore.artefact, hkind] using hslot
      rfl
  case volume =>
      have hslot : ∀ claim, ({ s.artefact with target := s.name, claim } : BundleArtefact).slot =
          some (.volume s.name) := by simp [BundleArtefact.slot, ManifestStore.artefact, hkind]
      split_ifs at h with hclaim hnew hsize <;> cases h
      · refine ⟨rfl, fun slot h => ?_, nofun⟩
        obtain rfl : .volume s.name = slot := by simpa [hslot] using h
        exact .inl hclaim
      · have hmade : intoNewTenant ∧ s.name ∉ now.claims := ⟨by simpa using hnew, hclaim⟩
        refine ⟨rfl, fun slot h => ?_, fun _ _ => ⟨hmade.1, hmade.2, rfl, rfl⟩⟩
        obtain rfl : .volume s.name = slot := by simpa [hslot] using h
        exact .inr ⟨hmade.1, hmade.2, rfl, rfl⟩
  all_goals first
    | cases h
    | exact heldDatabaseArtefact_home (by rw [hkind]; rfl) h

/-! ### The loop over the apps -/

variable {lessThan : String → String → Option Bool} {m : Manifest} {wanted : List String}
  {skip : Bool} {target : PlanTarget} {live : String → Except ε LiveApp}

/-- An app that the cluster knows of: it is installed, has a profile, or has data. -/
def LiveApp.known (now : LiveApp) : Bool :=
  now.installed || now.profile.isSome || !now.holdsNothing

/-- What is known of an app in a plan. -/
structure Planned (tenant : Tenant) (target : PlanTarget) (app : ManifestApp) (now : LiveApp)
    (artefacts : List BundleArtefact) : Prop where
  known : now.known = true
  path : ∀ a ∈ artefacts, InBundle a.path
  home : ∀ a ∈ artefacts, ∀ slot, a.slot = some slot →
    Home tenant app.name now.claims (ToMake target app now) slot
  claim : ∀ a ∈ artefacts, ∀ claim, a.claim = some claim → ToMake target app now a.target

variable {app : ManifestApp}

theorem Planned.of_stores (hknown : now.known)
    (h : planStores app.name one stores = .ok (.ok artefacts))
    (hone : ∀ s ∈ stores, ∀ a, one s = .ok (.ok a) →
      AtHome tenant app.name now.claims (ToMake target app now) s a) :
    Planned tenant target app now artefacts := by
  refine ⟨hknown, fun a ha => ?_, fun a ha => ?_, fun a ha => ?_⟩ <;>
    obtain ⟨s, hs, hclean, ha⟩ := planStores_ok h ha
  · exact (hone s hs a ha).path ▸ inBundle_of_cleanArtefactPath hclean
  · exact (hone s hs a ha).home
  · exact (hone s hs a ha).claim

/-- What a plan for an app writes to. -/
theorem planApp_ok {source : Tenant}
    (h : (planApp lessThan m source tenant app now skip : Answer ε _) = .ok (.ok artefacts)) :
    Planned tenant target app now artefacts := by
  unfold planApp at h
  cases hinstalled : now.installed with
  | false => simp [hinstalled] at h
  | true =>
    simp only [hinstalled, Bool.not_true, Bool.false_eq_true, if_false] at h
    split at h
    · cases h
    · split at h
      · cases h
      · exact .of_stores (by simp [LiveApp.known, hinstalled]) h fun s _ a ha => appStore_home ha

/-- What a plan for a kept app writes to. -/
theorem planRetained_ok (hretained : app.retained) (hinstalled : now.installed = false)
    (h : (planRetained tenant app now target.intoNewTenant : Answer ε _) = .ok (.ok artefacts)) :
    Planned tenant target app now artefacts := by
  unfold planRetained at h
  split_ifs at h with hnothing hprofile
  · cases h
  · cases h
  have hknown : now.known := by
    cases hnew : target.intoNewTenant with
    | false =>
      have : now.holdsNothing = false := by simpa [hnew] using hnothing
      simp [LiveApp.known, this]
    | true =>
      have : now.profile.isSome := by simpa [hnew, Option.isSome_iff_ne_none] using hprofile
      simp [LiveApp.known, this]
  dsimp only at h
  split at h
  · cases h
  · cases h
  next hstores =>
    split_ifs at h <;> cases h
    refine .of_stores hknown hstores fun s hs a ha => ?_
    obtain ⟨hpath, hslot, hmade⟩ := retainedStore_home ha
    have hrecorded : ∀ claim, (target.intoNewTenant ∧ claim ∉ now.claims ∧
        s.kind = .volume ∧ s.name = claim) → ToMake target app now claim :=
      fun claim ⟨hnew, hclaim, hkind, hname⟩ =>
        ⟨hnew, hretained, hinstalled, hclaim, s, hs, hkind, hname⟩
    refine ⟨hpath, fun slot h => ?_, fun claim h => hrecorded _ (hmade claim h)⟩
    cases slot with
    | database => exact hslot _ h
    | bucket => exact hslot _ h
    | volume => exact (hslot _ h).imp_right (hrecorded _)

/-- **An app that is planned**, by either planner. -/
theorem planOne_ok
    (h : (planOne lessThan m tenant skip target app now : Answer ε _) = .ok (.ok artefacts)) :
    Planned tenant target app now artefacts := by
  unfold planOne at h
  split_ifs at h with hbound hretained
  · cases h
  · rw [Bool.and_eq_true, Bool.not_eq_true'] at hretained
    exact planRetained_ok hretained.1 hretained.2 h
  · exact planApp_ok h

/-- What is known of an app that is there no more. -/
structure Gone (tenant : Tenant) (wanted : List String) (target : PlanTarget)
    (live : String → Except ε LiveApp) (apps : List ManifestApp) (planned : List PlannedApp)
    (omitted : List RestoreOmission) : Prop where
  names : (planned.map (·.name)).Sublist ((apps.filter (considered wanted)).map (·.name))
  entry : ∀ p ∈ planned, ∃ app ∈ apps, app.name = p.name ∧ ∃ now, live app.name = .ok now ∧
    Planned tenant target app now p.artefacts
  all : ∀ app ∈ apps, considered wanted app = true →
    app.name ∈ planned.map (·.name) ∨ app.name ∈ omitted.map (·.app)

/-- What the plan for all apps writes to. -/
theorem planApps_ok {apps : List ManifestApp}
    (h : planApps lessThan m tenant wanted skip target live apps = .ok (planned, omitted)) :
    Gone tenant wanted target live apps planned omitted := by
  induction apps generalizing planned omitted with
  | nil =>
    cases h
    exact ⟨by simp, by simp, by simp⟩
  | cons app apps ih =>
    unfold planApps at h
    cases hconsidered : considered wanted app with
    | false =>
      rw [hconsidered] at h
      obtain ⟨hnames, hentry, hall⟩ := ih h
      refine ⟨by simpa [hconsidered] using hnames, fun p hp => ?_, ?_⟩
      · obtain ⟨a, ha, hrest⟩ := hentry p hp
        exact ⟨a, mem_cons_of_mem _ ha, hrest⟩
      · exact forall_mem_cons.2 ⟨by simp [hconsidered], hall⟩
    | true =>
      rw [hconsidered] at h
      obtain ⟨now, hnow, h⟩ := bind_eq_ok.1 h
      obtain ⟨answer, hone, h⟩ := bind_eq_ok.1 h
      have hlive : live app.name = .ok now := by
        cases hl : live app.name with
        | error e => simp [hl, Except.mapError] at hnow
        | ok _ => simpa [hl, Except.mapError] using hnow
      cases answer with
      | error _ =>
        obtain ⟨⟨planned', omitted'⟩, hrest, h⟩ := bind_eq_ok.1 h
        cases h
        obtain ⟨hnames, hentry, hall⟩ := ih hrest
        refine ⟨?_, fun p hp => ?_, ?_⟩
        · rw [filter_cons_of_pos hconsidered]
          exact hnames.cons _
        · obtain ⟨a, ha, hrest⟩ := hentry p hp
          exact ⟨a, mem_cons_of_mem _ ha, hrest⟩
        · refine forall_mem_cons.2 ⟨fun _ => .inr mem_cons_self, fun a ha hc => ?_⟩
          exact (hall a ha hc).imp_right (mem_cons_of_mem _)
      | ok _ =>
        obtain ⟨⟨planned', omitted'⟩, hrest, h⟩ := bind_eq_ok.1 h
        cases h
        obtain ⟨hnames, hentry, hall⟩ := ih hrest
        refine ⟨?_, forall_mem_cons.2 ⟨?_, fun p hp => ?_⟩, ?_⟩
        · rw [filter_cons_of_pos hconsidered]
          exact hnames.cons_cons _
        · exact ⟨app, mem_cons_self, rfl, now, hlive, planOne_ok hone⟩
        · obtain ⟨a, ha, hrest⟩ := hentry p hp
          exact ⟨a, mem_cons_of_mem _ ha, hrest⟩
        · refine forall_mem_cons.2 ⟨fun _ => .inl mem_cons_self, fun a ha hc => ?_⟩
          exact (hall a ha hc).imp_left (mem_cons_of_mem _)

theorem ownArtefact_ok {kind : ArtefactKind} {held : Option (String × String)} {goal : String}
    (h : (ownArtefact kind held goal : Except (PlanError ε) _) = .ok artefacts) :
    ∀ a ∈ artefacts, InBundle a.path := by
  unfold ownArtefact at h
  split at h
  · cases h
    simp
  · split_ifs at h with hempty hclean
    · cases h
      simp
    · cases h
      rw [Bool.not_eq_true', Bool.not_eq_false] at hclean
      exact forall_mem_singleton.2 (inBundle_of_cleanArtefactPath hclean)

/-- What is the tenant's own is read from the bundle. -/
theorem tenantWide_ok (h : (tenantWide m tenant target : Except (PlanError ε) _) = .ok artefacts) :
    ∀ a ∈ artefacts, InBundle a.path := by
  obtain ⟨identity, hidentity, h⟩ := bind_eq_ok.1 h
  obtain ⟨shell, hshell, h⟩ := bind_eq_ok.1 h
  obtain ⟨mailboxes, hmailboxes, h⟩ := bind_eq_ok.1 h
  cases h
  intro a ha
  rcases mem_append.1 ha with ha | ha
  · rcases mem_append.1 ha with ha | ha
    · exact ownArtefact_ok hidentity a ha
    · exact ownArtefact_ok hshell a ha
  · split_ifs at ha
    · cases ha
    · exact ownArtefact_ok hmailboxes a ha

/-- What a whole plan has checked. -/
theorem planRestore_ok {plan : RestorePlan}
    (h : planRestore lessThan m tenant wanted skip target live = .ok plan) :
    (m.tenant = tenant.name ∨ m.tenant = "") ∧
      Gone tenant wanted target live m.apps plan.apps plan.notRestored ∧
      (wanted ≠ [] → (∀ name ∈ wanted, name ∈ heldApps m) ∧ plan.notRestored = []) ∧
      ∀ a ∈ plan.tenantWide, InBundle a.path := by
  unfold planRestore at h
  split_ifs at h
  obtain ⟨⟨apps, notRestored⟩, happs, h⟩ := bind_eq_ok.1 h
  dsimp only at h
  split_ifs at h with hasked hnone
  · obtain ⟨_, -, h⟩ := bind_eq_ok.1 h
    cases h
  obtain ⟨wide, hwide, h⟩ := bind_eq_ok.1 h
  cases h
  refine ⟨by tauto, planApps_ok happs, fun hwanted => ?_, tenantWide_ok hwide⟩
  have hmissing : (∀ name ∈ wanted, name ∈ heldApps m) ∧ notRestored = [] := by
    simpa [hwanted] using hasked
  exact hmissing

/-! ### The result -/

/-- What is asked of a manifest and the tenant it is restored into, where `apps` are the
apps there are and `claims` the claims of the tenant's namespace: no app is listed twice;
the apps that the cluster knows of have the names that it lets an app have; no two apps
have a claim in common; and a claim that an import is to make is nobody's yet, and is
recorded for one app. -/
structure Sound (m : Manifest) (target : PlanTarget) (live : String → Except ε LiveApp)
    (apps : List String) (claims : List VolumeClaim) : Prop where
  once : (heldApps m).Nodup
  listed : ∀ app ∈ m.apps, app.name ∈ apps
  label : ∀ app ∈ m.apps, ∀ now, live app.name = .ok now → now.known = true →
    Api.dnsLabel app.name = true
  apart : ∀ a ∈ apps, ∀ b ∈ apps, a ≠ b → ∀ now other, live a = .ok now → live b = .ok other →
    ∀ claim ∈ now.claims, claim ∉ other.claims
  fresh : ∀ app ∈ m.apps, ∀ now, live app.name = .ok now → ∀ claim, ToMake target app now claim →
    claim ∉ claims.map VolumeClaim.name ∧
      ∀ b ∈ apps, b ≠ app.name → ∀ other, live b = .ok other → claim ∉ other.claims
  recorded : ∀ a ∈ m.apps, ∀ b ∈ m.apps, a.name ≠ b.name → ∀ now other, live a.name = .ok now →
    live b.name = .ok other → ∀ claim, ToMake target a now claim → ¬ToMake target b other claim

/-- All that a plan writes to is the tenant's own. -/
structure OwnStores (m : Manifest) (tenant : Tenant) (wanted : List String)
    (live : String → Except ε LiveApp) (apps : List String) (claims : List VolumeClaim)
    (plan : RestorePlan) : Prop where
  ofTenant : m.tenant = tenant.name ∨ m.tenant = ""
  paths : ∀ p ∈ plan.apps, ∀ a ∈ p.artefacts, InBundle a.path
  widePaths : ∀ a ∈ plan.tenantWide, InBundle a.path
  once : (plan.apps.map (·.name)).Nodup
  all : wanted = [] → ∀ name ∈ heldApps m,
    name ∈ plan.apps.map (·.name) ∨ name ∈ plan.notRestored.map (·.app)
  asked : wanted ≠ [] → ∀ name ∈ wanted, name ∈ plan.apps.map (·.name)
  database : ∀ p ∈ plan.apps, ∀ a ∈ p.artefacts, ∀ name, a.slot = some (.database name) →
    name = databaseName tenant p.name
  bucket : ∀ p ∈ plan.apps, ∀ a ∈ p.artefacts, ∀ name, a.slot = some (.bucket name) →
    name = s3Bucket tenant p.name
  volume : ∀ p ∈ plan.apps, ∀ a ∈ p.artefacts, ∀ claim, a.slot = some (.volume claim) →
    (claim ∉ claims.map VolumeClaim.name ∨ ∃ now, live p.name = .ok now ∧ claim ∈ now.claims) ∧
      ∀ b ∈ apps, b ≠ p.name → ∀ other, live b = .ok other → claim ∉ other.claims
  made : ∀ p ∈ plan.apps, ∀ a ∈ p.artefacts, ∀ claim, a.claim = some claim → ∀ quantity after,
    ensureRetainedClaim quantity claims a.target claim = .ok after →
      after = claims ++ [madeClaim a.target claim]
  apart : ∀ p ∈ plan.apps, ∀ q ∈ plan.apps, p.name ≠ q.name → ∀ a ∈ p.artefacts,
    ∀ b ∈ q.artefacts, ∀ slot, a.slot = some slot → b.slot ≠ some slot

/-- Two apps have two databases. -/
theorem databaseName_inj {a : String} (ha : Api.dnsLabel a) (hb : Api.dnsLabel b)
    (h : databaseName tenant a = databaseName tenant b) : a = b :=
  replaceAll_inj (Api.not_mem_of_dnsLabel ha (by decide)) (Api.not_mem_of_dnsLabel hb (by decide))
    (String.append_right_inj _ |>.1 h)

/-- Two apps have two buckets. -/
theorem s3Bucket_inj {a : String} (ha : Api.dnsLabel a) (hb : Api.dnsLabel b)
    (h : s3Bucket tenant a = s3Bucket tenant b) : a = b := by
  rw [s3Bucket, s3Bucket, s3Safe_of_dnsLabel ha, s3Safe_of_dnsLabel hb] at h
  exact String.append_right_inj _ |>.1 h

variable {apps : List String} {volumes : List VolumeClaim}

/-- **No store is two apps'.** -/
theorem Sound.homes_apart (hsound : Sound m target live apps volumes) {a b : ManifestApp}
    (ha : a ∈ m.apps) (hb : b ∈ m.apps) (hne : a.name ≠ b.name) {other : LiveApp}
    (hnow : live a.name = .ok now) (hother : live b.name = .ok other) (hka : now.known)
    (hkb : other.known) {slot : Slot}
    (h : Home tenant a.name now.claims (ToMake target a now) slot) :
    ¬Home tenant b.name other.claims (ToMake target b other) slot := by
  intro h'
  have hla := hsound.label a ha now hnow hka
  have hlb := hsound.label b hb other hother hkb
  cases slot with
  | database name => exact hne (databaseName_inj hla hlb (h.symm.trans h'))
  | bucket name => exact hne (s3Bucket_inj hla hlb (h.symm.trans h'))
  | volume claim =>
    rcases h with h | h
    · rcases h' with h' | h'
      · exact hsound.apart _ (hsound.listed a ha) _ (hsound.listed b hb) hne now other hnow hother
          claim h h'
      · exact (hsound.fresh b hb other hother claim h').2 _ (hsound.listed a ha) hne now hnow h
    · rcases h' with h' | h'
      · exact (hsound.fresh a ha now hnow claim h).2 _ (hsound.listed b hb) hne.symm other hother h'
      · exact hsound.recorded a ha b hb hne now other hnow hother claim h h'

theorem Sound.volume (hsound : Sound m target live apps volumes) {a : ManifestApp}
    (ha : a ∈ m.apps) (hnow : live a.name = .ok now) {claim : String}
    (h : Home tenant a.name now.claims (ToMake target a now) (.volume claim)) :
    (claim ∉ volumes.map VolumeClaim.name ∨ claim ∈ now.claims) ∧
      ∀ b ∈ apps, b ≠ a.name → ∀ other, live b = .ok other → claim ∉ other.claims := by
  rcases h with h | h
  · exact ⟨.inr h, fun b hb hne other hother =>
      hsound.apart _ (hsound.listed a ha) b hb hne.symm now other hnow hother claim h⟩
  · obtain ⟨habsent, hothers⟩ := hsound.fresh a ha now hnow claim h
    exact ⟨.inl habsent, hothers⟩

/-- A volume that is made is a new one. -/
theorem ensureRetainedClaim_ok {quantity : String → Bool} {claim : ManifestClaim}
    {after : List VolumeClaim} (hname : name ∉ volumes.map VolumeClaim.name)
    (h : ensureRetainedClaim quantity volumes name claim = .ok after) :
    after = volumes ++ [madeClaim name claim] := by
  unfold ensureRetainedClaim at h
  split_ifs at h
  exact (Except.ok.inj h).symm

theorem map_considered_sublist :
    ((m.apps.filter (considered wanted)).map (·.name)).Sublist (heldApps m) := by
  rw [heldApps, filter_map]
  refine (monotone_filter_right _ fun _ h => ?_).map _
  rw [considered, Bool.and_eq_true] at h
  simpa using h.1

/-- No app of the bundle is passed over in silence. -/
theorem Gone.of_held (hgone : Gone tenant wanted target live m.apps planned omitted)
    (hname : name ∈ heldApps m) (hwanted : wanted = [] ∨ name ∈ wanted) :
    name ∈ planned.map (·.name) ∨ name ∈ omitted.map (·.app) := by
  obtain ⟨hentry, happ⟩ := mem_filter.1 hname
  obtain ⟨app, hmem, rfl⟩ := mem_map.1 hentry
  refine hgone.all app hmem ?_
  have happ' : app.name ≠ tenantComponent ∧ app.name ≠ "" := by simpa using happ
  simpa [considered, and_assoc] using ⟨happ'.1, happ'.2, hwanted⟩

end plan

/-! ### An import -/

/-- The profiles of a wiki and of notes. -/
def demoProfile (app : String) : Option RestoreProfile :=
  if app = "wiki" ∨ app = "notes" then
    some ⟨⟨[], some app, some .postgresql, false, none, false⟩, "1.0.0", [], false⟩
  else none

/-- A tenant that has the wiki alone. -/
def demoTenant : Tenant := ⟨"demo", "", none, 0, [⟨"wiki", "", false, []⟩]⟩

/-- The wiki's volume. -/
def wikiClaim : VolumeClaim := ⟨"data-wiki-0", none, none, none, some "wiki-release"⟩

/-- What is there. -/
def demoState : LiveState := ⟨demoProfile, [wikiClaim], fun _ => none, []⟩

/-- What is found of an app. -/
def demoLive (app : String) : Except Empty LiveApp := .ok (demoState.live demoTenant app)

/-- A restore into a new tenant. -/
def demoImport : PlanTarget :=
  ⟨true, "demo_shell", "", "demo.example", "", false, checkProvenance id none none "" none⟩

/-- A bundle with the wiki's data and the notes of an app that was uninstalled, whose
files were in the claim of the name that is given. -/
def notesBundle (claim : String) : Manifest where
  schemaVersion := 3
  tenant := "demo"
  isolation := none
  domain := ""
  customDomain := ""
  kernelDomain := ""
  apps :=
    [{ name := "wiki", chartVersion := "1.0.0", retained := false
       stores := [{ kind := .postgres, name := "demo_wiki", path := "postgres/demo_wiki.pgc" }] },
     { name := "notes", chartVersion := "1.0.0", retained := true
       stores :=
        [{ kind := .postgres, name := "demo_notes", path := "postgres/demo_notes.pgc" },
         { kind := .volume, name := claim, path := "volumes/notes.tar.gz"
           claim := some ⟨"1Gi", [], "", [], []⟩ }] }]
  identity := none
  shell := none
  mailboxes := none
  rights := none

/-- The plan for the bundle with notes. -/
def notesPlan (claim : String) : RestorePlan where
  apps :=
    [⟨"wiki", [{ kind := .postgres, name := "demo_wiki", path := "postgres/demo_wiki.pgc"
                 target := "demo_wiki" }], false, "1.0.0"⟩,
     ⟨"notes",
      [{ kind := .postgres, name := "demo_notes", path := "postgres/demo_notes.pgc"
         target := "demo_notes" },
       { kind := .volume, name := claim, path := "volumes/notes.tar.gz", target := claim
         claim := some ⟨"1Gi", [], "", [], []⟩ }], true, "1.0.0"⟩]
  tenantWide := []
  notRestored := []
  derived := false
  rights := none

/-- A bundle that has the wiki twice. -/
def wikiTwice : Manifest :=
  { notesBundle "" with apps := (notesBundle "").apps.flatMap fun app =>
      if app.name = "wiki" then [app, app] else [] }

theorem sound_notesBundle : Sound (notesBundle "data-notes-0") demoImport demoLive
    ["wiki", "notes"] [wikiClaim] where
  once := by decide +kernel
  listed := by decide +kernel
  label app happ _ _ _ := by
    have hlabel : ∀ app ∈ (notesBundle "data-notes-0").apps, Api.dnsLabel app.name := by
      decide +kernel
    exact hlabel app happ
  apart a ha b hb hne now other hnow hother := by
    have hapart : ∀ a ∈ ["wiki", "notes"], ∀ b ∈ ["wiki", "notes"], a ≠ b →
        ∀ claim ∈ (demoState.live demoTenant a).claims,
          claim ∉ (demoState.live demoTenant b).claims := by decide +kernel
    cases hnow
    cases hother
    exact hapart a ha b hb hne
  fresh app happ now _ claim hrecorded := by
    have hfresh : ∀ app ∈ (notesBundle "data-notes-0").apps, ∀ s ∈ app.stores, s.kind = .volume →
        s.name ∉ [wikiClaim].map VolumeClaim.name ∧ ∀ b ∈ ["wiki", "notes"],
          s.name ∉ (demoState.live demoTenant b).claims := by decide +kernel
    obtain ⟨-, -, -, -, s, hs, hkind, rfl⟩ := hrecorded
    refine ⟨(hfresh app happ s hs hkind).1, fun b hb _ other hother => ?_⟩
    cases hother
    exact (hfresh app happ s hs hkind).2 b hb
  recorded a ha b hb hne now other _ _ claim hrecorded hrecorded' := by
    have hone : ∀ a ∈ (notesBundle "data-notes-0").apps, ∀ b ∈ (notesBundle "data-notes-0").apps,
        a.name ≠ b.name → ∀ s ∈ a.stores, s.kind = .volume → ∀ s' ∈ b.stores,
          s'.kind = .volume → s'.name ≠ s.name := by decide +kernel
    obtain ⟨-, -, -, -, s, hs, hkind, rfl⟩ := hrecorded
    obtain ⟨-, -, -, -, s', hs', hkind', hname⟩ := hrecorded'
    exact hone a ha b hb hne s hs hkind s' hs' hkind' hname

theorem planRestore_notesBundle :
    planRestore (fun _ _ => none) (notesBundle "data-notes-0") demoTenant [] false demoImport
      demoLive = .ok (notesPlan "data-notes-0") := by
  decide +kernel

end Gentian.Restore
