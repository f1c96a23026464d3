/-
# Whether rights survive a backup and a restore

`internal/director/authz/storeonly.go` (`StoreOnlyOf`),
`internal/controller/tenant_rights.go` (`storeOnlyRights`, `rightsPlan`,
`applyRights`) and the projections (`tenants.go`, `apps.go`).

A restore begins with what the projections write into a store that holds nothing (`afresh`),
and then grants and withdraws what was recorded.  What comes back is what there was, except
for what the projections alone decide on (`ProjectionsOwn`): an entry somebody added under
them is lost (`added_entitlement_is_lost`).
-/

import Gentian.Restore.Rights

namespace Gentian.Restore

open GoStrings Api OpenFGA Authz List

/-- What the projections write into a store that holds nothing. -/
def afresh (c : String) (ts : TenantList) (installed : InstalledApps) : Store :=
  project c Store.empty [(.tenants ts, .read .answered), (.apps installed, .read .answered)]

/-- The plan of a restore on the cluster the bundle was taken on. -/
def planOf (c t : String) (only : StoreOnly) (provenance : Provenance) : Option RestoreRights :=
  rightsPlan (some ⟨c, only.granted, only.withdrawn⟩) t c provenance true

/-- What is recorded of a tenant's rights, put back after the projections have run
over an empty store. -/
def backupAndRestore (s : Store) (c t : String) (apps : List InstalledApp) (held : List String)
    (ts : TenantList) (installed : InstalledApps) (provenance : Provenance) :
    Except StoreOnlyError (Option RestoreRights × Applied) :=
  match storeOnlyOf s c t apps held with
  | .error e => .error e
  | .ok only =>
    let plan := planOf c t only provenance
    .ok (plan, applyRights (afresh c ts installed) true c t plan (.read .answered))

/-- A name Kubernetes admits, as far as the store's ids depend on it. -/
def PlainName (name : String) : Prop := name ≠ "" ∧ containsAny name "| \t\r\n*#:" = false
deriving Decidable

/-- The entries on the tenant and on the apps a backup reads. -/
def OnCarried (s : Store) (t : String) (want : List Tuple) (held : List String) (x : Tuple) : Prop :=
  x.object = tenant t ∨ x.object ∈ carriedObjects s t want held
deriving Decidable

/-- The entries the projections alone decide on: those of the claim, an app's `tenant`
and `entitled` tuples, and the consent of the platform tenant. -/
def ProjectionsOwn (c : String) (r : TenantRights) (x : Tuple) : Prop :=
  Claims r x ∨
    (x.object ≠ tenant r.name ∧ (x.relation = "tenant" ∨ x.relation = "entitled")) ∨
    (x = operatedBy c r.name ∧ r.name = platformTenant)
deriving Decidable

/-! ### What the projections write afresh -/

section Afresh

variable {c : String} {r : TenantRights} {ts : TenantList} {installed : InstalledApps}
  {apps : List InstalledApp} {want : List Tuple} {x : Tuple}

theorem due_empty : Due c Store.empty r x ↔ x ∈ defaults c r ∨ x ∈ claimed r := by
  simp only [Due, defaults, mem_append, mem_cons]
  tauto

/-- What is wanted on an app is what its tenant's apps call for. -/
theorem wanted_iff (happs : (r.name, apps) ∈ installed.entries)
    (hwant : appTuples r.name apps = .ok want) {p : String} (hobj : x.object = app r.name p) :
    Wanted installed.toInstalled x ↔ x ∈ want := by
  constructor
  · rintro ⟨e, he, want', hwant', hx⟩
    obtain ⟨q, hq⟩ := ((appTuples_eq_ok (installed.valid e he) hwant').shape x hx).object
    have hname := (app_inj (installed.valid e he) r.valid (hq.symm.trans hobj)).1
    obtain rfl := inj_on_of_nodup_map installed.nodup he happs hname
    exact Except.ok.inj (hwant'.symm.trans hwant) ▸ hx
  · exact fun hx => ⟨_, happs, want, hwant, hx⟩

/-- **What the projections write afresh for a tenant and its apps**: the defaults, the
claim's role holders and the apps' tuples. -/
theorem mem_afresh (hr : r ∈ ts.entries) (happs : (r.name, apps) ∈ installed.entries)
    (hnamed : ∀ e ∈ installed.entries, ∃ want, appTuples e.1 e.2 = .ok want)
    (hwant : appTuples r.name apps = .ok want)
    (hobj : x.object = tenant r.name ∨ ∃ p, x.object = app r.name p) :
    x ∈ afresh c ts installed ↔ x ∈ defaults c r ∨ x ∈ claimed r ∨ x ∈ want := by
  have hall := appTuples_eq_ok r.valid hwant
  set a := (reconcileTenants c .empty ts (.read .answered)).1 with ha
  have hmem : ∀ x, x ∈ a ↔ ∃ r ∈ ts.entries, x ∈ defaults c r ∨ x ∈ claimed r := by
    intro x
    rw [(mem_reconcileTenants c _ ts).2]
    simp [due_empty, Store.not_mem_empty]
  obtain ⟨w, d, hplan⟩ := (planApps_isOk_iff).2 fun e he =>
    hnamed e (Installed.mem_sorted.1 he)
  have hafresh : x ∈ afresh c ts installed ↔
      Wanted installed.toInstalled x ∨ (x ∈ a ∧ ¬GoneOver a installed.toInstalled x) :=
    (installed.mem_reconcileApps hplan).2 x
  rw [hafresh]
  rcases hobj with hobj | ⟨p, hobj⟩
  · -- on the tenant the call for the apps changes nothing
    have hno : ¬Wanted installed.toInstalled x := by
      rintro ⟨e, he, want', hwant', hx⟩
      obtain ⟨q, hq⟩ := ((appTuples_eq_ok (installed.valid e he) hwant').shape x hx).object
      exact tenant_ne_app _ _ _ (hobj.symm.trans hq)
    have hover : ¬GoneOver a installed.toInstalled x := by
      rintro ⟨-, e, he, want', hwant', ho⟩
      obtain ⟨q, hq⟩ := app_of_mem_appObjects (appTuples_eq_ok (installed.valid e he) hwant') ho
      exact tenant_ne_app _ _ _ (hobj.symm.trans hq)
    have hx : x ∉ want := fun hx => by
      obtain ⟨q, hq⟩ := (hall.shape x hx).object
      exact tenant_ne_app _ _ _ (hobj.symm.trans hq)
    rw [or_iff_right hno, and_iff_left hover, hmem, or_iff_left hx]
    refine ⟨?_, fun h => ⟨r, hr, h⟩⟩
    rintro ⟨r', hr', h⟩
    have hname : r'.name = r.name := tenant_inj ((due_empty.2 h).object.symm.trans hobj)
    exact inj_on_of_nodup_map ts.nodup hr' hr hname ▸ h
  · -- on an app the call for the tenants writes nothing
    have hno : x ∉ a := fun hx => by
      obtain ⟨r', -, h⟩ := (hmem x).1 hx
      exact tenant_ne_app _ _ _ ((due_empty.2 h).object.symm.trans hobj)
    have hdef : ¬(x ∈ defaults c r ∨ x ∈ claimed r) := fun h =>
      tenant_ne_app _ _ _ ((due_empty.2 h).object.symm.trans hobj)
    rw [wanted_iff happs hwant hobj, or_iff_left fun h => hno h.1, ← or_assoc, or_iff_right hdef]

end Afresh

/-! ### The plan of this cluster's own bundle -/

section Proven

variable {c : String} {r : TenantRights} {provenance : Provenance} {only : StoreOnly}
  {s : Store} {x : Tuple}

/-- The tuples on a tenant. -/
def taken (t : String) (xs : List Tuple) : List Tuple := xs.filter fun x => onTenant x t

variable {xs : List Tuple} {t : String}

theorem mem_taken : x ∈ taken t xs ↔ x ∈ xs ∧ onTenant x t :=
  mem_filter

theorem usableGrant_proven (m : ManifestRights) (t : String) :
    usableGrant m t c "" true = usable m t c "" true := by
  funext raw
  simp [usableGrant]

/-- Every right on the tenant can be used. -/
theorem filter_usable {m : ManifestRights} (hm : m.cluster = c)
    (hform : ∀ x ∈ xs, wellFormed x = none) :
    ((xs.map (usable m t c "" true)).filter fun p => decide (p.2 = "")).map
      (fun p => rightsText p.1) = (taken t xs).map rightsText := by
  induction xs with
  | nil => rfl
  | cons x xs ih =>
    obtain ⟨hx, hxs⟩ := forall_mem_cons.1 hform
    have hself : rebase x m.cluster c = x := hm ▸ rebase_self hx c
    have hwhy : whyNot x t "" true = "" ↔ onTenant x t := by
      rw [whyNot_eq_empty]
      simp [hx]
    unfold taken at ih ⊢
    rw [map_cons, filter_cons, filter_cons]
    simp only [usable, hself, hwhy] at ih ⊢
    by_cases hon : onTenant x t
    · rw [hon]
      exact congrArg _ (ih hxs)
    · simp only [hon]
      exact ih hxs

/-- A bundle of well-formed entries, which this cluster has written itself. -/
structure OwnBundle (only : StoreOnly) (provenance : Provenance) : Prop where
  proven : provenance.isProven = true
  granted : ∀ x ∈ only.granted, wellFormed x = none
  withdrawn : ∀ x ∈ only.withdrawn, wellFormed x = none

/-- **The plan of this cluster's own bundle** takes up its entries on the tenant. -/
theorem planOf_eq (h : OwnBundle only provenance) :
    (planOf c t only provenance = none ∧ only.granted = [] ∧ only.withdrawn = []) ∨
      ∃ p, planOf c t only provenance = some p ∧ p.applied = false ∧
        p.grant = (taken t only.granted).map rightsText ∧
        p.withdraw = (taken t only.withdrawn).map rightsText := by
  unfold planOf rightsPlan
  simp only [h.proven]
  split_ifs with hempty
  · exact .inl ⟨rfl, hempty⟩
  · refine .inr ⟨_, rfl, rfl, ?_, filter_usable rfl h.withdrawn⟩
    simp only [usableGrant_proven]
    exact filter_usable rfl h.granted

theorem read_eq_nil_of_onTenant (hform : wellFormed x = none) (hon : onTenant x r.name) :
    s.read x = [] ↔ x ∉ s := by
  obtain ⟨huser, hobject, hrel, -⟩ := wellFormed_eq_none hform
  refine Store.read_eq_nil_iff (part_eq_none huser).1 hrel (part_eq_none hobject).1 ?_
  rcases onTenant_iff.1 hon with hobj | ⟨p, -, hobj⟩
  · exact hobj ▸ bareType_tenant r.valid
  · exact hobj ▸ bareType_app r.name p

theorem planned_taken (h : ∀ x ∈ xs, wellFormed x = none) :
    planned t ((taken t xs).map rightsText) = .ok (taken t xs) :=
  planned_texts fun x hx => ⟨h x (mem_taken.1 hx).1, (mem_taken.1 hx).2⟩

/-- What a read tells of the rights taken: which are missing and which are there. -/
theorem mem_missing (h : ∀ x ∈ xs, wellFormed x = none) :
    (x ∈ (taken r.name xs).filter (fun x => decide (s.read x = [])) ↔ x ∈ taken r.name xs ∧ x ∉ s) ∧
      (x ∈ (taken r.name xs).filter (fun x => decide (s.read x ≠ [])) ↔
        x ∈ taken r.name xs ∧ x ∈ s) := by
  simp only [mem_filter, decide_eq_true_eq]
  constructor
  · refine and_congr_right fun hx => ?_
    exact read_eq_nil_of_onTenant (h x (mem_taken.1 hx).1) (mem_taken.1 hx).2
  · refine and_congr_right fun hx => ?_
    rw [ne_eq, read_eq_nil_of_onTenant (h x (mem_taken.1 hx).1) (mem_taken.1 hx).2, not_not]

/-- **Applying this cluster's own bundle** to a store the tenant is attached in takes
away what was withdrawn and writes what was granted. -/
theorem applyRights_planOf (h : OwnBundle only provenance) (hatt : attachment c r.name ∈ s)
    (hgranted : only.granted.Nodup) (hwithdrawn : only.withdrawn.Nodup)
    (hapart : ∀ x ∈ only.granted, x ∉ only.withdrawn) :
    (applyRights s true c r.name (planOf c r.name only provenance) (.read .answered)).done =
        .ok true ∧
      ∀ x, x ∈ (applyRights s true c r.name (planOf c r.name only provenance)
          (.read .answered)).store ↔
        (x ∈ s ∧ x ∉ taken r.name only.withdrawn) ∨ x ∈ taken r.name only.granted := by
  rcases planOf_eq h with ⟨hplan, hg, hw⟩ | ⟨p, hplan, happlied, hg, hw⟩
  · rw [hplan, hg, hw]
    simp [applyRights, taken]
  · have hread : s.read (attachment c r.name) ≠ [] := fun h => read_attachment_eq_nil.1 h hatt
    have hsend : Sendable s ((taken r.name only.granted).filter fun x => decide (s.read x = []))
        ((taken r.name only.withdrawn).filter fun x => decide (s.read x ≠ [])) :=
      ⟨(hwithdrawn.filter _).filter _, fun x hx => ((mem_missing h.withdrawn).2.1 hx).2,
        (hgranted.filter _).filter _, fun x hx => ((mem_missing h.granted).1.1 hx).2⟩
    obtain ⟨hok, hmem⟩ := send_answered RightsError.write hsend
    rw [hplan]
    unfold applyRights
    simp only [happlied, hg, hw, planned_taken h.granted, planned_taken h.withdrawn,
      map_eq_nil_iff, Bool.false_or, decide_eq_true_eq, Bool.not_true, Bool.false_eq_true,
      if_false]
    split_ifs with hempty
    · simp [hempty.1, hempty.2]
    · split
      · next hsent =>
          rw [hsent] at hok
          cases hok
      · next s' hsent =>
          rw [hsent] at hmem
          refine ⟨rfl, fun x => (hmem x).trans ?_⟩
          rw [(mem_missing h.granted).1, (mem_missing h.withdrawn).2]
          have hne : x ∈ taken r.name only.granted → x ∉ taken r.name only.withdrawn :=
            fun hx hx' => hapart x (mem_taken.1 hx).1 (mem_taken.1 hx').1
          by_cases hx : x ∈ s
          · by_cases hx' : x ∈ taken r.name only.granted <;> simp [hx, hx', hne]
          · simp [hx]

/-- **Applying a bundle whose entries the store is in keeping with changes nothing**,
whatever becomes of the requests. -/
theorem applyRights_again (h : OwnBundle only provenance)
    (hgranted : ∀ x ∈ taken r.name only.granted, x ∈ s)
    (hwithdrawn : ∀ x ∈ taken r.name only.withdrawn, x ∉ s) (fate : CallFate) :
    (applyRights s true c r.name (planOf c r.name only provenance) fate).store = s := by
  rcases applyRights_store s true c r.name (planOf c r.name only provenance) fate with
    hsame | ⟨p, hp, grants, withdraws, sent, hgrants, hwithdraws, hsent⟩
  · exact hsame
  · rcases planOf_eq h with ⟨hplan, -, -⟩ | ⟨p', hplan, -, hg, hw⟩
    · rw [hplan] at hp
      cases hp
    · rw [hplan] at hp
      cases hp
      rw [hg, planned_taken h.granted] at hgrants
      rw [hw, planned_taken h.withdrawn] at hwithdraws
      cases hgrants
      cases hwithdraws
      have hnone : (taken r.name only.granted).filter (fun x => decide (s.read x = [])) = [] := by
        rw [eq_nil_iff_forall_not_mem]
        intro x hx
        obtain ⟨hx, hno⟩ := (mem_missing h.granted).1.1 hx
        exact hno (hgranted x hx)
      have hnone' : (taken r.name only.withdrawn).filter (fun x => decide (s.read x ≠ [])) = [] := by
        rw [eq_nil_iff_forall_not_mem]
        intro x hx
        obtain ⟨hx, hin⟩ := (mem_missing h.withdrawn).2.1 hx
        exact hwithdrawn x hx hin
      rw [hsent, hnone, hnone']
      simp [send]

end Proven

/-! ### The whole way -/

/-- A store in which a tenant and its apps have been projected: it holds what the
projections write, the consent perhaps withdrawn, and beside it well-formed entries
only. -/
structure Standing (c : String) (r : TenantRights) (ts : TenantList) (installed : InstalledApps)
    (want : List Tuple) (held : List String) (s : Store) : Prop where
  projected : ∀ x ∈ afresh c ts installed, onTenant x r.name = true → x ∈ s ∨ x = operatedBy c r.name
  formed : ∀ x ∈ s, OnCarried s r.name want held x →
    x ∈ afresh c ts installed ∨ wellFormed x = none

section Survive

variable {c : String} {r : TenantRights} {ts : TenantList} {installed : InstalledApps}
  {apps : List InstalledApp} {want : List Tuple} {held : List String} {s : Store}
  {provenance : Provenance} {x : Tuple}

theorem wellFormed_operatedBy (hc : PlainName c) : wellFormed (operatedBy c r.name) = none := by
  have hchars := containsAny_eq_false_iff.1 hc.2
  have hsub : ∀ d ∈ " \t\r\n*#:".toList, d ∈ "| \t\r\n*#:".toList := by simp
  have hlabel : ∀ d ∈ " \t\r\n*#:".toList, isLabelChar d = false := by
    have hall : (" \t\r\n*#:".toList.all fun d => !isLabelChar d) := by decide +kernel
    intro d hd
    simpa using all_eq_true.1 hall d hd
  have huser : part "the holder" (operatedBy c r.name).user true = none :=
    part_of_plain "cluster" c true ⟨by decide, by simp⟩
      ⟨hc.1, fun d hd hbad => hchars d hd (hsub d hbad)⟩
  have hobject : part "the object" (operatedBy c r.name).object false = none := by
    refine part_of_plain "tenant" r.name false ⟨by decide, by simp⟩ ⟨?_, fun d hd hbad => ?_⟩
    · intro hempty
      exact absurd (hempty ▸ r.valid) (by decide)
    · exact not_mem_of_validTenantName r.valid (hlabel d hbad) hd
  have hrel : (decide ("operated_by" = "") || containsAny "operated_by" " \t\r\n#:*") = false := by
    decide
  unfold wellFormed
  rw [huser, hobject]
  exact if_neg (ne_true_of_eq_false hrel)

theorem OnCarried.object (hwant : AppTuples r.name want) (h : OnCarried s r.name want held x) :
    x.object = tenant r.name ∨ ∃ p, x.object = app r.name p :=
  h.imp_right (app_of_mem_carriedObjects hwant)

section Recorded

variable {only : StoreOnly}

section

variable (h : Recorded c r want held s only)

include h

/-- Only the operator's right can be withdrawn, and not on the platform's tenant. -/
theorem eq_of_mem_withdrawn (hx : x ∈ only.withdrawn) :
    x = operatedBy c r.name ∧ r.name ≠ platformTenant ∧ x ∉ s := by
  rw [h.withdrawn] at hx
  split_ifs at hx with hout
  · obtain rfl := mem_singleton.1 hx
    exact ⟨rfl, hout⟩
  · cases hx

theorem not_mem_defaults_of_granted
    (hwant : AppTuples r.name want) (hx : x ∈ only.granted) : x ∉ defaults c r := by
  rcases ((h.granted x).1 hx).2 with ⟨-, -, hnot⟩ | ⟨ho, -⟩
  · exact hnot
  · intro hdef
    obtain ⟨p, hp⟩ := app_of_mem_carriedObjects hwant ho
    exact tenant_ne_app _ _ _ ((Due.object (due_empty.2 (.inl hdef))).symm.trans hp)

theorem not_recorded_of_projectionsOwn
    (hwant : AppTuples r.name want) (hown : ProjectionsOwn c r x) :
    x ∉ only.granted ∧ x ∉ only.withdrawn := by
  have hoper : operatedBy c r.name ∈ defaults c r := by simp [defaults]
  refine ⟨fun hx => ?_, fun hx => ?_⟩
  · have hdef := not_mem_defaults_of_granted h hwant hx
    rcases ((h.granted x).1 hx).2 with ⟨hobj, hrel, -⟩ | ⟨ho, hten, hent⟩
    · rcases hown with hclaims | ⟨hobj', -⟩ | ⟨rfl, -⟩
      · exact hrel hclaims.2
      · exact hobj' hobj
      · exact hdef hoper
    · obtain ⟨p, hp⟩ := app_of_mem_carriedObjects hwant ho
      rcases hown with hclaims | ⟨-, hrel⟩ | ⟨rfl, -⟩
      · exact tenant_ne_app _ _ _ (hclaims.1.symm.trans hp)
      · exact hrel.elim hten hent
      · exact hdef hoper
  · obtain ⟨rfl, hplat, -⟩ := eq_of_mem_withdrawn h hx
    rcases hown with hclaims | ⟨hobj, -⟩ | ⟨-, hp⟩
    · exact absurd hclaims.2 (show "operated_by" ∉ claimTenantRelations by decide)
    · exact hobj rfl
    · exact hplat hp

end

end Recorded

/-- What was given is not projected. -/
theorem not_mem_afresh_of_granted {only : StoreOnly} (h : Recorded c r want held s only)
    (hr : r ∈ ts.entries) (happs : (r.name, apps) ∈ installed.entries)
    (hnamed : ∀ e ∈ installed.entries, ∃ want, appTuples e.1 e.2 = .ok want)
    (hwant : appTuples r.name apps = .ok want) (hx : x ∈ only.granted) :
    x ∉ afresh c ts installed := by
  have hall := appTuples_eq_ok r.valid hwant
  have hon := ((h.granted x).1 hx).2
  have hobj : x.object = tenant r.name ∨ ∃ p, x.object = app r.name p :=
    hon.imp And.left fun ho => app_of_mem_carriedObjects hall ho.1
  rw [mem_afresh hr happs hnamed hwant hobj]
  rintro (hdef | hclaimed | hwanted)
  · exact not_mem_defaults_of_granted h hall hx hdef
  · have hclaims := mem_claimed.1 hclaimed
    rcases hon with ⟨-, hrel, -⟩ | ⟨ho, -⟩
    · rcases hclaims.2 with ⟨he, -⟩ | ⟨he, -⟩ <;>
      · rw [he] at hrel
        exact hrel (by decide)
    · obtain ⟨p, hp⟩ := app_of_mem_carriedObjects hall ho
      exact tenant_ne_app _ _ _ (hclaims.1.symm.trans hp)
  · obtain ⟨p, hp⟩ := (hall.shape x hwanted).object
    rcases hon with ⟨ho, -⟩ | ⟨-, hten, hent⟩
    · exact tenant_ne_app _ _ _ (ho.symm.trans hp)
    · exact (hall.shape x hwanted).relation.elim hten hent

/-- **What comes back of what a backup recorded**: for an entry the projections do not
decide on alone, that it is there after the restore says that it was there before. -/
theorem mem_restored_iff {only : StoreOnly} (h : Recorded c r want held s only)
    (hr : r ∈ ts.entries) (happs : (r.name, apps) ∈ installed.entries)
    (hnamed : ∀ e ∈ installed.entries, ∃ want, appTuples e.1 e.2 = .ok want)
    (hwant : appTuples r.name apps = .ok want) (hs : Standing c r ts installed want held s)
    (hon : onTenant x r.name) (hcarried : OnCarried s r.name want held x)
    (hown : ¬ProjectionsOwn c r x) : (x ∈ afresh c ts installed ∧ x ∉ taken r.name only.withdrawn) ∨
        x ∈ taken r.name only.granted ↔ x ∈ s := by
  have hall := appTuples_eq_ok r.valid hwant
  have hafresh : x ∈ afresh c ts installed ↔ x ∈ defaults c r ∨ x ∈ claimed r ∨ x ∈ want :=
    mem_afresh hr happs hnamed hwant (hcarried.object hall)
  constructor
  · rintro (⟨hx, hout⟩ | hx)
    · rcases hs.projected x hx hon with hin | rfl
      · exact hin
      · -- the consent is written afresh, and taken away again unless it was there
        by_contra hmissing
        refine hout (mem_taken.2 ⟨?_, hon⟩)
        rw [h.withdrawn, if_pos ⟨fun hp => hown (.inr (.inr ⟨rfl, hp⟩)), hmissing⟩]
        exact mem_singleton_self _
    · exact ((h.granted x).1 (mem_taken.1 hx).1).1
  · intro hx
    by_cases hfresh : x ∈ afresh c ts installed
    · refine .inl ⟨hfresh, fun hout => ?_⟩
      exact (eq_of_mem_withdrawn h (mem_taken.1 hout).1).2.2 hx
    · refine .inr (mem_taken.2 ⟨(h.granted x).2 ⟨hx, ?_⟩, hon⟩)
      rw [hafresh, not_or] at hfresh
      rcases hcarried with hobj | ho
      · exact .inl ⟨hobj, fun hrel => hown (.inl ⟨hobj, hrel⟩), hfresh.1⟩
      · refine .inr ⟨ho, ?_⟩
        obtain ⟨p, hp⟩ := app_of_mem_carriedObjects hall ho
        have hne : x.object ≠ tenant r.name := fun hobj => tenant_ne_app _ _ _ (hobj.symm.trans hp)
        rw [← not_or]
        exact fun hrel => hown (.inr (.inl ⟨hne, hrel⟩))

/-- **Rights survive a backup and a restore.**  Of a store in which the tenant has been
projected, what is recorded and put back on the same cluster is, on the tenant and the
apps read, what there was, except for what the projections alone decide on, which is as
they write it.  Applying the plan again changes nothing. -/
theorem rights_survive (hc : PlainName c) (hprov : provenance.isProven = true)
    (hr : r ∈ ts.entries) (happs : (r.name, apps) ∈ installed.entries)
    (hnamed : ∀ e ∈ installed.entries, ∃ want, appTuples e.1 e.2 = .ok want)
    (hwant : appTuples r.name apps = .ok want) (hs : Standing c r ts installed want held s) :
    ∃ plan out, backupAndRestore s c r.name apps held ts installed provenance = .ok (plan, out) ∧
      out.done = .ok true ∧
      (∀ x, onTenant x r.name = true → OnCarried s r.name want held x →
        (ProjectionsOwn c r x → (x ∈ out.store ↔ x ∈ afresh c ts installed)) ∧
          (¬ProjectionsOwn c r x → (x ∈ out.store ↔ x ∈ s))) ∧
      ∀ fate, (applyRights out.store true c r.name plan fate).store = out.store := by
  have hall := appTuples_eq_ok r.valid hwant
  have hbar := barless_appTuples r.valid (installed.barless _ happs) hwant
  have hcbar : '|' ∉ c.toList := fun hm => containsAny_eq_false_iff.1 hc.2 _ hm (by decide)
  have hfresh : attachment c r.name ∈ afresh c ts installed :=
    (mem_afresh hr happs hnamed hwant (.inl rfl)).2 (.inl (by simp [defaults]))
  have hatt : attachment c r.name ∈ s :=
    (hs.projected _ hfresh (onTenant_iff.2 (.inl rfl))).resolve_right
      (attachment_ne_operatedBy c _ _)
  obtain ⟨only, hstore, hrec⟩ := storeOnlyOf_eq_ok held hcbar hatt hwant hbar
  have hbundle : OwnBundle only provenance := by
    refine ⟨hprov, fun x hx => ?_, fun x hx => ?_⟩
    · obtain ⟨hin, hon⟩ := (hrec.granted x).1 hx
      exact (hs.formed x hin (hon.imp And.left And.left)).resolve_left
        (not_mem_afresh_of_granted hrec hr happs hnamed hwant hx)
    · rw [(eq_of_mem_withdrawn hrec hx).1]
      exact wellFormed_operatedBy hc
  have hapart : ∀ x ∈ only.granted, x ∉ only.withdrawn := fun x hx hx' =>
    (eq_of_mem_withdrawn hrec hx').2.2 ((hrec.granted x).1 hx).1
  have hnodup : only.withdrawn.Nodup := by
    rw [hrec.withdrawn]
    split_ifs <;> simp
  obtain ⟨hdone, hmem⟩ := applyRights_planOf hbundle hfresh hrec.nodup hnodup hapart
  refine ⟨planOf c r.name only provenance, _, ?_, hdone, fun x hon hcarried => ⟨fun hown => ?_,
    fun hown => ?_⟩, fun fate => applyRights_again hbundle (fun x hx => ?_) (fun x hx hin => ?_) fate⟩
  · unfold backupAndRestore
    rw [hstore]
  · obtain ⟨hg, hw⟩ := not_recorded_of_projectionsOwn hrec hall hown
    rw [hmem, or_iff_left fun h => hg (mem_taken.1 h).1, and_iff_left fun h => hw (mem_taken.1 h).1]
  · rw [hmem]
    exact mem_restored_iff hrec hr happs hnamed hwant hs hon hcarried hown
  · exact (hmem x).2 (.inr hx)
  · rcases (hmem x).1 hin with ⟨-, hout⟩ | hx'
    · exact hout hx
    · exact hapart x (mem_taken.1 hx').1 (mem_taken.1 hx).1

end Survive

/-! ### A tenant with an app, a retained app and rights of its own -/

/-- A bundle that the tenant made itself. -/
def ownBundle : Provenance :=
  checkProvenance id (some "key") (some ⟨some ("key", true)⟩) "uid" (some "uid")

/-- The tenant `demo`, for which the claim names one auditor. -/
def demoRights : TenantRights := ⟨"demo", [], ["user:platform/ann"], valid_demo⟩

/-- The tenant `demo` alone. -/
def demoTenants : TenantList := ⟨[demoRights], by decide +kernel⟩

/-- The apps of `demo`. -/
def demoApps : InstalledApps :=
  ⟨⟨[("demo", [⟨"wiki", []⟩])], by decide +kernel, by decide +kernel⟩, by decide +kernel⟩

/-- What the projections write afresh for `demo`. -/
def demoProjected : List Tuple :=
  [⟨"cluster:c1", "cluster", "tenant:demo"⟩, ⟨"cluster:c1", "operated_by", "tenant:demo"⟩,
    ⟨"group:gentian/tenant/demo/admins#member", "admin", "tenant:demo"⟩,
    ⟨"group:gentian/tenant/demo/members#member", "member", "tenant:demo"⟩,
    ⟨"user:platform/ann", "auditor", "tenant:demo"⟩,
    ⟨"group:gentian/tenant/demo/app/wiki#member", "entitled", "app:demo/wiki"⟩,
    ⟨"tenant:demo", "tenant", "app:demo/wiki"⟩]

theorem tuples_afresh_demo : (afresh "c1" demoTenants demoApps).tuples = demoProjected := by
  decide +kernel

/-- `demo` has withdrawn its consent, made a guest an administrator, and given guests a
relation on its app and on one it has uninstalled. -/
def demoOwnRights : Store :=
  ⟨demoProjected.filter (fun x => decide (x ≠ operatedBy "c1" "demo")) ++
    [⟨"user:platform/guest", "admin", "tenant:demo"⟩,
      ⟨"group:guests#member", "viewer", "app:demo/wiki"⟩,
      ⟨"group:guests#member", "viewer", "app:demo/old"⟩], by decide +kernel⟩

/-- The tuples of the app of `demo`. -/
def demoWant : List Tuple :=
  [attachedTo "demo" "wiki",
    ⟨"group:gentian/tenant/demo/app/wiki#member", "entitled", "app:demo/wiki"⟩]

theorem demoOwnRights_standing :
    Standing "c1" demoRights demoTenants demoApps demoWant ["old"] demoOwnRights where
  projected := by
    change ∀ x ∈ (afresh "c1" demoTenants demoApps).tuples, _
    rw [tuples_afresh_demo]
    decide +kernel
  formed := by
    change ∀ x ∈ demoOwnRights.tuples, OnCarried demoOwnRights "demo" demoWant ["old"] x →
      x ∈ (afresh "c1" demoTenants demoApps).tuples ∨ wellFormed x = none
    rw [tuples_afresh_demo]
    decide +kernel

/-- The rights of `demo` come back: the consent stays withdrawn, and the guests keep
their relation on the app that is no longer installed. -/
theorem demo_rights_survive :
    ∃ plan out, backupAndRestore demoOwnRights "c1" "demo" [⟨"wiki", []⟩] ["old"] demoTenants
        demoApps ownBundle = .ok (plan, out) ∧
      operatedBy "c1" "demo" ∉ out.store ∧
      ⟨"group:guests#member", "viewer", "app:demo/old"⟩ ∈ out.store := by
  obtain ⟨plan, out, hrun, -, hmem, -⟩ := rights_survive
    (by decide +kernel) (show ownBundle.isProven = true by decide +kernel)
    (show demoRights ∈ demoTenants.entries by decide +kernel)
    (show ("demo", [⟨"wiki", []⟩]) ∈ demoApps.entries by decide +kernel)
    (forall_mem_singleton.2 ⟨demoWant, by decide +kernel⟩)
    (show appTuples "demo" [⟨"wiki", []⟩] = .ok demoWant by decide +kernel) demoOwnRights_standing
  refine ⟨plan, out, hrun, fun h => ?_, ?_⟩
  · have hin := ((hmem (operatedBy "c1" "demo") (by decide +kernel) (by decide +kernel)).2
      (by decide +kernel)).1 h
    exact absurd hin (by decide +kernel)
  · exact ((hmem ⟨"group:guests#member", "viewer", "app:demo/old"⟩ (by decide +kernel)
      (by decide +kernel)).2 (by decide +kernel)).2 (by decide +kernel)

/-- `demo` as it was projected, and its app opened to the guests by hand. -/
def openedToGuests : Store :=
  ⟨demoProjected ++ [⟨"group:guests#member", "entitled", "app:demo/wiki"⟩], by decide +kernel⟩

/-- **A group entitled to an app by hand is lost.**  The store holds what the projections
write and one well-formed entry more, on an installed app; the restore succeeds, and the
entry is not there afterwards. -/
theorem added_entitlement_is_lost : (demoProjected = (afresh "c1" demoTenants demoApps).tuples ∧
      wellFormed ⟨"group:guests#member", "entitled", "app:demo/wiki"⟩ = none ∧
      ⟨"group:guests#member", "entitled", "app:demo/wiki"⟩ ∈ openedToGuests) ∧
      (backupAndRestore openedToGuests "c1" "demo" [⟨"wiki", []⟩] [] demoTenants demoApps
        ownBundle).toOption.any (fun p => decide (p.2.done = .ok true ∧
          ⟨"group:guests#member", "entitled", "app:demo/wiki"⟩ ∉ p.2.store)) = true :=
  ⟨⟨tuples_afresh_demo.symm, by decide +kernel, by decide +kernel⟩, by decide +kernel⟩

end Gentian.Restore
