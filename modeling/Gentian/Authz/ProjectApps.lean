/-
# The projection of the apps over any store

`internal/director/authz/apps.go` (`ReconcileApps`), over a store that may hold entries of
others on the tenant, on its apps or elsewhere.  What a call leaves when every request is
answered (`InstalledApps.mem_reconcileApps`): the tuples of the installed apps (`Wanted`), and
of what it found all but the `tenant` and `entitled` tuples of the apps it goes over
(`GoneOver`).

Profiles and addons are names of Kubernetes objects, which hold no `|`, by which `key` joins
(`Barless.key_inj`).
-/

import Gentian.Authz.Convergence
import Gentian.Authz.ProjectTenants

namespace Gentian.Authz

open GoStrings Api OpenFGA Reconcile List String

/-- An entry whose parts hold no `|`. -/
structure Barless (x : Tuple) : Prop where
  user : '|' ∉ x.user.toList
  relation : '|' ∉ x.relation.toList
  object : '|' ∉ x.object.toList

/-- **The key of an entry without `|` names it** among all entries. -/
theorem Barless.key_inj {x y : Tuple} (hx : Barless x) (h : key x = key y) : x = y := by
  have hjoin : x.user ++ ("|" ++ (x.relation ++ ("|" ++ x.object))) =
      y.user ++ ("|" ++ (y.relation ++ ("|" ++ y.object))) := by
    unfold key at h
    simpa only [String.append_assoc] using h
  -- the two bars of `x` are all the bars there are
  have hcount := congrArg (fun k => k.toList.count '|') hjoin
  have hbar : "|".toList.count '|' = 1 := by decide
  simp only [toList_append, count_append, count_eq_zero_of_not_mem hx.user,
    count_eq_zero_of_not_mem hx.relation, count_eq_zero_of_not_mem hx.object] at hcount
  have hyu : '|' ∉ y.user.toList := count_eq_zero.1 (by omega)
  have hyr : '|' ∉ y.relation.toList := count_eq_zero.1 (by omega)
  obtain ⟨hu, hrest⟩ := append_inj rfl hx.user hyu hjoin
  obtain ⟨hr, ho⟩ := append_inj rfl hx.relation hyr hrest
  cases x
  simp_all

/-- The installed apps of a call, none of whose names holds a `|`. -/
structure InstalledApps extends Installed where
  barless : ∀ e ∈ entries, ∀ a ∈ e.2, '|' ∉ a.profile.toList ∧ ∀ x ∈ a.addons, '|' ∉ x.toList

section Names

variable {t : String} {want want' : List Tuple}

theorem bar_not_mem_appGroup {opener g : String} (ht : validTenantName t)
    (hopener : '|' ∉ opener.toList) (hg : appGroup t opener = .ok g) : '|' ∉ g.toList := by
  obtain ⟨id, hid, rfl⟩ := group_eq_ok_iff.1 hg
  obtain ⟨-, -, rfl⟩ := encode_eq_ok_iff.1 hid
  have hname : '|' ∉ (tenantGroup t ("app:" ++ opener)).toList := by
    unfold tenantGroup
    simp only [toList_append, mem_append, not_or]
    exact ⟨⟨⟨by decide, not_mem_of_validTenantName ht (by decide)⟩, by decide⟩, by decide, hopener⟩
  rw [toList_append, mem_append, toList_replaceAll, not_or]
  refine ⟨by decide, fun hm => ?_⟩
  obtain ⟨c, hc, heq⟩ := mem_map.1 hm
  split_ifs at heq
  · cases heq
  · exact hname (heq ▸ hc)

theorem bar_not_mem_app {profile : String} (ht : validTenantName t)
    (hprofile : '|' ∉ profile.toList) : '|' ∉ (app t profile).toList := by
  unfold app
  simp only [toList_append, mem_append, not_or]
  exact ⟨⟨⟨by decide, not_mem_of_validTenantName ht (by decide)⟩, by decide⟩, hprofile⟩

theorem forall_mem_put {P : Tuple → Prop} {y : Tuple} (h : ∀ x ∈ want, P x) (hy : P y) :
    ∀ x ∈ put want y, P x := by
  intro x hx
  rcases mem_append.1 hx with hx | hx
  · exact h x (mem_of_mem_filter hx)
  · exact mem_singleton.1 hx ▸ hy

theorem barless_add (ht : validTenantName t) {profile : String} {openers : List String}
    (hprofile : '|' ∉ profile.toList) (hopeners : ∀ o ∈ openers, '|' ∉ o.toList)
    (h : ∀ x ∈ want, Barless x) (hok : add t profile openers want = .ok want') :
    ∀ x ∈ want', Barless x := by
  have hatt : Barless (attachedTo t profile) := by
    refine ⟨?_, show '|' ∉ "tenant".toList by decide, bar_not_mem_app ht hprofile⟩
    unfold attachedTo tenant
    rw [toList_append, mem_append, not_or]
    exact ⟨by decide, not_mem_of_validTenantName ht (by decide)⟩
  refine entitle_invariant (P := fun want => ∀ x ∈ want, Barless x)
    (fun opener hopener g want hg h => forall_mem_put h ⟨?_,
    show '|' ∉ "entitled".toList by decide, bar_not_mem_app ht hprofile⟩) (forall_mem_put h hatt) hok
  rw [toList_append, mem_append, not_or]
  exact ⟨bar_not_mem_appGroup ht (hopeners opener hopener) hg, by decide⟩

/-- The tuples of apps can be told apart by their keys. -/
theorem barless_appTuples (ht : validTenantName t) {apps : List InstalledApp}
    (hnames : ∀ a ∈ apps, '|' ∉ a.profile.toList ∧ ∀ x ∈ a.addons, '|' ∉ x.toList)
    (hok : appTuples t apps = .ok want) : ∀ x ∈ want, Barless x := by
  refine addAll_invariant (P := fun want => ∀ x ∈ want, Barless x)
    (fun call hcall want _ h hadd => ?_) (fun x hx => absurd hx not_mem_nil) hok
  obtain ⟨a, ha, hcall⟩ := mem_flatMap.1 hcall
  obtain ⟨hprofile, haddons⟩ := hnames a ha
  suffices hbar : '|' ∉ call.1.toList ∧ ∀ o ∈ call.2, '|' ∉ o.toList from
    barless_add ht hbar.1 hbar.2 h hadd
  unfold InstalledApp.adds at hcall
  split_ifs at hcall
  · cases hcall
  · rcases mem_cons.1 hcall with rfl | hcall
    · refine ⟨hprofile, fun o ho => ?_⟩
      split_ifs at ho
      · exact mem_singleton.1 ho ▸ hprofile
      · exact haddons o (mem_of_mem_filter ho)
    · obtain ⟨x, hx, rfl⟩ := mem_map.1 hcall
      have hbar := haddons x (mem_of_mem_filter hx)
      exact ⟨hbar, fun o ho => mem_singleton.1 ho ▸ hbar⟩

end Names

/-- A tuple that some tenant's installed apps call for. -/
def Wanted (installed : Installed) (x : Tuple) : Prop :=
  ∃ e ∈ installed.entries, ∃ want, appTuples e.1 e.2 = .ok want ∧ x ∈ want

/-- The `tenant` and `entitled` tuples of the apps a call goes over. -/
def GoneOver (s : Store) (installed : Installed) (x : Tuple) : Prop :=
  (x.relation = "tenant" ∨ x.relation = "entitled") ∧
    ∃ e ∈ installed.entries, ∃ want, appTuples e.1 e.2 = .ok want ∧
      x.object ∈ appObjects s e.1 want

section Apps

variable {s : Store} {installed : InstalledApps} {w d : List Tuple} {x : Tuple}

/-- **What a call plans, over any store.** -/
theorem InstalledApps.mem_planApps (h : planApps s installed.sorted = .ok (w, d)) (x : Tuple) :
    (x ∈ w ↔ Wanted installed.toInstalled x ∧ x ∉ s) ∧
      (x ∈ d ↔ x ∈ s ∧ GoneOver s installed.toInstalled x ∧ ¬Wanted installed.toInstalled x) := by
  have hvalid := installed.valid_sorted
  have hkeys : ∀ e ∈ installed.sorted, ∀ want, appTuples e.1 e.2 = .ok want → KeysApart s want := by
    intro e he want hwant x hx y _ hkey
    exact (barless_appTuples (hvalid e he) (installed.barless e (Installed.mem_sorted.1 he))
      hwant x hx).key_inj hkey
  have hall : ∀ e ∈ installed.entries, ∀ want, appTuples e.1 e.2 = .ok want →
      AppTuples e.1 want := fun e he want hwant => appTuples_eq_ok (installed.valid e he) hwant
  obtain ⟨hw, hd⟩ := mem_planApps_of hkeys hvalid h x
  rw [hw, hd]
  simp only [Installed.mem_sorted]
  refine ⟨⟨?_, ?_⟩, ?_, ?_⟩
  · rintro ⟨e, he, want, hwant, hx, hs⟩
    exact ⟨⟨e, he, want, hwant, hx⟩, hs⟩
  · rintro ⟨⟨e, he, want, hwant, hx⟩, hs⟩
    exact ⟨e, he, want, hwant, hx, hs⟩
  · rintro ⟨e, he, want, hwant, hx, hnot⟩
    obtain ⟨hs, hobj, hrel⟩ := (mem_storedApps_iff (hall e he want hwant)).1 hx
    refine ⟨hs, ⟨hrel, e, he, want, hwant, hobj⟩, ?_⟩
    rintro ⟨e', he', want', hwant', hx'⟩
    -- the object is under one tenant's name, so the two entries are one
    obtain ⟨p, hp⟩ := app_of_mem_appObjects (hall e he want hwant) hobj
    obtain ⟨p', hp'⟩ := ((hall e' he' want' hwant').shape x hx').object
    have hname := (app_inj (installed.valid e he) (installed.valid e' he') (hp.symm.trans hp')).1
    obtain rfl := inj_on_of_nodup_map installed.nodup he he' hname
    cases hwant.symm.trans hwant'
    exact hnot hx'
  · rintro ⟨hs, ⟨hrel, e, he, want, hwant, hobj⟩, hnot⟩
    refine ⟨e, he, want, hwant, ?_, fun hx => hnot ⟨e, he, want, hwant, hx⟩⟩
    exact (mem_storedApps_iff (hall e he want hwant)).2 ⟨hs, hobj, hrel⟩

theorem object_of_mem_lookApps {t : String} {apps : List InstalledApp}
    (ht : validTenantName t) (h : lookApps s t apps = .ok (w, d)) (hx : x ∈ w ∨ x ∈ d) :
    ∃ p, x.object = app t p := by
  obtain ⟨want, hwant⟩ := lookApps_eq_ok h
  have hall := appTuples_eq_ok ht hwant
  unfold lookApps at h
  rw [hwant] at h
  obtain ⟨rfl, rfl⟩ := Prod.mk.inj (Except.ok.inj h)
  rcases hx with hx | hx
  · exact (hall.shape x (settle_fst_sublist.subset hx)).object
  · have hobj := ((mem_storedApps_iff hall).1 (settle_snd_sublist.subset hx)).2.1
    exact app_of_mem_appObjects hall hobj

variable {es : List (String × List InstalledApp)}

/-- A plan is about the apps of its tenants. -/
theorem object_of_mem_planApps (hvalid : ∀ e ∈ es, validTenantName e.1)
    (h : planApps s es = .ok (w, d)) (hx : x ∈ w ∨ x ∈ d) :
    ∃ e ∈ es, ∃ p, x.object = app e.1 p := by
  induction es generalizing w d with
  | nil =>
    cases h
    simp at hx
  | cons e es ih =>
    obtain ⟨hv, hvalid⟩ := forall_mem_cons.1 hvalid
    obtain ⟨w1, d1, w2, d2, hlook, hrest, rfl, rfl⟩ := planApps_cons_eq_ok h
    rw [mem_append, mem_append, or_or_or_comm] at hx
    rcases hx with hx | hx
    · exact ⟨e, mem_cons_self, object_of_mem_lookApps hv hlook hx⟩
    · obtain ⟨e', he', hp⟩ := ih hvalid hrest hx
      exact ⟨e', mem_cons_of_mem _ he', hp⟩

/-- A plan for all tenants writes and deletes nothing twice. -/
theorem nodup_planApps (hnodup : (es.map Prod.fst).Nodup)
    (hvalid : ∀ e ∈ es, validTenantName e.1) (h : planApps s es = .ok (w, d)) :
    w.Nodup ∧ d.Nodup := by
  induction es generalizing w d with
  | nil =>
    cases h
    exact ⟨nodup_nil, nodup_nil⟩
  | cons e es ih =>
    obtain ⟨hv, hvalid⟩ := forall_mem_cons.1 hvalid
    rw [map_cons, nodup_cons] at hnodup
    obtain ⟨w1, d1, w2, d2, hlook, hrest, rfl, rfl⟩ := planApps_cons_eq_ok h
    obtain ⟨hw1, hd1⟩ := nodup_lookApps hv hlook
    obtain ⟨hw2, hd2⟩ := ih hnodup.2 hvalid hrest
    have hapart : ∀ x, (x ∈ w1 ∨ x ∈ d1) → ¬(x ∈ w2 ∨ x ∈ d2) := by
      intro x hx hx'
      obtain ⟨p, hp⟩ := object_of_mem_lookApps hv hlook hx
      obtain ⟨e', he', p', hp'⟩ := object_of_mem_planApps hvalid hrest hx'
      have hname := (app_inj hv (hvalid e' he') (hp.symm.trans hp')).1
      exact hnodup.1 (hname ▸ mem_map_of_mem he')
    exact ⟨hw1.append hw2 fun x hx hx' => hapart x (.inl hx) (.inl hx'),
      hd1.append hd2 fun x hx hx' => hapart x (.inr hx) (.inr hx')⟩

/-- **The plan of a call has no conflicts.** -/
theorem InstalledApps.sendable (h : planApps s installed.sorted = .ok (w, d)) : Sendable s w d := by
  have hnodup : (installed.sorted.map Prod.fst).Nodup :=
    ((perm_insertionSort _ installed.entries).map Prod.fst).nodup_iff.2 installed.nodup
  obtain ⟨hw, hd⟩ := nodup_planApps hnodup installed.valid_sorted h
  exact ⟨hd, fun x hx => ((installed.mem_planApps h x).2.1 hx).1, hw,
    fun x hx => ((installed.mem_planApps h x).1.1 hx).2⟩

/-- **`ReconcileApps` with every request answered** returns when its apps can be
named, and leaves the tuples of its apps and all it found but what it goes
over. -/
theorem InstalledApps.mem_reconcileApps (h : planApps s installed.sorted = .ok (w, d)) :
    (reconcileApps s installed.toInstalled (.read .answered)).2 = .ok () ∧
      ∀ x, x ∈ (reconcileApps s installed.toInstalled (.read .answered)).1 ↔
        Wanted installed.toInstalled x ∨ (x ∈ s ∧ ¬GoneOver s installed.toInstalled x) := by
  obtain ⟨hok, hmem⟩ := send_answered ReconcileError.write (installed.sendable h).sortByKey
  have hsend : reconcileApps s installed.toInstalled (.read .answered) =
      send .write s (sortByKey w) (sortByKey d) .answered := by
    unfold reconcileApps send
    rw [h]
    simp [sortByKey_eq_nil]
  rw [hsend]
  refine ⟨hok, fun x => (hmem x).trans ?_⟩
  rw [mem_sortByKey, mem_sortByKey, (installed.mem_planApps h x).1, (installed.mem_planApps h x).2]
  by_cases hx : x ∈ s <;> by_cases hw : Wanted installed.toInstalled x <;> simp [hx, hw]

/-- A call whose apps cannot all be named leaves the store as it was, and whether
they can does not depend on the store. -/
theorem planApps_isOk_iff :
    (∃ w d, planApps s es = .ok (w, d)) ↔ ∀ e ∈ es, ∃ want, appTuples e.1 e.2 = .ok want := by
  refine ⟨fun ⟨w, d, h⟩ => appTuples_of_planApps h, fun h => ?_⟩
  induction es with
  | nil => exact ⟨[], [], rfl⟩
  | cons e es ih =>
    obtain ⟨⟨want, hwant⟩, hes⟩ := forall_mem_cons.1 h
    obtain ⟨ws, ds, hrest⟩ := ih hes
    unfold planApps lookApps
    rw [hwant, hrest]
    exact ⟨_, _, rfl⟩

/-- A call that could not read changes nothing. -/
theorem reconcileApps_unread (s : Store) (installed : Installed) :
    (reconcileApps s installed .unread).1 = s := by
  unfold reconcileApps
  split <;> rfl

end Apps

end Gentian.Authz
