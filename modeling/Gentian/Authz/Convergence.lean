/-
# Whether the installed apps are what the store holds in the end

`internal/director/authz/apps.go` (`ReconcileApps`) promises "nothing left of an app that is
no longer installed".  A call finds what is left of an app through its `tenant` tuple alone,
so the promise rests on no `entitled` tuple being stored without it (`Attributed`).

Deletes keep that: a plan is sorted by key, `group:…` before `tenant:…`.  Writes do not: a
call that ends between two requests can leave `entitled` tuples without their `tenant` tuple,
which no call finds once the app is uninstalled.  `apps_converge` says that this is all that
can go wrong.
-/

import Gentian.Authz.Apps
import Gentian.Base.Runs

namespace Gentian.Authz

open GoStrings Api OpenFGA Batches Runs List Store

/-- One call of `ReconcileApps`, and what becomes of its requests. -/
structure AppsCall where
  installed : Installed
  fate : CallFate

/-- One call of `ReconcileApps`, with its fate. -/
def appsStep (s : Store) (call : AppsCall) : Option Store :=
  some (reconcileApps s call.installed call.fate).1

/-- No request of the call that takes effect carries a tuple of an app whose
`tenant` tuple is left to a request that does not. -/
def WritesWhole (s : Store) (call : AppsCall) : Prop :=
  match planApps s call.installed.sorted, call.fate with
  | .ok (writes, deletes), .read fate =>
    ∀ x ∈ written s (sortByKey writes) (sortByKey deletes) fate, ∀ y ∈ writes,
      y.relation = "tenant" → y.object = x.object →
        y ∈ written s (sortByKey writes) (sortByKey deletes) fate
  | _, _ => True

instance (s : Store) (call : AppsCall) : Decidable (WritesWhole s call) := by
  unfold WritesWhole
  split <;> infer_instance

/-- A store of tuples of apps, each app with its `tenant` tuple. -/
structure Attributed (s : Store) : Prop where
  shape : AppStore s
  attached : ∀ x ∈ s, ∀ t, validTenantName t = true → AppTuple t x →
    ⟨tenant t, "tenant", x.object⟩ ∈ s

/-! ### What a call does to one tenant -/

section Call

variable {s : Store} {installed : Installed} {w d : List Tuple}

theorem Installed.valid_sorted (installed : Installed) :
    ∀ e ∈ installed.sorted, validTenantName e.1 := fun e he =>
  installed.valid e (Installed.mem_sorted.1 he)

variable {apps : List InstalledApp} {t : String}

theorem Installed.entry_eq (he : (t, apps) ∈ installed.entries) {e : String × List InstalledApp}
    (hmem : e ∈ installed.sorted) {p : String}
    (hpre : hasPrefix (app e.1 p) ("app:" ++ t ++ "/")) : e = (t, apps) :=
  inj_on_of_nodup_map installed.nodup (Installed.mem_sorted.1 hmem) he
    ((hasPrefix_app_iff (installed.valid _ he) (installed.valid_sorted e hmem)).1 hpre)

/-- **The writes of a call under a tenant's name**: what is wanted and not
stored. -/
theorem mem_writes_of_tenant (hs : AppStore s) (h : planApps s installed.sorted = .ok (w, d))
    (he : (t, apps) ∈ installed.entries) {want : List Tuple} (hwant : appTuples t apps = .ok want)
    {x : Tuple} (hpre : hasPrefix x.object ("app:" ++ t ++ "/")) : x ∈ w ↔ x ∈ want ∧ x ∉ s := by
  rw [(mem_planApps hs installed.valid_sorted h x).1]
  constructor
  · rintro ⟨e, hmem, want', hwant', hin, hout⟩
    obtain ⟨p, hp⟩ :=
      ((appTuples_eq_ok (installed.valid_sorted e hmem) hwant').shape x hin).object
    rw [hp] at hpre
    obtain rfl := Installed.entry_eq he hmem hpre
    rw [hwant] at hwant'
    cases hwant'
    exact ⟨hin, hout⟩
  · rintro ⟨hin, hout⟩
    exact ⟨_, Installed.mem_sorted.2 he, want, hwant, hin, hout⟩

/-- **The deletes of a call under a tenant's name**: what is stored and not
wanted, when each app stored has its `tenant` tuple. -/
theorem mem_deletes_of_tenant (hs : Attributed s) (h : planApps s installed.sorted = .ok (w, d))
    (he : (t, apps) ∈ installed.entries) {want : List Tuple} (hwant : appTuples t apps = .ok want)
    {x : Tuple} (hpre : hasPrefix x.object ("app:" ++ t ++ "/")) : x ∈ d ↔ x ∈ s ∧ x ∉ want := by
  have hvalid := installed.valid _ he
  rw [(mem_planApps hs.shape installed.valid_sorted h x).2]
  constructor
  · rintro ⟨e, hmem, want', hwant', hin, hout⟩
    have hall := appTuples_eq_ok (installed.valid_sorted e hmem) hwant'
    obtain ⟨hstored, hobj⟩ := (mem_storedApps hs.shape hall).1 hin
    obtain ⟨p, hp⟩ := app_of_mem_appObjects hall hobj
    rw [hp] at hpre
    obtain rfl := Installed.entry_eq he hmem hpre
    rw [hwant] at hwant'
    cases hwant'
    exact ⟨hstored, hout⟩
  · rintro ⟨hin, hout⟩
    refine ⟨_, Installed.mem_sorted.2 he, want, hwant, ?_, hout⟩
    obtain ⟨t', ht', happ⟩ := hs.shape x hin
    obtain rfl := (happ.hasPrefix_iff ht' hvalid).1 hpre
    have hobj : x.object ∈ appObjects s t' want :=
      mem_appObjects.2 (.inl ⟨hs.attached x hin t' ht' happ, hpre⟩)
    exact (mem_storedApps hs.shape (appTuples_eq_ok ht' hwant)).2 ⟨hin, hobj⟩

/-- What a call that succeeded leaves. -/
theorem mem_reconcileApps_of_ok {fate : CallFate} (hok : (reconcileApps s installed fate).2 = .ok ()) :
    ∃ w d, planApps s installed.sorted = .ok (w, d) ∧
      ∀ x, x ∈ (reconcileApps s installed fate).1 ↔ (x ∈ s ∧ x ∉ d) ∨ x ∈ w := by
  unfold reconcileApps at hok ⊢
  cases hplan : planApps s installed.sorted with
  | error e =>
    rw [hplan] at hok
    cases hok
  | ok p =>
    obtain ⟨w, d⟩ := p
    rw [hplan] at hok
    refine ⟨w, d, rfl, fun x => ?_⟩
    cases fate with
    | unread => cases hok
    | read f =>
      by_cases hnil : w = [] ∧ d = []
      · simp [hnil]
      · simp only [if_neg hnil] at hok ⊢
        have hwrite : (write s (sortByKey w) (sortByKey d) f).2 := by
          by_contra hno
          simp [hno] at hok
        rw [mem_write_of_ok hwrite, mem_sortByKey, mem_sortByKey]

/-- What any call leaves: the store as it was, or the plan carried out in part. -/
theorem reconcileApps_store (s : Store) (installed : Installed) (fate : CallFate) :
    (reconcileApps s installed fate).1 = s ∨
      ∃ w d f, planApps s installed.sorted = .ok (w, d) ∧ fate = .read f ∧
        (reconcileApps s installed fate).1 = (write s (sortByKey w) (sortByKey d) f).1 := by
  unfold reconcileApps
  cases hplan : planApps s installed.sorted with
  | error e => exact .inl rfl
  | ok p =>
    cases fate with
    | unread => exact .inl rfl
    | read f =>
      by_cases hnil : p.1 = [] ∧ p.2 = []
      · exact .inl (by simp only [if_pos hnil])
      · exact .inr ⟨p.1, p.2, f, rfl, rfl, by simp only [if_neg hnil]⟩

end Call

/-! ### Whole runs -/

variable {profiles : List String} {want : List Tuple} {s : Store} {p t : String}

/-- An attachment is the last of its app's tuples. -/
theorem AppTuple.key_lt {x : Tuple} (h : AppTuple t x) :
    key x < key ⟨tenant t, "tenant", x.object⟩ ∨ x = ⟨tenant t, "tenant", x.object⟩ := by
  cases h with
  | attached profile => exact .inr rfl
  | entitled profile hg => exact .inl (key_entitled_lt hg _ t _)

section Attached

variable {s : Store} {installed : Installed} {w d : List Tuple} {t : String} {x : Tuple}

section

variable (hs : Attributed s) (hplan : planApps s installed.sorted = .ok (w, d))

include hs hplan

/-- So it is the last that is deleted. -/
theorem removed_before_tenant (hx : x ∈ s) (ht : validTenantName t) (happ : AppTuple t x) {n : ℕ}
    (hgone : ⟨tenant t, "tenant", x.object⟩ ∈ (sortByKey d).take n) : x ∈ (sortByKey d).take n := by
  have hpre := (happ.hasPrefix_iff ht ht).2 rfl
  have hgone' := mem_sortByKey.1 (mem_of_mem_take hgone)
  obtain ⟨⟨t', apps⟩, he, want, hwant, hin, hout⟩ :=
    (mem_planApps hs.shape installed.valid_sorted hplan _).2.1 hgone'
  have ht' := installed.valid_sorted _ he
  have hall := appTuples_eq_ok ht' hwant
  obtain ⟨p, hp⟩ := app_of_mem_appObjects hall ((mem_storedApps hs.shape hall).1 hin).2
  obtain rfl : t' = t := (hasPrefix_app_iff ht ht').1 (hp ▸ hpre)
  have hxd : x ∈ d := (mem_deletes_of_tenant hs hplan (Installed.mem_sorted.1 he) hwant hpre).2
    ⟨hx, fun hxw => hout (hall.attached x hxw)⟩
  rcases happ.key_lt with hlt | heq
  · exact mem_take_sortByKey hgone hxd hlt
  · exact heq ▸ hgone

/-- What is written has its attachment. -/
theorem tenant_of_write (hx : x ∈ w) (ht : validTenantName t) (happ : AppTuple t x) :
    (⟨tenant t, "tenant", x.object⟩ ∈ s ∧ ⟨tenant t, "tenant", x.object⟩ ∉ d) ∨
      ⟨tenant t, "tenant", x.object⟩ ∈ w := by
  have hpre := (happ.hasPrefix_iff ht ht).2 rfl
  obtain ⟨⟨t', apps⟩, he, want, hwant, hin, -⟩ :=
    (mem_planApps hs.shape installed.valid_sorted hplan x).1.1 hx
  have ht' := installed.valid_sorted _ he
  have hall := appTuples_eq_ok ht' hwant
  obtain rfl := (hall.shape x hin).tenant_eq ht' ht happ
  have hatt := hall.attached x hin
  by_cases hthere : (⟨tenant t', "tenant", x.object⟩ : Tuple) ∈ s
  · refine .inl ⟨hthere, fun hgone => ?_⟩
    exact ((mem_deletes_of_tenant hs hplan (Installed.mem_sorted.1 he) hwant
      (x := ⟨tenant t', "tenant", x.object⟩) hpre).1 hgone).2 hatt
  · refine .inr ?_
    exact (mem_writes_of_tenant hs.shape hplan (Installed.mem_sorted.1 he) hwant
      (x := ⟨tenant t', "tenant", x.object⟩) hpre).2 ⟨hatt, hthere⟩

end

end Attached

/-- **A call that writes apps whole leaves each with its `tenant` tuple.** -/
theorem attributed_step {s' : Store} {call : AppsCall} (hs : Attributed s)
    (hwhole : WritesWhole s call) (hstep : appsStep s call = some s') : Attributed s' := by
  cases hstep
  rcases reconcileApps_store s call.installed call.fate with
    hsame | ⟨w, d, f, hplan, hfate, hstore⟩
  · rw [hsame]
    exact hs
  rw [hstore]
  unfold WritesWhole at hwhole
  rw [hplan, hfate] at hwhole
  have hmem := mem_write s (sortByKey w) (sortByKey d) f
  constructor
  · intro x hx
    rcases (hmem x).1 hx with ⟨hx, -⟩ | hx
    · exact hs.shape x hx
    · obtain ⟨e, he, want, hwant, hin, -⟩ :=
        (mem_planApps hs.shape call.installed.valid_sorted hplan x).1.1
          (mem_sortByKey.1 (mem_of_mem_written hx))
      have hv := call.installed.valid_sorted e he
      exact ⟨e.1, hv, (appTuples_eq_ok hv hwant).shape x hin⟩
  · intro x hx t ht happ
    rw [hmem]
    rcases (hmem x).1 hx with ⟨hx, hkept⟩ | hx
    · -- the tuple was there: if its `tenant` tuple is removed, so is the tuple before
      refine .inl ⟨hs.attached x hx t ht happ, fun hgone => ?_⟩
      exact hkept (removed_before_tenant hs hplan hx ht happ hgone)
    · -- the tuple is written: its `tenant` tuple is there, or is written with it
      rcases tenant_of_write hs hplan (mem_sortByKey.1 (mem_of_mem_written hx)) ht happ with
        ⟨hthere, hstays⟩ | hplanned
      · exact .inl ⟨hthere, fun hgone => hstays (mem_sortByKey.1 (mem_of_mem_deleted hgone))⟩
      · exact .inr (hwhole x hx _ hplanned rfl rfl)

/-- **The store holds exactly the installed apps.**  After any run of calls over a
store that was empty, each ending anywhere but within an app's tuples, a call that
returns leaves under the name of every tenant it was given the tuples of that
tenant's installed apps and no other. -/
theorem apps_converge {calls : List AppsCall} {s : Store}
    (hr : run appsStep .empty calls = some s) (hm : Meets appsStep WritesWhole .empty calls)
    {installed : Installed} {fate : CallFate} (hok : (reconcileApps s installed fate).2 = .ok ())
    {t : String} {apps : List InstalledApp} (he : (t, apps) ∈ installed.entries) :
    ∃ want, appTuples t apps = .ok want ∧ ∀ x, x ∈ (reconcileApps s installed fate).1 ∧
        hasPrefix x.object ("app:" ++ t ++ "/") = true ↔ x ∈ want := by
  have hs : Attributed s := by
    refine invariant (fun s _ s' hs hc h => attributed_step hs hc h) ?_ hm hr
    exact ⟨nofun, nofun⟩
  obtain ⟨w, d, hplan, hmem⟩ := mem_reconcileApps_of_ok hok
  obtain ⟨want, hwant⟩ := appTuples_of_planApps hplan _ (Installed.mem_sorted.2 he)
  have ht := installed.valid _ he
  refine ⟨want, hwant, fun x => ⟨fun ⟨hx, hpre⟩ => ?_, fun hx => ?_⟩⟩
  · rw [hmem, mem_deletes_of_tenant hs hplan he hwant hpre,
      mem_writes_of_tenant hs.shape hplan he hwant hpre] at hx
    rcases hx with ⟨hin, hno⟩ | ⟨hin, -⟩
    · by_contra hout
      exact hno ⟨hin, hout⟩
    · exact hin
  · have hpre := (((appTuples_eq_ok ht hwant).shape x hx).hasPrefix_iff ht ht).2 rfl
    refine ⟨?_, hpre⟩
    rw [hmem, mem_deletes_of_tenant hs hplan he hwant hpre,
      mem_writes_of_tenant hs.shape hplan he hwant hpre]
    by_cases hin : x ∈ s
    · exact .inl ⟨hin, fun hno => hno.2 hx⟩
    · exact .inr ⟨hx, hin⟩

/-- One app is replaced by a base with an addon. -/
theorem apps_converge_replaced : ∃ s, run appsStep .empty
        [⟨⟨[("demo", [⟨"wiki", []⟩])], by decide, by decide⟩, .read .answered⟩] = some s ∧
      ∃ want, appTuples "demo" [⟨"office", ["sheets"]⟩] = .ok want ∧
        ∀ x, x ∈ (reconcileApps s ⟨[("demo", [⟨"office", ["sheets"]⟩])], by decide, by decide⟩
            (.read .answered)).1 ∧
          hasPrefix x.object ("app:" ++ "demo" ++ "/") = true ↔ x ∈ want := by
  have hr : run appsStep .empty
      [⟨⟨[("demo", [⟨"wiki", []⟩])], by decide, by decide⟩, .read .answered⟩] = some _ := rfl
  exact ⟨_, hr, apps_converge hr (by decide) (by decide) (by decide)⟩

/-! ### More new apps than one request holds -/

/-- The tuple that opens an app without addons to its own group. -/
def entitledTo (t p : String) : Tuple :=
  ⟨"group:" ++ ("gentian/tenant/" ++ t ++ "/" ++ ("app/" ++ p)) ++ "#member", "entitled", app t p⟩

/-- A profile whose name can stand in an object of the store. -/
def PlainProfile (p : String) : Prop :=
  p ≠ "" ∧ containsAny p "#/ \t\r\n" = false ∧ ':' ∉ p.toList

section

variable (ht : validTenantName t)

include ht

theorem appGroup_of_plain (hp : PlainProfile p) :
    appGroup t p = .ok ("group:" ++ ("gentian/tenant/" ++ t ++ "/" ++ ("app/" ++ p))) := by
  have hlit : ∀ c ∈ "app:".toList, c ∉ "#/ \t\r\n".toList := containsAny_eq_false_iff.1 (by decide)
  have hchars : ∀ c ∈ ("app:" ++ p).toList, c ∉ "#/ \t\r\n".toList := by
    intro c hc
    rw [String.toList_append] at hc
    exact (mem_append.1 hc).elim (hlit c) (containsAny_eq_false_iff.1 hp.2.1 c)
  have hgroup := group_tenantGroup ht hchars
  rw [replaceAll_append, replaceAll_of_not_mem hp.2.2] at hgroup
  exact hgroup

theorem appTuple_entitledTo (hp : PlainProfile p) :
    AppTuple t (entitledTo t p) :=
  .entitled p (appGroup_of_plain ht hp)

theorem put_of_not_mem {x : Tuple}
    (hwant : ∀ w ∈ want, AppTuple t w) (hx : AppTuple t x) (hnew : x ∉ want) :
    put want x = want ++ [x] := by
  have hkey : ∀ w ∈ want, key w ≠ key x := fun w hw he =>
    hnew ((hwant w hw).key_inj ht ht hx he ▸ hw)
  rw [put, filter_eq_self.2 fun w hw => decide_eq_true (hkey w hw)]

/-- What a new app adds. -/
theorem add_of_plain (hp : PlainProfile p)
    (hwant : ∀ w ∈ want, AppTuple t w ∧ w.object ≠ app t p) :
    add t p [p] want = .ok (want ++ [attachedTo t p, entitledTo t p]) := by
  have hent := appTuple_entitledTo ht hp
  have hput : put want (attachedTo t p) = want ++ [attachedTo t p] :=
    put_of_not_mem ht (fun w hw => (hwant w hw).1) (.attached p) fun hin => (hwant _ hin).2 rfl
  have hput' : put (want ++ [attachedTo t p]) (entitledTo t p) =
      want ++ [attachedTo t p, entitledTo t p] := by
    rw [put_of_not_mem ht ?_ hent ?_, append_assoc]
    · rfl
    · intro w hw
      rcases mem_append.1 hw with hw | hw
      · exact (hwant w hw).1
      · rw [mem_singleton.1 hw]
        exact .attached p
    · intro hin
      rcases mem_append.1 hin with hin | hin
      · exact (hwant _ hin).2 rfl
      · have hrel := congrArg Tuple.relation (mem_singleton.1 hin)
        exact absurd hrel (show "entitled" ≠ "tenant" by decide)
  unfold add entitle
  rw [hput, appGroup_of_plain ht hp]
  exact congrArg Except.ok hput'

/-- **Apps without addons, none named twice, have two tuples each.** -/
theorem appTuples_of_plain (hplain : ∀ p ∈ profiles, PlainProfile p)
    (hnodup : profiles.Nodup) : appTuples t (profiles.map fun p => ⟨p, []⟩) =
      .ok (profiles.flatMap fun p => [attachedTo t p, entitledTo t p]) := by
  have hadds : (profiles.map fun p => (⟨p, []⟩ : InstalledApp)).flatMap InstalledApp.adds =
      profiles.map fun p => (p, [p]) := by
    have hone : ∀ p ∈ profiles, InstalledApp.adds ⟨p, []⟩ = [(p, [p])] := fun p hp =>
      if_neg (hplain p hp).1
    rw [flatMap_map, map_eq_flatMap]
    exact flatMap_congr hone
  have hall : ∀ want, (∀ w ∈ want, AppTuple t w ∧ ∀ p ∈ profiles, w.object ≠ app t p) →
        addAll t (profiles.map fun p => (p, [p])) want =
          .ok (want ++ profiles.flatMap fun p => [attachedTo t p, entitledTo t p]) := by
    clear hadds
    induction profiles with
    | nil =>
      intro want hwant
      rw [flatMap_nil, append_nil]
      rfl
    | cons p profiles ih =>
      intro want hwant
      obtain ⟨hp, hplain⟩ := forall_mem_cons.1 hplain
      obtain ⟨hnew, hnodup⟩ := nodup_cons.1 hnodup
      have hadd := add_of_plain ht hp fun w hw =>
        ⟨(hwant w hw).1, (hwant w hw).2 p mem_cons_self⟩
      rw [map_cons, addAll, hadd]
      refine (ih hplain hnodup _ fun w hw => ?_).trans ?_
      · rcases mem_append.1 hw with hw | hw
        · exact ⟨(hwant w hw).1, fun q hq => (hwant w hw).2 q (mem_cons_of_mem _ hq)⟩
        · have hown : AppTuple t w ∧ w.object = app t p := by
            rcases mem_pair.1 hw with rfl | rfl
            · exact ⟨.attached p, rfl⟩
            · exact ⟨appTuple_entitledTo ht hp, rfl⟩
          refine ⟨hown.1, fun q hq he => hnew ?_⟩
          rw [(app_inj ht ht (hown.2.symm.trans he)).2]
          exact hq
      · rw [append_assoc, flatMap_cons]
  unfold appTuples
  rw [hadds, hall [] nofun, nil_append]

end

/-- Whether a tuple is an `entitled` tuple. -/
def entitles (x : Tuple) : Bool := decide (x.relation = "entitled")

theorem filter_entitles (t : String) (profiles : List String) :
    (profiles.flatMap fun p => [attachedTo t p, entitledTo t p]).filter entitles =
      profiles.map (entitledTo t) := by
  induction profiles with
  | nil => rfl
  | cons p profiles ih =>
    rw [flatMap_cons, filter_append, ih]
    rfl

theorem key_lt_of_entitles (ht : validTenantName t) (hplain : ∀ p ∈ profiles, PlainProfile p) :
    ∀ a ∈ profiles.flatMap fun p => [attachedTo t p, entitledTo t p],
      ∀ b ∈ profiles.flatMap fun p => [attachedTo t p, entitledTo t p],
        entitles a → entitles b = false → key a < key b := by
  intro a ha b hb hent hnot
  have ha' := mem_filter.2 ⟨ha, hent⟩
  rw [filter_entitles] at ha'
  obtain ⟨p, hp, rfl⟩ := mem_map.1 ha'
  obtain ⟨q, -, hb⟩ := mem_flatMap.1 hb
  rcases mem_pair.1 hb with rfl | rfl
  · exact key_entitled_lt (appGroup_of_plain ht (hplain p hp)) _ t _
  · cases hnot

/-- A tenant without tuples gets all that is wanted. -/
theorem planApps_of_nothing {apps : List InstalledApp} (hwant : appTuples t apps = .ok want)
    (hread : storedApps s t want = []) : planApps s [(t, apps)] = .ok (want, []) := by
  have hlook : lookApps s t apps = .ok (want, []) := by
    unfold lookApps
    rw [hwant]
    simp only [hread]
    rfl
  simp [planApps, hlook]

/-- **A first call that ends after one request** leaves the `entitled` tuples of a
hundred new apps, and nothing else. -/
theorem first_apps_call (ht : validTenantName t) (hplain : ∀ p ∈ profiles, PlainProfile p)
    (hnodup : profiles.Nodup) (hlen : profiles.length = maxWrite) {installed : Installed}
    (hinst : installed.sorted = [(t, profiles.map fun p => ⟨p, []⟩)]) (x : Tuple) :
    x ∈ (reconcileApps .empty installed (.read (.interrupted 1))).1 ↔
      ∃ p ∈ profiles, entitledTo t p = x := by
  have hwant := appTuples_of_plain ht hplain hnodup
  set want := profiles.flatMap fun p => [attachedTo t p, entitledTo t p] with hdef
  have hcount : want.countP entitles = maxWrite := by
    rw [countP_eq_length_filter, filter_entitles, length_map, hlen]
  obtain ⟨reqs, hreqs⟩ := requests_first (key_lt_of_entitles ht hplain) hcount
  have hfilter := (sortByKey_perm want).filter entitles
  rw [filter_entitles] at hfilter
  have hok : ((sortByKey want).filter entitles).Nodup ∧
      ∀ x ∈ (sortByKey want).filter entitles, x ∉ empty :=
    ⟨hfilter.nodup_iff.2 (hnodup.map fun p q h =>
      (app_inj ht ht (congrArg Tuple.object h)).2), fun x _ => not_mem_empty x⟩
  have hplan : planApps .empty installed.sorted = .ok (want, []) := by
    rw [hinst]
    exact planApps_of_nothing hwant (flatMap_eq_nil_iff.2 fun o _ => rfl)
  have hne : want ≠ [] := fun h => by
    rw [h] at hcount
    cases hcount
  have hreached : reached (sortByKey want) (sortByKey []) (.interrupted 1) =
      [.writes ((sortByKey want).filter entitles)] := by
    rw [reached, show sortByKey [] = [] from rfl, hreqs]
    rfl
  have hserve : empty.serve (.writes ((sortByKey want).filter entitles)) =
      some (empty.with_ _ hok) := dif_pos hok
  unfold reconcileApps
  simp only [hplan, hne, false_and, if_false, write, hreached, sendAll, hserve]
  rw [mem_with_, or_iff_right (not_mem_empty x), hfilter.mem_iff, mem_map]

/-- **A later call does not find them** once the apps are uninstalled. -/
theorem later_apps_call (hs : ∀ x ∈ s, x.relation ≠ "tenant") {installed : Installed}
    (hinst : installed.sorted = [(t, [])]) :
    reconcileApps s installed (.read .answered) = (s, .ok ()) := by
  have hobjects : appObjects s t [] = [] := by
    rw [eq_nil_iff_forall_not_mem]
    intro o ho
    rcases mem_appObjects.1 ho with ⟨hin, -⟩ | ⟨y, hy, -⟩
    · exact hs _ hin rfl
    · cases hy
  have hplan : planApps s installed.sorted = .ok ([], []) := by
    rw [hinst]
    exact planApps_of_nothing rfl (by rw [storedApps, hobjects, flatMap_nil])
  unfold reconcileApps
  simp [hplan]

/-- As many profiles as fit into one request. -/
def hundredProfiles : List String :=
  (range maxWrite).map fun i => .ofList (replicate (i + 1) 'a')

theorem plain_hundredProfiles : ∀ p ∈ hundredProfiles, PlainProfile p := by
  intro p hp
  obtain ⟨i, -, rfl⟩ := mem_map.1 hp
  have hchars : ∀ c ∈ (String.ofList (replicate (i + 1) 'a')).toList, c = 'a' := fun c hc => by
    rw [String.toList_ofList] at hc
    exact eq_of_mem_replicate hc
  refine ⟨fun he => ?_, containsAny_eq_false_iff.2 fun c hc => ?_, fun hc => ?_⟩
  · have hlen := congrArg (fun p => p.toList.length) he
    simp at hlen
  · rw [hchars c hc]
    decide
  · exact absurd (hchars _ hc) (by decide)

theorem nodup_hundredProfiles : hundredProfiles.Nodup := by
  refine nodup_range.map fun i j h => ?_
  have hlen := congrArg (fun p => p.toList.length) h
  simpa using hlen

/-- One tenant with its apps. -/
def Installed.one (t : String) (ht : validTenantName t = true) (apps : List InstalledApp) :
    Installed :=
  ⟨[(t, apps)], nodup_singleton _, fun _ he => mem_singleton.1 he ▸ ht⟩

/-- **An app that is no longer installed stays open.**  A call for a hundred new
apps of one tenant ends after its first request.  Then they are uninstalled, and a
call returns: their `entitled` tuples are still stored. -/
theorem uninstalled_app_stays : ∃ calls s installed, run appsStep .empty calls = some s ∧
      (reconcileApps s installed (.read .answered)).2 = .ok () ∧
        ∃ t apps want x, (t, apps) ∈ installed.entries ∧ appTuples t apps = .ok want ∧
          x ∈ (reconcileApps s installed (.read .answered)).1 ∧ x.relation = "entitled" ∧
            hasPrefix x.object ("app:" ++ t ++ "/") = true ∧ x ∉ want := by
  obtain ⟨t, ht⟩ : ∃ t, validTenantName t := ⟨"demo", by decide⟩
  obtain ⟨p, hp⟩ : ∃ p, p ∈ hundredProfiles :=
    ⟨_, mem_map_of_mem (mem_range.2 maxWrite_pos)⟩
  let before := Installed.one t ht (hundredProfiles.map fun p => ⟨p, []⟩)
  let s := (reconcileApps .empty before (.read (.interrupted 1))).1
  have hlen : hundredProfiles.length = maxWrite := by
    rw [hundredProfiles, length_map, length_range]
  have hmem : ∀ x, x ∈ s ↔ ∃ p ∈ hundredProfiles, entitledTo t p = x :=
    first_apps_call ht plain_hundredProfiles nodup_hundredProfiles hlen rfl
  have hlater : reconcileApps s (.one t ht []) (.read .answered) = (s, .ok ()) := by
    refine later_apps_call (fun x hx hrel => ?_) rfl
    obtain ⟨q, -, rfl⟩ := (hmem x).1 hx
    exact absurd hrel (show "entitled" ≠ "tenant" by decide)
  refine ⟨[⟨before, .read (.interrupted 1)⟩], s, .one t ht [], rfl, by rw [hlater], t, [], [],
    entitledTo t p, mem_singleton_self _, rfl, ?_, rfl, ?_, not_mem_nil⟩
  · rw [hlater]
    exact (hmem _).2 ⟨p, hp, rfl⟩
  · exact (hasPrefix_app_iff ht ht).2 rfl

end Gentian.Authz
