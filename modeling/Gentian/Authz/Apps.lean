/-
# The installed apps of a tenant in the rights store

`internal/director/authz/apps.go` (`InstalledApp`, `appTuples`, `ReconcileApps`).

A `tenant` tuple attaches an installed app to the tenant, and `entitled` tuples open it to
groups: a base with addons to the addons' groups, any other app to its own.  `ReconcileApps`
finds a tenant's apps in the store by the `tenant` tuples, reads the tuples of those apps and
of the installed ones, and sends the difference by one `Write`.

A tenant's name is checked when the Tenant object is made
(`internal/webhook/tenant_validator.go`), so `Installed` carries that its names are valid.
-/

import Gentian.Authz.Names
import Gentian.Base.Settle
import Gentian.OpenFGA.Store

namespace Gentian.Authz

open GoStrings Api OpenFGA Reconcile List

/-- `InstalledApp`: an app of a tenant and the addons activated inside it, by
profile name. -/
structure InstalledApp where
  profile : String
  addons : List String := []
deriving DecidableEq

/-- The error of `appTuples`: the tenant, the app whose group has no id, and
why. -/
structure AppError where
  tenant : String
  app : String
  cause : IDError
deriving DecidableEq

/-- The tuple that says an app is a tenant's. -/
def attachedTo (tenantName profile : String) : Tuple :=
  ⟨tenant tenantName, "tenant", app tenantName profile⟩

/-- `want[key(t)] = t`, over a map as the list of its values. -/
def put (want : List Tuple) (t : Tuple) : List Tuple :=
  want.filter (fun w => decide (key w ≠ key t)) ++ [t]

/-- The loop of `add` over the groups that open an app. -/
def entitle (tenantName profile : String) :
    List String → List Tuple → Except AppError (List Tuple)
  | [], want => .ok want
  | opener :: openers, want =>
    match appGroup tenantName opener with
    | .error e => .error ⟨tenantName, opener, e⟩
    | .ok g =>
      entitle tenantName profile openers
        (put want ⟨g ++ "#member", "entitled", app tenantName profile⟩)

/-- `add` of `appTuples`: an app's tuples, put on the map. -/
def add (tenantName profile : String) (entitledBy : List String) (want : List Tuple) :
    Except AppError (List Tuple) :=
  entitle tenantName profile entitledBy (put want (attachedTo tenantName profile))

/-- The calls of `add` for one installed app: the base, and each addon as an app
of its own.  Entries without a name are passed over. -/
def InstalledApp.adds (a : InstalledApp) : List (String × List String) :=
  if a.profile = "" then []
  else
    let addons := a.addons.filter fun x => decide (x ≠ "")
    (a.profile, if addons = [] then [a.profile] else addons) :: addons.map fun x => (x, [x])

/-- Calls of `add` one after another, up to the first that fails. -/
def addAll (tenantName : String) :
    List (String × List String) → List Tuple → Except AppError (List Tuple)
  | [], want => .ok want
  | (profile, entitledBy) :: rest, want =>
    match add tenantName profile entitledBy want with
    | .error e => .error e
    | .ok want => addAll tenantName rest want

/-- `appTuples`: what a tenant's installed apps are in the store. -/
def appTuples (tenantName : String) (apps : List InstalledApp) : Except AppError (List Tuple) :=
  addAll tenantName (apps.flatMap InstalledApp.adds) []

/-- `objects`: every app the store attaches to the tenant under the tenant's name,
installed or not, and every app wanted. -/
def appObjects (s : Store) (tenantName : String) (want : List Tuple) : List String :=
  let attached := (s.read ⟨tenant tenantName, "tenant", "app:"⟩).filter fun t =>
    hasPrefix t.object ("app:" ++ tenantName ++ "/")
  ((attached ++ want).map Tuple.object).dedup

/-- The `tenant` and `entitled` tuples `ReconcileApps` reads for a tenant. -/
def storedApps (s : Store) (tenantName : String) (want : List Tuple) : List Tuple :=
  (appObjects s tenantName want).flatMap fun object =>
    (s.read ⟨"", "", object⟩).filter fun t =>
      decide (t.relation = "tenant" ∨ t.relation = "entitled")

/-- One round of the loop of `ReconcileApps`, every read answered: the writes and
the deletes it plans for the tenant. -/
def lookApps (s : Store) (tenantName : String) (apps : List InstalledApp) :
    Except AppError (List Tuple × List Tuple) :=
  match appTuples tenantName apps with
  | .error e => .error e
  | .ok want => .ok (settle key key want (storedApps s tenantName want))

/-- The loop of `ReconcileApps` over the tenants. -/
def planApps (s : Store) :
    List (String × List InstalledApp) → Except AppError (List Tuple × List Tuple)
  | [] => .ok ([], [])
  | (tenantName, apps) :: rest =>
    match lookApps s tenantName apps with
    | .error e => .error e
    | .ok (w, d) =>
      match planApps s rest with
      | .error e => .error e
      | .ok (ws, ds) => .ok (w ++ ws, d ++ ds)

/-- The map of a call: the installed apps of each tenant it names. -/
structure Installed where
  entries : List (String × List InstalledApp)
  nodup : (entries.map Prod.fst).Nodup
  valid : ∀ e ∈ entries, validTenantName e.1 = true

/-- The tenants in the order of their names, each with its apps. -/
def Installed.sorted (installed : Installed) : List (String × List InstalledApp) :=
  installed.entries.insertionSort fun a b => a.1 ≤ b.1

variable {g opener p : String} {e : String × List InstalledApp}

theorem Installed.mem_sorted {installed : Installed} :
    e ∈ installed.sorted ↔ e ∈ installed.entries :=
  mem_insertionSort _

/-- How `ReconcileApps` fails. -/
inductive ReconcileError where
  | group (e : AppError)
  | read
  | write
deriving DecidableEq

/-- `ReconcileApps`: the store it leaves, and what it returns. -/
def reconcileApps (s : Store) (installed : Installed) (fate : CallFate) :
    Store × Except ReconcileError Unit :=
  match planApps s installed.sorted with
  | .error e => (s, .error (.group e))
  | .ok (writes, deletes) =>
    match fate with
    | .unread => (s, .error .read)
    | .read fate =>
      if writes = [] ∧ deletes = [] then (s, .ok ())
      else
        let out := write s (sortByKey writes) (sortByKey deletes) fate
        (out.1, if out.2 then .ok () else .error .write)

/-! ### The shape of an app's tuples -/

/-- The tuples that the apps of a tenant have. -/
inductive AppTuple (tenantName : String) : Tuple → Prop
  | attached (profile : String) : AppTuple tenantName (attachedTo tenantName profile)
  | entitled (profile : String) {opener g : String} (hg : appGroup tenantName opener = .ok g) :
      AppTuple tenantName ⟨g ++ "#member", "entitled", app tenantName profile⟩

variable {x : Tuple}

variable {d w : List Tuple} {s : Store} {t : String}

/-- The tuples of an app are on the app. -/
theorem AppTuple.object (h : AppTuple t x) : ∃ p, x.object = app t p := by
  cases h with
  | attached profile => exact ⟨profile, rfl⟩
  | entitled profile _ => exact ⟨profile, rfl⟩

theorem AppTuple.relation (h : AppTuple t x) : x.relation = "tenant" ∨ x.relation = "entitled" := by
  cases h with
  | attached profile => exact .inl rfl
  | entitled profile _ => exact .inr rfl

variable {t' : String}

/-- An object names one tenant and one profile. -/
theorem app_inj {p' : String} (ht : validTenantName t) (ht' : validTenantName t')
    (h : app t p = app t' p') : t = t' ∧ p = p' := by
  have hslash : isLabelChar '/' = false := by decide
  unfold app at h
  simp only [String.append_assoc] at h
  exact append_inj rfl (not_mem_of_validTenantName ht hslash)
    (not_mem_of_validTenantName ht' hslash) ((String.append_right_inj _).1 h)

/-- The objects that begin with a tenant's name are that tenant's. -/
theorem hasPrefix_app_iff (ht : validTenantName t) (ht' : validTenantName t') :
    hasPrefix (app t' p) ("app:" ++ t ++ "/") ↔ t' = t := by
  constructor
  · intro h
    obtain ⟨rest, hrest⟩ := hasPrefix_iff.1 h
    exact (app_inj ht' ht hrest).1
  · rintro rfl
    exact hasPrefix_iff.2 ⟨p, rfl⟩

theorem bareType_app (t p : String) : bareType (app t p) = false := by
  have h : app t p = "app:" ++ (t ++ "/" ++ p) := by
    unfold app
    simp only [String.append_assoc]
  rw [h]
  refine bareType_append (by decide) fun hnil => ?_
  exact absurd (String.append_eq_empty_iff.1 (String.append_eq_empty_iff.1 hnil).1).2 (by decide)

theorem hash_not_mem_appGroup (h : appGroup t opener = .ok g) : '#' ∉ g.toList := by
  obtain ⟨id, hid, rfl⟩ := group_eq_ok_iff.1 h
  obtain ⟨-, hchars, rfl⟩ := encode_eq_ok_iff.1 hid
  rw [String.toList_append, mem_append, toList_replaceAll, not_or]
  refine ⟨by decide, fun hm => ?_⟩
  obtain ⟨c, hc, heq⟩ := mem_map.1 hm
  split_ifs at heq
  · cases heq
  · exact hchars c hc (heq ▸ by decide)

/-- Entitlements sort before attachments. -/
theorem key_entitled_lt (hg : appGroup t opener = .ok g) (o t' o' : String) :
    key ⟨g ++ "#member", "entitled", o⟩ < key ⟨tenant t', "tenant", o'⟩ := by
  obtain ⟨-, -, rfl⟩ := group_eq_ok_iff.1 hg
  rw [String.lt_iff_toList_lt]
  unfold key tenant
  simp only [String.toList_append]
  exact cons_lt_cons_iff.2 (.inl (by decide))

/-- **The key names the tuple**, among the tuples of apps. -/
theorem AppTuple.key_inj {y : Tuple} (ht : validTenantName t)
    (ht' : validTenantName t') (hx : AppTuple t x) (hy : AppTuple t' y) (h : key x = key y) :
    x = y := by
  have hbar : isLabelChar '|' = false := by decide
  have hno : ∀ {n}, validTenantName n → '|' ∉ (tenant n).toList := by
    intro n hn hm
    unfold tenant at hm
    rw [String.toList_append, mem_append] at hm
    exact hm.elim (by decide) (not_mem_of_validTenantName hn hbar)
  have hlist := congrArg String.toList h
  cases hx with
  | attached profile =>
    cases hy with
    | attached profile' =>
      have hjoin : (tenant t).toList ++ '|' :: ("tenant|" ++ app t profile).toList =
          (tenant t').toList ++ '|' :: ("tenant|" ++ app t' profile').toList := by
        unfold key attachedTo at hlist
        simp only [String.toList_append, append_assoc] at hlist ⊢
        exact hlist
      obtain ⟨htenant, hrest⟩ := join_inj (hno ht) (hno ht') hjoin
      unfold attachedTo
      rw [htenant, (String.append_right_inj _).1 hrest]
    | entitled profile' hg => exact absurd h (key_entitled_lt hg _ _ _).ne'
  | entitled profile hg =>
    cases hy with
    | attached profile' => exact absurd h (key_entitled_lt hg _ _ _).ne
    | entitled profile' hg' =>
      rename_i opener g opener' g'
      have hjoin : g.toList ++ '#' :: ("member|entitled|" ++ app t profile).toList =
          g'.toList ++ '#' :: ("member|entitled|" ++ app t' profile').toList := by
        unfold key at hlist
        simp only [String.toList_append, append_assoc] at hlist ⊢
        exact hlist
      obtain ⟨rfl, hrest⟩ :=
        join_inj (hash_not_mem_appGroup hg) (hash_not_mem_appGroup hg') hjoin
      rw [(String.append_right_inj _).1 hrest]

/-! ### What `appTuples` makes -/

/-- Tuples of one tenant's apps, each app with its `tenant` tuple. -/
structure AppTuples (t : String) (want : List Tuple) : Prop where
  shape : ∀ x ∈ want, AppTuple t x
  attached : ∀ x ∈ want, ⟨tenant t, "tenant", x.object⟩ ∈ want

section Want

variable {t : String} {want want' : List Tuple}

/-- `put` adds one tuple. -/
theorem mem_put (ht : validTenantName t) (hwant : ∀ x ∈ want, AppTuple t x) {y : Tuple}
    (hy : AppTuple t y) : x ∈ put want y ↔ x ∈ want ∨ x = y := by
  rw [put, mem_append, mem_filter, mem_singleton, decide_eq_true_iff]
  constructor
  · exact .imp_left And.left
  · rintro (hx | rfl)
    · by_cases hkey : key x = key y
      · exact .inr ((hwant x hx).key_inj ht ht hy hkey)
      · exact .inl ⟨hx, hkey⟩
    · exact .inr rfl

variable {profile : String}

variable {openers : List String} {P : List Tuple → Prop}

/-- What one entitlement keeps, all of them keep. -/
theorem entitle_invariant (hput : ∀ opener ∈ openers, ∀ g want, appGroup t opener = .ok g → P want →
      P (put want ⟨g ++ "#member", "entitled", app t profile⟩))
    (h : P want) (hok : entitle t profile openers want = .ok want') : P want' := by
  induction openers generalizing want with
  | nil =>
    cases hok
    exact h
  | cons opener openers ih =>
    unfold entitle at hok
    split at hok
    · cases hok
    next g hg =>
      exact ih (fun o ho => hput o (mem_cons_of_mem _ ho)) (hput opener mem_cons_self g want hg h) hok

/-- What one app keeps, all of them keep. -/
theorem addAll_invariant {adds : List (String × List String)}
    (hadd : ∀ a ∈ adds, ∀ want next, P want → add t a.1 a.2 want = .ok next → P next)
    (h : P want) (hok : addAll t adds want = .ok want') : P want' := by
  induction adds generalizing want with
  | nil =>
    cases hok
    exact h
  | cons a adds ih =>
    unfold addAll at hok
    split at hok
    · cases hok
    next next hnext =>
      exact ih (fun b hb => hadd b (mem_cons_of_mem _ hb)) (hadd a mem_cons_self want next h hnext) hok

theorem AppTuples.entitle (ht : validTenantName t)
    (h : AppTuples t want) (hatt : attachedTo t profile ∈ want)
    (hok : Authz.entitle t profile openers want = .ok want') : AppTuples t want' := by
  refine (entitle_invariant (P := fun want => AppTuples t want ∧ attachedTo t profile ∈ want)
    ?_ ⟨h, hatt⟩ hok).1
  rintro opener - g want hg ⟨h, hatt⟩
  have hnew : AppTuple t ⟨g ++ "#member", "entitled", app t profile⟩ := .entitled profile hg
  have hmem := fun x => mem_put (x := x) ht h.shape hnew
  refine ⟨⟨fun x hx => ?_, fun x hx => (hmem _).2 (.inl ?_)⟩, (hmem _).2 (.inl hatt)⟩
  · rcases (hmem x).1 hx with hx | rfl
    · exact h.shape x hx
    · exact hnew
  · rcases (hmem x).1 hx with hx | rfl
    · exact h.attached x hx
    · exact hatt

theorem AppTuples.add (ht : validTenantName t) {entitledBy : List String}
    (h : AppTuples t want) (hok : Authz.add t profile entitledBy want = .ok want') :
    AppTuples t want' := by
  have hnew : AppTuple t (attachedTo t profile) := .attached profile
  have hmem : ∀ {x}, x ∈ put want (attachedTo t profile) ↔ x ∈ want ∨ x = attachedTo t profile :=
    mem_put ht h.shape hnew
  refine .entitle ht ⟨fun x hx => ?_, fun x hx => hmem.2 ?_⟩ (hmem.2 (.inr rfl)) hok
  · rcases hmem.1 hx with hx | rfl
    · exact h.shape x hx
    · exact hnew
  · rcases hmem.1 hx with hx | rfl
    · exact .inl (h.attached x hx)
    · exact .inr rfl

/-- **A tenant's apps come with their `tenant` tuples.** -/
theorem appTuples_eq_ok (ht : validTenantName t) {apps : List InstalledApp}
    (hok : appTuples t apps = .ok want) : AppTuples t want := by
  refine addAll_invariant (fun _ _ _ _ h hadd => h.add ht hadd) ?_ hok
  exact ⟨nofun, nofun⟩

theorem nodup_put (h : want.Nodup) (y : Tuple) : (put want y).Nodup := by
  refine (h.filter _).append (nodup_singleton y) fun x hx hy => ?_
  obtain rfl := mem_singleton.1 hy
  exact of_decide_eq_true (mem_filter.1 hx).2 rfl

theorem nodup_appTuples {apps : List InstalledApp} (hok : appTuples t apps = .ok want) :
    want.Nodup :=
  addAll_invariant (fun _ _ _ _ h hadd =>
    entitle_invariant (fun _ _ _ _ _ h => nodup_put h _) (nodup_put h _) hadd) nodup_nil hok

end Want

/-! ### What a call plans -/

/-- Every tuple of a store is one of some tenant's apps. -/
def AppStore (s : Store) : Prop := ∀ x ∈ s, ∃ t, validTenantName t = true ∧ AppTuple t x

section

variable (ht : validTenantName t) (ht' : validTenantName t') (h : AppTuple t x)

include ht ht' h

theorem AppTuple.hasPrefix_iff : hasPrefix x.object ("app:" ++ t' ++ "/") ↔ t = t' := by
  obtain ⟨p, hp⟩ := h.object
  rw [hp]
  exact hasPrefix_app_iff ht' ht

/-- A tuple is one tenant's. -/
theorem AppTuple.tenant_eq (h' : AppTuple t' x) : t = t' :=
  (h.hasPrefix_iff ht ht').1 ((h'.hasPrefix_iff ht' ht').2 rfl)

end

section Look

variable {s : Store} {t : String} {apps : List InstalledApp} {want w d : List Tuple}

/-- The apps that are looked at: those attached and those wanted. -/
theorem mem_appObjects {o : String} : o ∈ appObjects s t want ↔
      (⟨tenant t, "tenant", o⟩ ∈ s ∧ hasPrefix o ("app:" ++ t ++ "/")) ∨
        ∃ y ∈ want, y.object = o := by
  have hne : tenant t ≠ "" := fun h => absurd (String.append_eq_empty_iff.1 h).1 (by decide)
  have hunder : hasPrefix o ("app:" ++ t ++ "/") → hasPrefix o "app:" := by
    intro h
    obtain ⟨rest, hrest⟩ := hasPrefix_iff.1 h
    exact hasPrefix_iff.2 ⟨t ++ "/" ++ rest, by rw [hrest]; simp only [String.append_assoc]⟩
  have hread : ∀ {y}, y ∈ s.read ⟨tenant t, "tenant", "app:"⟩ ↔ _ :=
    Store.mem_read_type hne (show "tenant" ≠ "" by decide) (show bareType "app:" = true by decide)
  unfold appObjects
  simp only [mem_dedup, mem_map, mem_append, mem_filter, hread]
  constructor
  · rintro ⟨⟨u, r, o'⟩, ⟨⟨hy, rfl, rfl, -⟩, hp⟩ | hy, rfl⟩
    · exact .inl ⟨hy, hp⟩
    · exact .inr ⟨_, hy, rfl⟩
  · rintro (⟨hy, hp⟩ | ⟨y, hy, rfl⟩)
    · exact ⟨_, .inl ⟨⟨hy, rfl, rfl, hunder hp⟩, hp⟩, rfl⟩
    · exact ⟨y, .inr hy, rfl⟩

theorem app_of_mem_appObjects (hwant : AppTuples t want) {o : String}
    (ho : o ∈ appObjects s t want) : ∃ p, o = app t p := by
  rcases mem_appObjects.1 ho with ⟨-, hp⟩ | ⟨y, hy, rfl⟩
  · exact hasPrefix_iff.1 hp
  · exact (hwant.shape y hy).object

variable {x : Tuple}

theorem mem_read_app : x ∈ s.read ⟨"", "", app t p⟩ ↔ x ∈ s ∧ x.object = app t p := by
  have hne : app t p ≠ "" := fun h =>
    absurd (String.append_eq_empty_iff.1 (String.append_eq_empty_iff.1 h).1).2 (by decide)
  exact Store.mem_read_object hne (bareType_app t p)

/-- **What a round reads**: the stored `tenant` and `entitled` tuples of the apps
attached to the tenant, and of the apps wanted. -/
theorem mem_storedApps_iff (hwant : AppTuples t want) :
    x ∈ storedApps s t want ↔ x ∈ s ∧ x.object ∈ appObjects s t want ∧
      (x.relation = "tenant" ∨ x.relation = "entitled") := by
  simp only [storedApps, mem_flatMap, mem_filter, decide_eq_true_eq]
  constructor
  · rintro ⟨o, ho, hx, hrel⟩
    obtain ⟨p, rfl⟩ := app_of_mem_appObjects hwant ho
    obtain ⟨hx, hobj⟩ := mem_read_app.1 hx
    exact ⟨hx, hobj ▸ ho, hrel⟩
  · rintro ⟨hx, ho, hrel⟩
    obtain ⟨p, hp⟩ := app_of_mem_appObjects hwant ho
    refine ⟨x.object, ho, ?_, hrel⟩
    rw [hp]
    exact mem_read_app.2 ⟨hx, hp⟩

/-- What is found of a tenant's apps. -/
theorem mem_storedApps (hs : AppStore s) (hwant : AppTuples t want) :
    x ∈ storedApps s t want ↔ x ∈ s ∧ x.object ∈ appObjects s t want := by
  rw [mem_storedApps_iff hwant]
  refine and_congr_right fun hx => and_iff_left ?_
  obtain ⟨t', -, happ⟩ := hs x hx
  exact happ.relation

theorem nodup_storedApps (hwant : AppTuples t want) : (storedApps s t want).Nodup := by
  refine nodup_flatMap.2 ⟨fun o _ => (Store.nodup_read s _).filter _, ?_⟩
  refine (nodup_dedup _).imp_of_mem fun {o o'} ho ho' hne x hx hx' => hne ?_
  obtain ⟨p, rfl⟩ := app_of_mem_appObjects hwant ho
  obtain ⟨p', rfl⟩ := app_of_mem_appObjects hwant ho'
  have hobj := (mem_read_app.1 (mem_of_mem_filter hx)).2
  exact hobj.symm.trans (mem_read_app.1 (mem_of_mem_filter hx')).2

/-- The key of what is wanted names it among what the store holds. -/
def KeysApart (s : Store) (want : List Tuple) : Prop := ∀ x ∈ want, ∀ y ∈ s, key x = key y → x = y

/-- Tuples of apps differ in their keys. -/
theorem AppStore.keysApart (hs : AppStore s) (ht : validTenantName t)
    (hwant : AppTuples t want) : KeysApart s want := by
  intro x hx y hy he
  obtain ⟨t', ht', hy⟩ := hs y hy
  exact (hwant.shape x hx).key_inj ht ht' hy he

/-- **What a round plans**: the wanted tuples that are not stored, and the tuples
it reads that are not wanted. -/
theorem mem_lookApps (hkeys : KeysApart s want) (ht : validTenantName t)
    (hwant : appTuples t apps = .ok want) (h : lookApps s t apps = .ok (w, d)) (x : Tuple) :
    (x ∈ w ↔ x ∈ want ∧ x ∉ s) ∧ (x ∈ d ↔ x ∈ storedApps s t want ∧ x ∉ want) := by
  have hall := appTuples_eq_ok ht hwant
  have hstored : ∀ {y}, y ∈ storedApps s t want → y ∈ s := fun hy =>
    ((mem_storedApps_iff hall).1 hy).1
  unfold lookApps at h
  rw [hwant] at h
  have hsettle : settle key key want (storedApps s t want) = (w, d) := Except.ok.inj h
  have hw : (settle key key want (storedApps s t want)).1 = w := by rw [hsettle]
  have hd : (settle key key want (storedApps s t want)).2 = d := by rw [hsettle]
  have hapart : ∀ v ∈ want, ∀ y ∈ storedApps s t want, ∀ z ∈ storedApps s t want,
      key v = key y → key v = key z → y = z := fun v hv y hy z hz he he' =>
    (hkeys v hv y (hstored hy) he).symm.trans (hkeys v hv z (hstored hz) he')
  rw [← hw, ← hd, mem_settle_fst, mem_settle_snd_of (nodup_storedApps hall) hapart]
  refine ⟨and_congr_right fun hx => ⟨fun hno hin => ?_, fun hnot y hy he => ?_⟩,
    and_congr_right fun hx => ⟨fun hno hin => hno x hin rfl, fun hnot y hy he => ?_⟩⟩
  · have hobj : x.object ∈ appObjects s t want := mem_appObjects.2 (.inr ⟨x, hx, rfl⟩)
    exact hno x ((mem_storedApps_iff hall).2 ⟨hin, hobj, (hall.shape x hx).relation⟩) rfl
  · exact hnot (hkeys x hx y (hstored hy) he ▸ hstored hy)
  · exact hnot (hkeys y hy x (hstored hx) he ▸ hy)

/-- A plan writes and deletes nothing twice. -/
theorem nodup_lookApps (ht : validTenantName t) (h : lookApps s t apps = .ok (w, d)) :
    w.Nodup ∧ d.Nodup := by
  unfold lookApps at h
  cases hwant : appTuples t apps with
  | error e =>
    rw [hwant] at h
    cases h
  | ok _ =>
    rw [hwant] at h
    obtain ⟨rfl, rfl⟩ := Prod.mk.inj (Except.ok.inj h)
    exact ⟨(nodup_appTuples hwant).sublist settle_fst_sublist,
      (nodup_storedApps (appTuples_eq_ok ht hwant)).sublist settle_snd_sublist⟩

end Look

theorem lookApps_eq_ok {apps : List InstalledApp} {p : List Tuple × List Tuple}
    (h : lookApps s t apps = .ok p) : ∃ want, appTuples t apps = .ok want := by
  unfold lookApps at h
  cases hw : appTuples t apps with
  | error e =>
    rw [hw] at h
    cases h
  | ok want => exact ⟨want, rfl⟩

variable {es : List (String × List InstalledApp)}

/-- A plan is made tenant by tenant. -/
theorem planApps_cons_eq_ok (h : planApps s (e :: es) = .ok (w, d)) :
    ∃ w1 d1 w2 d2, lookApps s e.1 e.2 = .ok (w1, d1) ∧ planApps s es = .ok (w2, d2) ∧
      w = w1 ++ w2 ∧ d = d1 ++ d2 := by
  unfold planApps at h
  cases hlook : lookApps s e.1 e.2 with
  | error err =>
    rw [hlook] at h
    cases h
  | ok p =>
    cases hrest : planApps s es with
    | error err =>
      rw [hlook, hrest] at h
      cases h
    | ok q =>
      rw [hlook, hrest] at h
      cases h
      exact ⟨p.1, p.2, q.1, q.2, rfl, rfl, rfl, rfl⟩

theorem appTuples_of_planApps (h : planApps s es = .ok (w, d)) :
    ∀ e ∈ es, ∃ want, appTuples e.1 e.2 = .ok want := by
  induction es generalizing w d with
  | nil => exact nofun
  | cons e es ih =>
    obtain ⟨w1, d1, w2, d2, hlook, hrest, -, -⟩ := planApps_cons_eq_ok h
    exact forall_mem_cons.2 ⟨lookApps_eq_ok hlook, ih hrest⟩

/-- **What a call plans**, over all its tenants. -/
theorem mem_planApps_of (hkeys : ∀ e ∈ es, ∀ want, appTuples e.1 e.2 = .ok want → KeysApart s want)
    (hvalid : ∀ e ∈ es, validTenantName e.1) (h : planApps s es = .ok (w, d)) (x : Tuple) :
    (x ∈ w ↔ ∃ e ∈ es, ∃ want, appTuples e.1 e.2 = .ok want ∧ x ∈ want ∧ x ∉ s) ∧
      (x ∈ d ↔ ∃ e ∈ es, ∃ want, appTuples e.1 e.2 = .ok want ∧
        x ∈ storedApps s e.1 want ∧ x ∉ want) := by
  induction es generalizing w d with
  | nil =>
    cases h
    simp
  | cons e es ih =>
    obtain ⟨hv, hvalid⟩ := forall_mem_cons.1 hvalid
    obtain ⟨hk, hkeys⟩ := forall_mem_cons.1 hkeys
    obtain ⟨w1, d1, w2, d2, hlook, hrest, rfl, rfl⟩ := planApps_cons_eq_ok h
    obtain ⟨want, hwant⟩ := lookApps_eq_ok hlook
    obtain ⟨hw, hd⟩ := mem_lookApps (hk want hwant) hv hwant hlook x
    obtain ⟨hws, hds⟩ := ih hkeys hvalid hrest
    simp only [mem_append, hw, hd, hws, hds, exists_mem_cons_iff, hwant,
      Except.ok.injEq, exists_eq_left', and_self]

/-- What a plan writes and what it deletes. -/
theorem mem_planApps (hs : AppStore s) (hvalid : ∀ e ∈ es, validTenantName e.1)
    (h : planApps s es = .ok (w, d)) (x : Tuple) :
    (x ∈ w ↔ ∃ e ∈ es, ∃ want, appTuples e.1 e.2 = .ok want ∧ x ∈ want ∧ x ∉ s) ∧
      (x ∈ d ↔ ∃ e ∈ es, ∃ want, appTuples e.1 e.2 = .ok want ∧
        x ∈ storedApps s e.1 want ∧ x ∉ want) :=
  mem_planApps_of (fun e he _ hwant => hs.keysApart (hvalid e he)
    (appTuples_eq_ok (hvalid e he) hwant)) hvalid h x

end Gentian.Authz
