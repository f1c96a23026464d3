/-
# The projection of Keycloak's memberships

`internal/membership/membership.go` (`Scope`, `allows`, `owns`, `Change`,
`Projector.SetUserGroups`, `Projector.RemoveGroup`).

A realm's event may assert a group only inside the realm's own scope: the platform's roles for
the platform realm, and otherwise the groups of one tenant.  `owns` asks the same of a group as
the store holds it (`owns_group`).  When the platform realm is not itself called
`PlatformTenant`, a realm of that name speaks for the same tenant as well: `overlap` is that one
pair, and `allows_both_iff` says that no other two realms share a group.

An event states a person's complete set of groups.  `setUserGroups` makes the stored
memberships inside the realm's scope equal to it.  The mutex `mu` makes the read, the
comparison and the write one step, so the function is a step on the store.
-/

import Gentian.Authz.Names
import Gentian.OpenFGA.Store

namespace Gentian.Membership

open GoStrings Api Authz

section

/-- `Scope`: the realm of the platform's own roles, and the tenant whose realm
that is. -/
structure Scope where
  platformRealm : String
  platformTenant : String
deriving DecidableEq

/-- `prefix`: the names of the platform's vocabulary begin with it. -/
def groupPrefix : String := "gentian:"

/-- `Scope.allows`: whether `realm` may assert membership of `group`. -/
def Scope.allows (s : Scope) (realm group : String) : Bool :=
  match split group ':' with
  | vocabulary :: kind :: name :: rest =>
    if vocabulary ≠ "gentian" then false
    else if kind = "platform" then realm = s.platformRealm
    else if kind = "tenant" then
      if rest = [] ∨ validTenantName name = false then false
      else if realm = s.platformRealm then name = s.platformTenant
      else name = realm
    else false
  | _ => false

/-- `Scope.owns`: whether a stored group id is on `realm`'s side of the
boundary. -/
def Scope.owns (s : Scope) (realm groupObject : String) : Bool :=
  s.allows realm (replaceAll (trimPrefix groupObject "group:") '/' ':')

/-- Two realms that speak for one tenant: the platform's, and one that is called
as the platform tenant is. -/
def Scope.overlap (s : Scope) (r₁ r₂ : String) : Bool :=
  validTenantName s.platformTenant &&
    ((r₁ = s.platformRealm && r₂ = s.platformTenant) ||
      (r₁ = s.platformTenant && r₂ = s.platformRealm))

variable {s : Scope} {r1 r2 realm suffix : String}

/-- **A group is owned in the store by the realms that may assert it.** -/
theorem owns_group {name obj : String} (h : group name = .ok obj) :
    s.owns realm obj = s.allows realm name := by
  obtain ⟨id, hid, rfl⟩ := group_eq_ok_iff.1 h
  rw [Scope.owns, trimPrefix_append, decode_encode hid]

/-- Which realm may speak of a tenant's groups. -/
theorem allows_tenantGroup (s : Scope) (realm : String) {tenant : String}
    (ht : validTenantName tenant) : s.allows realm (tenantGroup tenant suffix) =
      if realm = s.platformRealm then decide (tenant = s.platformTenant)
      else decide (tenant = realm) := by
  have hcolon : ':' ∉ tenant.toList := not_mem_of_validTenantName ht (by decide)
  have hjoin : tenantGroup tenant suffix =
      "gentian" ++ ":" ++ ("tenant" ++ ":" ++ (tenant ++ ":" ++ suffix)) := by
    have hlit : "gentian:tenant:" = "gentian" ++ ":" ++ ("tenant" ++ ":") := by decide
    unfold tenantGroup
    simp only [hlit]
    simp only [String.append_assoc]
  have hsplit : split (tenantGroup tenant suffix) ':' =
      "gentian" :: "tenant" :: tenant :: split suffix ':' := by
    rw [hjoin, split_join (by decide), split_join (by decide), split_join hcolon]
  have hrest : split suffix ':' ≠ [] := by simp [split]
  unfold Scope.allows
  rw [hsplit]
  simp [hrest, ht]

/-- What an allowed group is: one of the platform's roles, for the platform
realm, or a group of the tenant the realm speaks for. -/
theorem allows_cases {g : String} (h : s.allows realm g) :
    ((split g ':')[1]? = some "platform" ∧ realm = s.platformRealm) ∨
      (split g ':')[1]? = some "tenant" ∧ ∃ name, (split g ':')[2]? = some name ∧
        validTenantName name ∧ (realm = s.platformRealm ∧ name = s.platformTenant ∨
            realm ≠ s.platformRealm ∧ name = realm) := by
  unfold Scope.allows at h
  split at h
  next vocabulary kind name _ hparts =>
    rw [hparts]
    by_cases hv : vocabulary = "gentian"
    · by_cases hp : kind = "platform"
      · exact .inl ⟨by simp [hp], by simpa [hv, hp] using h⟩
      · by_cases ht : kind = "tenant"
        · subst hv ht
          by_cases hr : realm = s.platformRealm <;> simp [hr] at h
          · exact .inr ⟨rfl, name, rfl, h.1.2, .inl ⟨hr, h.2⟩⟩
          · exact .inr ⟨rfl, name, rfl, h.1.2, .inr ⟨hr, h.2⟩⟩
        · simp [hp, ht] at h
    · simp [hv] at h
  · cases h

theorem allows_platformTenant (h : s.overlap r1 r2) :
    s.allows r1 (tenantGroup s.platformTenant suffix) ∧
      s.allows r2 (tenantGroup s.platformTenant suffix) := by
  simp only [Scope.overlap, Bool.and_eq_true, Bool.or_eq_true, decide_eq_true_eq] at h
  obtain ⟨hvalid, h⟩ := h
  simp only [allows_tenantGroup s _ hvalid]
  rcases h with ⟨rfl, rfl⟩ | ⟨rfl, rfl⟩ <;> simp

/-- **Two realms share a group exactly when they overlap.** -/
theorem allows_both_iff (hne : r1 ≠ r2) :
    (∃ g, s.allows r1 g ∧ s.allows r2 g) ↔ s.overlap r1 r2 := by
  constructor
  · rintro ⟨g, h1, h2⟩
    rcases allows_cases h1 with ⟨hk, e1⟩ | ⟨hk, n, hn, hvalid, e1⟩ <;>
      rcases allows_cases h2 with ⟨hk', e2⟩ | ⟨hk', n', hn', -, e2⟩
    · exact absurd (e1.trans e2.symm) hne
    · exact absurd (Option.some.inj (hk.symm.trans hk')) (by decide)
    · exact absurd (Option.some.inj (hk.symm.trans hk')) (by decide)
    · cases hn.symm.trans hn'
      rcases e1 with ⟨h1, rfl⟩ | ⟨h1, rfl⟩ <;> rcases e2 with ⟨h2, e2⟩ | ⟨h2, e2⟩
      · exact absurd (h1.trans h2.symm) hne
      · simp [Scope.overlap, hvalid, h1, ← e2]
      · subst e2
        simp [Scope.overlap, hvalid, h2]
      · exact absurd e2 hne
  · exact fun h => ⟨tenantGroup s.platformTenant "admins", allows_platformTenant h⟩

end

open OpenFGA Store List

/-- `Change`: what applying an event did. -/
structure Change where
  added : List String := []
  removed : List String := []
  refused : List String := []
deriving DecidableEq

/-- Why an event was not applied: the person has no id in the store, or a read
or a write of what is named was not answered. -/
inductive ApplyError where
  | id (e : IDError)
  | read (what : String)
  | write (what : String)
deriving DecidableEq

/-- `sort.Strings`. -/
def sortStrings (l : List String) : List String := l.insertionSort (· ≤ ·)

/-- One round of the first loop of `SetUserGroups`: a group outside the
vocabulary is ignored, one the realm may not assert is refused, any other is
wanted.  The accumulator is the set `want` and the list `Refused`. -/
def Scope.sortOut (sc : Scope) (realm : String) (acc : List String × List String) (g : String) :
    List String × List String :=
  let g := trimPrefix g "/"
  if hasPrefix g groupPrefix = false then acc
  else
    match group g with
    | .error _ => (acc.1, acc.2 ++ [g])
    | .ok obj => if sc.allows realm g then (acc.1.insert obj, acc.2) else (acc.1, acc.2 ++ [g])

/-- The groups `SetUserGroups` wants and those it refuses. -/
def Scope.wanted (sc : Scope) (realm : String) (groups : List String) : List String × List String :=
  groups.foldl (sc.sortOut realm) ([], [])

/-- The stored memberships of `u` on `realm`'s side of the boundary. -/
def Scope.held (sc : Scope) (realm u : String) (s : Store) : List Tuple :=
  (s.read ⟨u, "", "group:"⟩).filter fun t => t.relation = "member" && sc.owns realm t.object

/-- The deletes `SetUserGroups` plans: the memberships held that are not
wanted. -/
def Scope.planDeletes (sc : Scope) (realm u : String) (groups : List String) (s : Store) :
    List Tuple :=
  (sc.held realm u s).filter fun t => decide (t.object ∉ (sc.wanted realm groups).1)

/-- The writes `SetUserGroups` plans: the memberships wanted that are not
held. -/
def Scope.planWrites (sc : Scope) (realm u : String) (groups : List String) (s : Store) :
    List Tuple :=
  ((sc.wanted realm groups).1.filter fun obj =>
    decide (obj ∉ (sc.held realm u s).map (·.object))).map fun obj => ⟨u, "member", obj⟩

/-- `Projector.SetUserGroups`: the store it leaves, and what it returns. -/
def setUserGroups (sc : Scope) (s : Store) (realm sub : String) (groups : List String)
    (fate : CallFate) : Store × Except ApplyError Change :=
  match user sub with
  | .error e => (s, .error (.id e))
  | .ok u =>
    match fate with
    | .unread => (s, .error (.read u))
    | .read f =>
      let deletes := sc.planDeletes realm u groups s
      let writes := sc.planWrites realm u groups s
      let change : Change :=
        { added := sortStrings (writes.map (·.object))
          removed := sortStrings (deletes.map (·.object))
          refused := (sc.wanted realm groups).2 }
      if writes = [] ∧ deletes = [] then (s, .ok change)
      else
        let out := write s writes deletes f
        (out.1, if out.2 then .ok change else .error (.write u))

/-- `Projector.RemoveGroup`: the store it leaves, and what it returns. -/
def removeGroup (sc : Scope) (s : Store) (realm name : String) (fate : CallFate) :
    Store × Except ApplyError Change :=
  let g := trimPrefix name "/"
  if hasPrefix g groupPrefix = false then (s, .ok {})
  else
    match group g with
    | .error _ => (s, .ok { refused := [g] })
    | .ok obj =>
      if sc.allows realm g = false then (s, .ok { refused := [g] })
      else
        match fate with
        | .unread => (s, .error (.read obj))
        | .read f =>
          let stored := s.read ⟨"", "member", obj⟩
          if stored = [] then (s, .ok {})
          else
            let out := write s [] stored f
            (out.1, if out.2 then .ok { removed := stored.map (·.user) } else .error (.write obj))

/-! ### What a statement wants -/

/-- A group the realm's statement puts its user in, as the store names it. -/
def Scope.accepts (sc : Scope) (realm g obj : String) : Prop :=
  hasPrefix (trimPrefix g "/") groupPrefix = true ∧ group (trimPrefix g "/") = .ok obj ∧
    sc.allows realm (trimPrefix g "/") = true

variable {sc : Scope} {s : Store} {g name obj realm u : String} {t : Tuple}

/-- A group is wanted when the realm may speak of it. -/
theorem mem_sortOut {acc : List String × List String} :
    obj ∈ (sc.sortOut realm acc g).1 ↔ obj ∈ acc.1 ∨ sc.accepts realm g obj := by
  rw [Scope.sortOut, Scope.accepts]
  by_cases hp : hasPrefix (trimPrefix g "/") groupPrefix
  · cases hg : group (trimPrefix g "/") with
    | error e => simp [hp]
    | ok o =>
      by_cases ha : sc.allows realm (trimPrefix g "/")
      · simp [hp, ha, or_comm, eq_comm]
      · simp [hp, ha]
  · simp [hp]

/-- **What is wanted** are the groups of the statement the realm may assert. -/
theorem mem_wanted {groups : List String} :
    obj ∈ (sc.wanted realm groups).1 ↔ ∃ g ∈ groups, sc.accepts realm g obj := by
  have hfold : ∀ acc, obj ∈ (groups.foldl (sc.sortOut realm) acc).1 ↔
      obj ∈ acc.1 ∨ ∃ g ∈ groups, sc.accepts realm g obj := by
    induction groups with
    | nil => simp
    | cons g _ ih =>
      intro acc
      rw [foldl_cons, ih, mem_sortOut]
      simp [or_assoc]
  simpa [Scope.wanted] using hfold ([], [])

theorem nodup_wanted (sc : Scope) (realm : String) (groups : List String) :
    (sc.wanted realm groups).1.Nodup := by
  have hfold : ∀ acc, acc.1.Nodup → (groups.foldl (sc.sortOut realm) acc).1.Nodup := by
    induction groups with
    | nil => exact fun _ h => h
    | cons g _ ih =>
      intro acc h
      refine ih _ ?_
      rw [Scope.sortOut]
      split_ifs
      · exact h
      · split
        · exact h
        · exact h.insert
      · split <;> exact h
  exact hfold _ nodup_nil

/-- A stored membership of `u` that `realm` speaks about. -/
def Scope.InScope (sc : Scope) (realm u : String) (t : Tuple) : Prop :=
  t.user = u ∧ t.relation = "member" ∧ hasPrefix t.object "group:" = true ∧
    sc.owns realm t.object = true

theorem inScope_of_accepts (h : sc.accepts realm g obj) :
    sc.InScope realm u ⟨u, "member", obj⟩ := by
  obtain ⟨-, hg, ha⟩ := h
  refine ⟨rfl, rfl, ?_, (owns_group hg).trans ha⟩
  obtain ⟨-, -, rfl⟩ := group_eq_ok_iff.1 hg
  exact hasPrefix_append _ _

theorem user_ne_empty {sub : String} (h : user sub = .ok u) : u ≠ "" := by
  obtain ⟨-, -, rfl⟩ := user_eq_ok_iff.1 h
  simp

/-- What a user has in a realm's scope. -/
theorem mem_held {sub : String} (hu : user sub = .ok u) :
    t ∈ sc.held realm u s ↔ t ∈ s ∧ sc.InScope realm u t := by
  have hne := user_ne_empty hu
  rw [Scope.held, mem_filter, mem_read,
    answers_type_iff (show bareType "group:" = true by decide)]
  simp only [hne, false_or, Bool.and_eq_true, decide_eq_true_eq]
  constructor
  · rintro ⟨⟨hs, hu', -, ho⟩, hr, hown⟩
    exact ⟨hs, hu'.symm, hr, ho, hown⟩
  · rintro ⟨hs, rfl, hr, ho, hown⟩
    exact ⟨⟨hs, rfl, .inl trivial, ho⟩, hr, hown⟩

/-! ### What a call leaves -/

section Plan

variable {sc : Scope} {realm sub u : String} {groups : List String} {s : Store} {t : Tuple}

/-- What is taken from a user. -/
theorem mem_planDeletes (hu : user sub = .ok u) : t ∈ sc.planDeletes realm u groups s ↔
      t ∈ s ∧ sc.InScope realm u t ∧ t.object ∉ (sc.wanted realm groups).1 := by
  rw [Scope.planDeletes, mem_filter, mem_held hu, decide_eq_true_iff, and_assoc]

/-- What a user is given. -/
theorem mem_planWrites (hu : user sub = .ok u) : t ∈ sc.planWrites realm u groups s ↔
      t ∉ s ∧ t.user = u ∧ t.relation = "member" ∧ t.object ∈ (sc.wanted realm groups).1 := by
  simp only [Scope.planWrites, mem_map, mem_filter, decide_eq_true_eq]
  constructor
  · rintro ⟨obj, ⟨hw, hn⟩, rfl⟩
    refine ⟨fun ht => hn ?_, rfl, rfl, hw⟩
    obtain ⟨g, -, ha⟩ := mem_wanted.1 hw
    exact ⟨_, (mem_held hu).2 ⟨ht, inScope_of_accepts ha⟩, rfl⟩
  · rintro ⟨hn, rfl, hr, hw⟩
    refine ⟨t.object, ⟨hw, ?_⟩, by rw [← hr]⟩
    rintro ⟨t', ht', ho⟩
    obtain ⟨hs, hu', hr', -⟩ := (mem_held hu).1 ht'
    -- a stored membership of the same person in the same group is the same tuple
    have heq : t' = t := by
      cases t; cases t'
      simp_all
    exact hn (heq ▸ hs)

theorem nodup_planWrites : (sc.planWrites realm u groups s).Nodup :=
  ((nodup_wanted sc realm groups).filter _).map fun a b h => by simpa using h

theorem nodup_planDeletes : (sc.planDeletes realm u groups s).Nodup :=
  ((s.nodup_read _).filter _).filter _

theorem inScope_of_mem_planWrites (hu : user sub = .ok u)
    (h : t ∈ sc.planWrites realm u groups s) : sc.InScope realm u t := by
  obtain ⟨-, hu', hr, hw⟩ := (mem_planWrites hu).1 h
  obtain ⟨g, -, ha⟩ := mem_wanted.1 hw
  obtain ⟨-, -, ho⟩ := inScope_of_accepts (u := u) ha
  exact ⟨hu', hr, ho⟩

/-- A call leaves the store alone or makes the planned writes. -/
theorem setUserGroups_store (hu : user sub = .ok u) (fate : CallFate) :
    (setUserGroups sc s realm sub groups fate).1 = s ∨
      ∃ f, (setUserGroups sc s realm sub groups fate).1 =
        (write s (sc.planWrites realm u groups s) (sc.planDeletes realm u groups s) f).1 := by
  unfold setUserGroups
  rw [hu]
  cases fate with
  | unread => exact .inl rfl
  | read f =>
    simp only
    split_ifs
    · exact .inl rfl
    · exact .inr ⟨f, rfl⟩
    · exact .inr ⟨f, rfl⟩

theorem setUserGroups_of_error {e : IDError} (hu : user sub = .error e) (fate : CallFate) :
    setUserGroups sc s realm sub groups fate = (s, .error (.id e)) := by
  unfold setUserGroups
  rw [hu]

/-- **Nothing outside the scope is touched**, however the call ends. -/
theorem setUserGroups_frame (fate : CallFate) (ht : ∀ u, user sub = .ok u → ¬sc.InScope realm u t) :
    t ∈ (setUserGroups sc s realm sub groups fate).1 ↔ t ∈ s := by
  cases hu : user sub with
  | error e => rw [setUserGroups_of_error hu]
  | ok u =>
    obtain h | ⟨f, h⟩ : (setUserGroups sc s realm sub groups fate).1 = s ∨ _ :=
      setUserGroups_store hu fate
    · rw [h]
    · rw [h, mem_write]
      have hw : t ∉ written s (sc.planWrites realm u groups s) (sc.planDeletes realm u groups s) f :=
        fun hm => ht u hu (inScope_of_mem_planWrites hu (mem_of_mem_written hm))
      have hd : t ∉ deleted s (sc.planWrites realm u groups s) (sc.planDeletes realm u groups s) f :=
        fun hm => ht u hu ((mem_planDeletes hu).1 (mem_of_mem_deleted hm)).2.1
      simp [hw, hd]

/-- **What a statement that was applied leaves**: inside the realm's scope the
person's memberships are the groups it wants, and no others. -/
theorem mem_setUserGroups_of_ok {fate : CallFate} {c : Change} (hu : user sub = .ok u)
    (hok : (setUserGroups sc s realm sub groups fate).2 = .ok c) (ht : sc.InScope realm u t) :
    t ∈ (setUserGroups sc s realm sub groups fate).1 ↔ t.object ∈ (sc.wanted realm groups).1 := by
  have hmerge : ((t ∈ s ∧ t ∉ sc.planDeletes realm u groups s) ∨ t ∈ sc.planWrites realm u groups s) ↔
      t.object ∈ (sc.wanted realm groups).1 := by
    rw [mem_planDeletes hu, mem_planWrites hu]
    simp only [ht, ht.1, ht.2.1]
    by_cases hs : t ∈ s <;> simp [hs]
  unfold setUserGroups at hok ⊢
  rw [hu] at hok ⊢
  cases fate with
  | unread => cases hok
  | read f =>
    simp only at hok ⊢
    split_ifs at hok ⊢ with hnil hall
    · rw [← hmerge, hnil.1, hnil.2]
      simp
    · exact (mem_write_of_ok hall t).trans hmerge

/-- **A statement all of whose requests are answered is applied.** -/
theorem setUserGroups_answered (sc : Scope) (s : Store) (realm : String) (groups : List String)
    (hu : user sub = .ok u) :
    ∃ c, (setUserGroups sc s realm sub groups (.read .answered)).2 = .ok c := by
  have hall : (write s (sc.planWrites realm u groups s) (sc.planDeletes realm u groups s)
      .answered).2 :=
    write_answered_ok nodup_planDeletes (fun t ht => ((mem_planDeletes hu).1 ht).1)
      nodup_planWrites fun t ht => ((mem_planWrites hu).1 ht).1
  unfold setUserGroups
  rw [hu]
  simp only
  split_ifs
  · exact ⟨_, rfl⟩
  · exact ⟨_, rfl⟩

/-- **`SetUserGroups` is exact within the realm's scope and a frame outside it.**  After a call
that succeeded the person is in just those groups of the realm's that the statement names, every
other tuple is as it was, and the same call would write nothing more. -/
theorem setUserGroups_exact {sc : Scope} {s : Store} {realm sub : String} {groups : List String}
    {fate : CallFate} {c : Change} (hok : (setUserGroups sc s realm sub groups fate).2 = .ok c) :
    ∃ u, user sub = .ok u ∧ (∀ obj, hasPrefix obj "group:" = true → sc.owns realm obj = true →
        (⟨u, "member", obj⟩ ∈ (setUserGroups sc s realm sub groups fate).1 ↔
          ∃ g ∈ groups, sc.accepts realm g obj)) ∧
      (∀ t, ¬sc.InScope realm u t → (t ∈ (setUserGroups sc s realm sub groups fate).1 ↔ t ∈ s)) ∧
      sc.planWrites realm u groups (setUserGroups sc s realm sub groups fate).1 = [] ∧
      sc.planDeletes realm u groups (setUserGroups sc s realm sub groups fate).1 = [] ∧
      ∀ g obj, group g = .ok obj → sc.owns realm obj = sc.allows realm g := by
  cases hu : user sub with
  | error e =>
    rw [setUserGroups_of_error hu] at hok
    cases hok
  | ok u =>
    have hin : ∀ {t}, sc.InScope realm u t →
        (t ∈ (setUserGroups sc s realm sub groups fate).1 ↔ t.object ∈ (sc.wanted realm groups).1) :=
      fun ht => mem_setUserGroups_of_ok hu hok ht
    refine ⟨u, rfl, fun obj hgroup hown => ?_, fun t ht => ?_, ?_, ?_, fun g obj => owns_group⟩
    · exact (hin (t := ⟨u, "member", obj⟩) ⟨rfl, rfl, hgroup, hown⟩).trans mem_wanted
    · refine setUserGroups_frame fate fun _ hu' => ?_
      cases hu.symm.trans hu'
      exact ht
    · refine eq_nil_iff_forall_not_mem.2 fun t ht => ?_
      obtain ⟨hnot, -, -, hwant⟩ := (mem_planWrites hu).1 ht
      exact hnot ((hin (inScope_of_mem_planWrites hu ht)).2 hwant)
    · refine eq_nil_iff_forall_not_mem.2 fun t ht => ?_
      obtain ⟨hmem, hscope, hnot⟩ := (mem_planDeletes hu).1 ht
      exact hnot ((hin hscope).1 hmem)

/-- A statement with a leading slash and another tenant's group. -/
theorem setUserGroups_exact_demo :
    let call := setUserGroups ⟨"kernel", "platform"⟩ Store.empty "demo" "u-eve"
      ["/gentian:tenant:demo:users", "gentian:tenant:x:admins"] (.read .answered)
    call.2 = .ok ⟨["group:gentian/tenant/demo/users"], [], ["gentian:tenant:x:admins"]⟩ ∧
      ⟨"user:u-eve", "member", "group:gentian/tenant/demo/users"⟩ ∈ call.1 := by
  intro call
  have hok : call.2 =
      .ok ⟨["group:gentian/tenant/demo/users"], [], ["gentian:tenant:x:admins"]⟩ := by decide
  obtain ⟨u, hu, hexact, -⟩ := setUserGroups_exact hok
  cases hu
  refine ⟨hok, (hexact _ (by decide) (by decide)).2 ⟨_, mem_cons_self, ?_⟩⟩
  exact ⟨by decide, by decide, by decide⟩

end Plan

theorem bareType_group (h : group name = .ok obj) : bareType obj = false := by
  obtain ⟨id, hid, rfl⟩ := group_eq_ok_iff.1 h
  obtain ⟨hne, -, rfl⟩ := encode_eq_ok_iff.1 hid
  refine bareType_append (by decide) fun hnil => ?_
  rw [← String.toList_inj, toList_replaceAll] at hnil
  exact hne (String.toList_inj.1 (map_eq_nil_iff.1 hnil))

/-- The store `RemoveGroup` leaves is the store as it was, or one that a `Write`
without the members of a group the realm may speak about leaves. -/
theorem removeGroup_store (sc : Scope) (s : Store) (realm name : String) (fate : CallFate) :
    (removeGroup sc s realm name fate).1 = s ∨ ∃ g obj f, group g = .ok obj ∧ sc.allows realm g ∧
        (removeGroup sc s realm name fate).1 = (write s [] (s.read ⟨"", "member", obj⟩) f).1 := by
  rw [removeGroup]
  by_cases hp : hasPrefix (trimPrefix name "/") groupPrefix = false
  · exact .inl (by rw [if_pos hp])
  · rw [if_neg hp]
    cases hg : group (trimPrefix name "/") with
    | error e => exact .inl rfl
    | ok obj =>
      by_cases ha : sc.allows realm (trimPrefix name "/") = false
      · exact .inl (by simp only [if_pos ha])
      · cases fate with
        | unread => exact .inl (by simp only [if_neg ha])
        | read f =>
          simp only [if_neg ha]
          by_cases hnil : s.read ⟨"", "member", obj⟩ = []
          · exact .inl (by rw [if_pos hnil])
          · exact .inr ⟨_, obj, f, hg, by simpa using ha, by rw [if_neg hnil]⟩

theorem mem_read_group (hg : group name = .ok obj) :
    t ∈ s.read ⟨"", "member", obj⟩ ↔ t ∈ s ∧ t.relation = "member" ∧ t.object = obj := by
  have hne : obj ≠ "" := by
    obtain ⟨-, -, rfl⟩ := group_eq_ok_iff.1 hg
    simp
  rw [mem_read, answers_iff (bareType_group hg)]
  simp only [hne, false_or, true_or, true_and, show ¬("member" = "") by decide]
  rw [eq_comm (a := "member"), eq_comm (a := obj)]

/-- **A deleted group takes only its own memberships with it**, however the call
ends: a tuple that is not a membership of a group the realm owns stays as it
is. -/
theorem removeGroup_frame (fate : CallFate)
    (ht : ¬(t.relation = "member" ∧ sc.owns realm t.object)) :
    t ∈ (removeGroup sc s realm name fate).1 ↔ t ∈ s := by
  rcases removeGroup_store sc s realm name fate with h | ⟨g, obj, f, hg, ha, h⟩
  · rw [h]
  · have hd : t ∉ deleted s [] (s.read ⟨"", "member", obj⟩) f := by
      intro hm
      obtain ⟨-, hr, rfl⟩ := (mem_read_group hg).1 (mem_of_mem_deleted hm)
      exact ht ⟨hr, (owns_group hg).trans ha⟩
    have hw : t ∉ written s [] (s.read ⟨"", "member", obj⟩) f := fun hm =>
      not_mem_nil (mem_of_mem_written hm)
    rw [h, mem_write]
    simp [hd, hw]

/-! ### One realm's events and another's groups -/

/-- `r₂`'s events leave `r₁`'s groups alone: no `SetUserGroups` and no
`RemoveGroup` issued for `r₂`, from any store and however it ends, adds or
removes a member tuple of a group that `r₁` owns. -/
def Scope.Isolated (sc : Scope) (r₁ r₂ : String) : Prop :=
  ∀ (s : Store) (t : Tuple), t.relation = "member" → sc.owns r₁ t.object = true →
    (∀ sub groups fate, t ∈ (setUserGroups sc s r₂ sub groups fate).1 ↔ t ∈ s) ∧
      ∀ name fate, t ∈ (removeGroup sc s r₂ name fate).1 ↔ t ∈ s

variable {r1 r2 : String}

/-- Realms that speak of no group in common are isolated. -/
theorem isolated_of_disjoint (h : ¬∃ g, sc.allows r1 g ∧ sc.allows r2 g) : sc.Isolated r1 r2 := by
  intro s t _ hown
  have hnot : sc.owns r2 t.object ≠ true := fun h2 => h ⟨_, hown, h2⟩
  exact ⟨fun _ _ fate => setUserGroups_frame fate fun _ _ hin => hnot hin.2.2.2,
    fun _ fate => removeGroup_frame fate fun hin => hnot hin.2⟩

/-- Realms that may both speak of a group are not. -/
theorem not_isolated_of_shared (hg : group g = .ok obj)
    (hp : hasPrefix g groupPrefix) (hslash : trimPrefix g "/" = g)
    (h1 : sc.allows r1 g) (h2 : sc.allows r2 g) : ¬sc.Isolated r1 r2 := by
  intro hiso
  have hu : user "someone" = .ok "user:someone" := by decide
  have hacc : sc.accepts r2 g obj := ⟨by rw [hslash]; exact hp, by rw [hslash]; exact hg,
    by rw [hslash]; exact h2⟩
  obtain ⟨c, hc⟩ := setUserGroups_answered sc .empty r2 [g] hu
  have hmem := (mem_setUserGroups_of_ok hu hc (inScope_of_accepts hacc)).2
    (mem_wanted.2 ⟨g, mem_singleton_self g, hacc⟩)
  exact not_mem_empty _ (((hiso empty ⟨"user:someone", "member", obj⟩ rfl
    ((owns_group hg).trans h1)).1 _ _ _).1 hmem)

/-- **Realm isolation.**  Of two different realms, the events of one leave the
groups of the other alone, and no group name is allowed to both, exactly when
they are not the platform's realm and a realm called as the platform tenant
is. -/
theorem realm_isolation (sc : Scope) (r₁ r₂ : String) (hne : r₁ ≠ r₂) :
    (sc.Isolated r₁ r₂ ↔ sc.overlap r₁ r₂ = false) ∧
      ((∀ g, ¬(sc.allows r₁ g = true ∧ sc.allows r₂ g = true)) ↔ sc.overlap r₁ r₂ = false) := by
  have hshare := allows_both_iff (s := sc) hne
  have hnone : (∀ g, ¬(sc.allows r₁ g ∧ sc.allows r₂ g)) ↔ sc.overlap r₁ r₂ = false := by
    rw [← not_exists, hshare, Bool.not_eq_true]
  refine ⟨⟨fun hiso => ?_, fun ho => isolated_of_disjoint (not_exists.2 (hnone.2 ho))⟩, hnone⟩
  by_contra ho
  rw [Bool.not_eq_false] at ho
  have hvalid : validTenantName sc.platformTenant := by
    rw [Scope.overlap, Bool.and_eq_true] at ho
    exact ho.1
  obtain ⟨h1, h2⟩ : sc.allows r₁ (tenantGroup sc.platformTenant "admins") ∧ _ :=
    allows_platformTenant ho
  refine not_isolated_of_shared (group_tenantGroup hvalid (containsAny_eq_false_iff.1 (by decide)))
    ?_ ?_ h1 h2 hiso
  · have hlit : "gentian:tenant:" = groupPrefix ++ "tenant:" := by decide
    unfold tenantGroup
    simp only [hlit, String.append_assoc]
    exact hasPrefix_append _ _
  · refine if_neg fun hslash => ?_
    obtain ⟨rest, hrest⟩ := hasPrefix_iff.1 hslash
    unfold tenantGroup at hrest
    exact absurd (congrArg (fun x => x.toList.head?) hrest) (by simp)

/-- Two tenants' realms satisfy the condition. -/
theorem realm_isolation_tenants : (Scope.mk "kernel" "platform").Isolated "demo" "other" :=
  (realm_isolation (.mk "kernel" "platform") "demo" "other" (by decide)).1.2 (by decide)

/-- The realm `kernel` is the platform's and the platform tenant is `platform`:
a realm called `platform` puts whom it likes among that tenant's
administrators. -/
theorem platform_realm_not_isolated : realmName "kernel" = true ∧ realmName "platform" = true ∧
    (Scope.mk "kernel" "platform").allows "kernel" "gentian:tenant:platform:admins" = true ∧
      (setUserGroups (Scope.mk "kernel" "platform") Store.empty "platform" "u-eve"
          ["gentian:tenant:platform:admins"] (.read .answered)).1.tuples =
        [⟨"user:u-eve", "member", "group:gentian/tenant/platform/admins"⟩] ∧
      ¬(Scope.mk "kernel" "platform").Isolated "kernel" "platform" := by
  have hset : (setUserGroups (.mk "kernel" "platform") .empty "platform" "u-eve"
      ["gentian:tenant:platform:admins"] (.read .answered)).1.tuples =
        [⟨"user:u-eve", "member", "group:gentian/tenant/platform/admins"⟩] := by decide
  refine ⟨by decide, by decide, by decide, hset, fun hiso => ?_⟩
  have hkept := (hiso .empty ⟨"user:u-eve", "member", "group:gentian/tenant/platform/admins"⟩
    rfl (by decide)).1 "u-eve" ["gentian:tenant:platform:admins"] (.read .answered)
  exact not_mem_empty _ (hkept.1 (mem_singleton_self _))

end Gentian.Membership
