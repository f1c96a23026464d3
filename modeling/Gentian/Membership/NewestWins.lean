/-
# The newest statement wins

`internal/membership/events.go`, `internal/membership/membership.go`.  `newest` decides under
the receiver's mutex which statement is let through, and `SetUserGroups` applies it under the
projector's.  Between the two a newer statement about the same user can be applied, and the
older one is then applied over it.

When none is let through in between, `last` holds the time of every statement that waits to be
applied (`OneUserRun.waiting`), so what is applied is in order (`OneUserRun.ordered`).  What is
applied last is what the store holds (`OneUserRun.latest`), and the newest statement is among it,
because every acknowledgement is backed (`Accounts`).
-/

import Gentian.Membership.Acknowledged

namespace Gentian.Membership

open GoStrings GoMap Api Authz OpenFGA Parties Runs List Option

variable {Key : Type} {cfg : Config Key} {s s' : State} {l : Label}

/-- A statement sets the user's groups. -/
theorem project_statement {ev : Event} (h : ev.isStatement) (cfg : Config Key)
    (store : Store) (fate : CallFate) : project cfg store ev fate =
      setUserGroups cfg.scope store ev.realm ev.user ev.statedGroups fate := by
  unfold project
  cases hk : ev.kind <;> simp [Event.isStatement, hk] at h ⊢

/-! ### Deliveries about one user -/

/-- The requests carry statements about one user of one realm, and two of them
with one id or one time carry the same statement. -/
def AboutOneUser (cfg : Config Key) (realm sub : String) (reqs : List Request) : Prop :=
  OneEventPerID cfg reqs ∧
    (∀ r ∈ reqs, ∀ ev ∈ cfg.unmarshal r.body,
      ev.isStatement = true ∧ ev.realm = realm ∧ ev.user = sub) ∧
    ∀ r ∈ reqs, ∀ r' ∈ reqs, ∀ ev ∈ cfg.unmarshal r.body, ∀ ev' ∈ cfg.unmarshal r'.body,
      ev.time = ev'.time → ev = ev'
deriving Decidable

/-- The ticket of a delivery that `newest` has let through and that is not applied yet. -/
def Stage.letThrough : Stage → Option Ticket
  | .ready tk => some tk
  | _ => none

/-- What a step must meet: what arrives is about the one user, every request to the store and to
the mirror is answered, and `newest` is not asked about a statement while an older one that it has
let through waits to be applied. -/
def NonePasses (cfg : Config Key) (realm sub : String) (s : State) : Label → Prop
  | .arrive req => AboutOneUser cfg realm sub (s.requests ++ [req])
  | .newest d _ => ∀ x ∈ s.deliveries[d]?, ∀ tk ∈ x.stage.unapplied,
      ∀ y ∈ s.deliveries, ∀ older ∈ y.stage.letThrough, tk.ev.time ≤ older.ev.time
  | .apply _ fate => fate = .read .answered
  | .mirror _ ok => ok = true
  | _ => True

instance (cfg : Config Key) (realm sub : String) (s : State) :
    ∀ l, Decidable (NonePasses cfg realm sub s l)
  | .arrive _ | .verify .. | .first .. | .newest .. | .apply .. | .mirror .. | .forget _ => by
    dsimp only [NonePasses]
    infer_instance

/-- A delivery that no call of the projector or the mirror failed. -/
def Delivery.Unfailed (x : Delivery) : Prop :=
  match x.stage with
  | .failing _ _ | .answered (.notApplied _) => False
  | _ => True

/-- The invariant of a run about one user. -/
structure OneUserRun (cfg : Config Key) (realm sub u : String) (s : State) : Prop where
  accounts : Accounts True cfg s
  about : AboutOneUser cfg realm sub s.requests
  unfailed : ∀ x ∈ s.deliveries, x.Unfailed
  events : ∀ ev ∈ applications s.log, ∃ x ∈ s.deliveries, x.stage.event = some ev
  waiting : ∀ x ∈ s.deliveries, ∀ tk ∈ x.stage.letThrough,
    s.last.lookup (realm ++ "/" ++ sub) = some tk.ev.time
  passed : ∀ ev ∈ applications s.log,
    ∃ v, s.last.lookup (realm ++ "/" ++ sub) = some v ∧ ev.time ≤ v
  ordered : (applications s.log).Pairwise fun a b => a.time ≤ b.time
  latest : ∀ ev ∈ (applications s.log).getLast?, ∀ t, cfg.scope.InScope realm u t →
    (t ∈ s.store ↔ t.object ∈ (cfg.scope.wanted realm ev.statedGroups).1)

section OneUser

variable {realm sub u : String}

variable {x : Delivery} {ev : Event}

section

variable (hs : OneUserRun cfg realm sub u s)

include hs

/-- Every delivery is a statement about the user. -/
theorem OneUserRun.statement (hx : x ∈ s.deliveries) (hev : x.stage.event = some ev) :
    ev.isStatement ∧ ev.realm = realm ∧ ev.user = sub :=
  hs.about.2.1 _ (mem_map_of_mem hx) _ ((hs.accounts.sound _ hx).1 _ hev).1

/-- **Every statement is applied**: the projector call of a step that meets the
condition returns, and leaves the user with what the statement wants. -/
theorem OneUserRun.apply (hu : user sub = .ok u) {d : ℕ}
    {req : Request} {tk : Ticket} (hd : s.deliveries[d]? = some ⟨req, .ready tk⟩) :
    (∃ c, (project cfg s.store tk.ev (.read .answered)).2 = .ok c) ∧
      ∀ t, cfg.scope.InScope realm u t → (t ∈ (project cfg s.store tk.ev (.read .answered)).1 ↔
          t.object ∈ (cfg.scope.wanted realm tk.ev.statedGroups).1) := by
  obtain ⟨hst, rfl, rfl⟩ := hs.statement (mem_of_getElem? hd) rfl
  rw [project_statement hst]
  obtain ⟨c, hc⟩ := setUserGroups_answered cfg.scope s.store tk.ev.realm tk.ev.statedGroups hu
  exact ⟨⟨c, hc⟩, fun t ht => mem_setUserGroups_of_ok hu hc ht⟩

theorem OneUserRun.backs
    (hc : NonePasses cfg realm sub s l) (h : Step cfg s l s') : Backs True cfg s l := by
  cases h with
  | arrived req => exact hc.1
  | outOfDate | current => exact .inl trivial
  | forgotten hd => exact absurd (hs.unfailed _ (mem_of_getElem? hd)) id
  | refused | verified | duplicate | recorded | projected | failed | mirrored | mirrorFailed =>
    trivial

/-- No projection of the user fails. -/
theorem OneUserRun.unfailed_step (hu : user sub = .ok u)
    (hc : NonePasses cfg realm sub s l) (h : Step cfg s l s') :
    ∀ x ∈ s'.deliveries, x.Unfailed := by
  cases h with
  | arrived req => exact forall_mem_concat hs.unfailed trivial
  | @refused d req _ a hd _ href =>
    refine forall_mem_set hs.unfailed ?_
    cases a <;> cases href <;> trivial
  | recorded hd =>
    refine forall_mem_set hs.unfailed ?_
    obtain ⟨-, h⟩ | ⟨-, h⟩ | ⟨-, h⟩ | ⟨-, h⟩ := afterFirst_cases ⟨_, _, _, _⟩ <;> rw [h] <;> trivial
  | projected hd =>
    refine forall_mem_set hs.unfailed ?_
    obtain ⟨h, -⟩ | ⟨h, -⟩ := afterProjection_cases _ _ _ <;> rw [h] <;> trivial
  | failed hd herr =>
    cases hc
    obtain ⟨⟨c, hok⟩, -⟩ := hs.apply hu hd
    rw [herr] at hok
    cases hok
  | mirrorFailed hd => cases hc
  | forgotten hd => exact absurd (hs.unfailed _ (mem_of_getElem? hd)) id
  | duplicate | outOfDate | mirrored | verified | current =>
    exact forall_mem_set hs.unfailed trivial

/-- **What waits to be applied is what `last` holds**: a statement that is let through is no newer
than those that wait, and `newest` has found it no older. -/
theorem OneUserRun.waiting_step (hc : NonePasses cfg realm sub s l) (h : Step cfg s l s') :
    ∀ x ∈ s'.deliveries, ∀ tk ∈ x.stage.letThrough,
      s'.last.lookup (realm ++ "/" ++ sub) = some tk.ev.time := by
  cases h with
  | arrived req => exact forall_mem_concat hs.waiting fun tk htk => by cases htk
  | @recorded d req now v ev hd =>
    refine forall_mem_set hs.waiting fun tk htk => ?_
    have hst := (hs.statement (mem_of_getElem? hd) rfl).1
    obtain ⟨-, h⟩ | ⟨-, h⟩ | ⟨hno, -⟩ | ⟨-, h⟩ := afterFirst_cases ⟨ev, v, now, s.log.length⟩
    · rw [h] at htk
      cases htk
    · rw [h] at htk
      cases htk
    · rw [hst] at hno
      cases hno
    · rw [h] at htk
      cases htk
  | @current d req now tk hd _ hle =>
    have hkey : tk.ev.key = realm ++ "/" ++ sub := by
      obtain ⟨-, hrealm, huser⟩ := hs.statement (mem_of_getElem? hd) rfl
      rw [Event.key, hrealm, huser]
    have hlast : ((keptLast s.last now).insert tk.ev.key tk.ev.time).lookup
        (realm ++ "/" ++ sub) = some tk.ev.time := by rw [hkey, AList.lookup_insert]
    refine forall_mem_set (fun y hy older holder => ?_) fun tk' htk' => ?_
    · have hold := hs.waiting y hy older holder
      rw [hkey, hold, getD_some] at hle
      have hnone := hc _ hd tk rfl y hy older holder
      rw [hlast, le_antisymm hnone hle]
    · cases htk'
      exact hlast
  | projected hd =>
    refine forall_mem_set hs.waiting ?_
    obtain ⟨h, -⟩ | ⟨h, -⟩ := afterProjection_cases _ _ _
    all_goals
      rw [h]
      exact fun tk htk => by cases htk
  | forgotten hd => exact absurd (hs.unfailed _ (mem_of_getElem? hd)) id
  | refused | verified | duplicate | outOfDate | failed | mirrored | mirrorFailed =>
    exact forall_mem_set hs.waiting fun tk htk => by cases htk

/-- **What was applied is no newer than what `last` holds.** -/
theorem OneUserRun.passed_step (h : Step cfg s l s') : ∀ ev ∈ applications s'.log,
    ∃ v, s'.last.lookup (realm ++ "/" ++ sub) = some v ∧ ev.time ≤ v := by
  have hkeep : (∀ v, s.last.lookup (realm ++ "/" ++ sub) = some v →
      ∃ v', s'.last.lookup (realm ++ "/" ++ sub) = some v' ∧ v ≤ v') := by
    cases h with
    | @current d req now tk hd _ hle =>
      intro v hv
      obtain ⟨-, hrealm, huser⟩ := hs.statement (mem_of_getElem? hd) rfl
      have hkey : tk.ev.key = realm ++ "/" ++ sub := by rw [Event.key, hrealm, huser]
      rw [hkey, hv, getD_some] at hle
      exact ⟨_, by rw [hkey, AList.lookup_insert], hle⟩
    | forgotten hd => exact absurd (hs.unfailed _ (mem_of_getElem? hd)) id
    | _ => exact fun v hv => ⟨v, hv, le_rfl⟩
  have hold : ∀ ev ∈ applications s.log,
      ∃ v, s'.last.lookup (realm ++ "/" ++ sub) = some v ∧ ev.time ≤ v := by
    intro ev hev
    obtain ⟨v, hv, hle⟩ := hs.passed ev hev
    obtain ⟨v', hv', hle'⟩ := hkeep v hv
    exact ⟨v', hv', hle.trans hle'⟩
  intro ev hev
  rcases h.projection with ⟨-, heq⟩ | ⟨d, req, tk, fate, -, hd, -, ⟨c, -, heq⟩ | ⟨e, -, heq⟩⟩
  · exact hold ev (heq ▸ hev)
  · rw [heq] at hev
    rcases mem_append.1 hev with hev | hev
    · exact hold ev hev
    · rw [mem_singleton.1 hev]
      exact hkeep _ (hs.waiting _ (mem_of_getElem? hd) tk rfl)
  · exact hold ev (heq ▸ hev)

end

/-- **A step that meets the condition keeps all of it.** -/
theorem oneUserRun_step (hu : user sub = .ok u) (hs : OneUserRun cfg realm sub u s)
    (hc : NonePasses cfg realm sub s l) (h : Step cfg s l s') :
    OneUserRun cfg realm sub u s' where
  accounts := accounts_step hs.accounts (hs.backs hc h) h
  about := by
    rcases h.requests with heq | ⟨req, rfl, heq⟩
    · rw [heq]
      exact hs.about
    · rw [heq]
      exact hc
  unfailed := hs.unfailed_step hu hc h
  events := by
    intro ev hev
    have hold : ev ∈ applications s.log → ∃ x' ∈ s'.deliveries, x'.stage.event = some ev := by
      intro hev
      obtain ⟨x, hx, hxev⟩ := hs.events ev hev
      exact h.event hx hxev
    rcases h.projection with ⟨-, heq⟩ | ⟨d, req, tk, fate, -, hd, -, ⟨c, -, heq⟩ | ⟨e, -, heq⟩⟩
    · exact hold (heq ▸ hev)
    · rw [heq] at hev
      rcases mem_append.1 hev with hev | hev
      · exact hold hev
      · rw [mem_singleton.1 hev]
        exact h.event (mem_of_getElem? hd) rfl
    · exact hold (heq ▸ hev)
  waiting := hs.waiting_step hc h
  passed := hs.passed_step h
  ordered := by
    rcases h.projection with ⟨-, heq⟩ | ⟨d, req, tk, fate, rfl, hd, -, ⟨c, -, heq⟩ | ⟨e, -, heq⟩⟩
    · rw [heq]
      exact hs.ordered
    · rw [heq, pairwise_append]
      refine ⟨hs.ordered, pairwise_singleton _ _, fun ev hev _ hev' => ?_⟩
      -- what waits has the time that `last` holds, and nothing newer was applied
      obtain ⟨v, hv, hle⟩ := hs.passed ev hev
      rw [hs.waiting _ (mem_of_getElem? hd) tk rfl] at hv
      cases hv
      rw [mem_singleton.1 hev']
      exact hle
    · rw [heq]
      exact hs.ordered
  latest := by
    rcases h.projection with ⟨hst, heq⟩ | ⟨d, req, tk, fate, rfl, hd, hst, hout⟩
    · rw [heq, hst]
      exact hs.latest
    · cases hc
      obtain ⟨⟨c, hok⟩, hwant⟩ := hs.apply hu hd
      rcases hout with ⟨-, -, heq⟩ | ⟨e, herr, -⟩
      · intro ev hev
        rw [heq, getLast?_concat] at hev
        cases hev
        rw [hst]
        exact hwant
      · rw [herr] at hok
        cases hok

theorem oneUserRun_initial (cfg : Config Key) (realm sub u : String) (store : Store) (clock : ℤ) :
    OneUserRun cfg realm sub u (initial store clock) where
  accounts := accounts_initial cfg store clock
  about := ⟨fun _ hr => (by cases hr), fun _ hr => (by cases hr), fun _ hr => (by cases hr)⟩
  unfailed _ hx := by cases hx
  events _ hev := by cases hev
  waiting _ hx := by cases hx
  passed _ hev := by cases hev
  ordered := List.Pairwise.nil
  latest _ hev := by cases hev

section

variable (hs : OneUserRun cfg realm sub u s) (hu : user sub = .ok u)

include hs hu

theorem OneUserRun.wellFormed
    (hx : x ∈ s.deliveries) (hev : x.stage.event = some ev) : ev.wellFormed := by
  obtain ⟨-, hid, hrealm⟩ := (hs.accounts.sound _ hx).1 _ hev
  obtain ⟨hst, -, hsub⟩ := hs.statement hx hev
  have hne : ev.user ≠ "" := by
    intro h
    obtain ⟨id, henc, -⟩ := user_eq_ok_iff.1 hu
    rw [← hsub, h] at henc
    exact (encode_eq_ok_iff.1 henc).1 rfl
  cases hk : ev.kind <;>
    simp [Event.wellFormed, Event.isStatement, hid, hrealm, hne, hk] at hst ⊢

/-- **The newest statement is applied** once every delivery is answered. -/
theorem OneUserRun.newest_applied (hdone : ∀ x ∈ s.deliveries, x.stage.running = false) {m : Event}
    (hx : x ∈ s.deliveries) (hm : x.stage.event = some m) (h0 : 0 ≤ m.time)
    (hmax : ∀ y ∈ s.deliveries, ∀ ev, y.stage.event = some ev → ev.time ≤ m.time) :
    m ∈ applications s.log := by
  have hsound := hs.accounts.sound _ hx
  have hunm := (hsound.1 _ hm).1
  have hwf := hs.wellFormed hu hx hm
  -- what covers the newest statement is that statement
  have hcov : .acked m ∈ s.log → m ∈ applications s.log := by
    intro hack
    rcases hs.accounts.backed m hack hwf h0 with ⟨ev, hev, rfl | hsup⟩ | ⟨y, hy, tk, htk, -⟩ |
      ⟨-, y, hy, ev, hun, -⟩
    · exact hev
    · obtain ⟨y, hy, hyev⟩ := hs.events ev hev
      have heq : ev.time = m.time := le_antisymm (hmax y hy ev hyev) hsup.2.2.2.2
      have := hs.about.2.2 _ (mem_map_of_mem hy) _ (mem_map_of_mem hx) _
        ((hs.accounts.sound _ hy).1 _ hyev).1 _ hunm heq
      exact this ▸ hev
    · exact absurd ((running_of_unapplied htk).2.symm.trans (hdone y hy)) Bool.noConfusion
    · have hrun := hdone y hy
      cases hstage : y.stage <;> simp [hstage, Stage.running, Stage.underway] at hrun hun
  obtain ⟨req, st⟩ := x
  have hacc := hs.accounts.accounted _ hx
  have hok := hs.unfailed _ hx
  cases st with
  | answered a =>
    cases a with
    | tooLarge | unauthenticated | malformed => cases hm
    | noUser tk | unknownType tk =>
      cases hm
      exact absurd hwf (by rw [hsound.2]; exact Bool.false_ne_true)
    | duplicate ev =>
      cases hm
      exact hcov hacc
    | outOfDate tk =>
      cases hm
      exact hcov hacc
    | notApplied tk => exact absurd hok id
    | applied tk =>
      cases hm
      exact hacc
  | arrived | verified | admitted | ready | mirroring | failing => cases hdone _ hx

end

/-- **The newest statement wins.**  Deliveries of statements about one user, with
pairwise different times, all of whose store requests are answered: in a run in which no
newer statement is let through between the moment that one is let through and the moment it is
applied, once every delivery is answered, the user's memberships inside the realm's scope are
those of the newest statement, provided its time is not negative. -/
theorem newest_statement_wins (hu : user sub = .ok u) {store : Store} {clock : ℤ} {ls : List Label}
    (hmeets : Meets (step cfg) (NonePasses cfg realm sub) (initial store clock) ls)
    (hrun : run (step cfg) (initial store clock) ls = some s)
    (hdone : ∀ x ∈ s.deliveries, x.stage.running = false) {x : Delivery} {m : Event}
    (hx : x ∈ s.deliveries) (hm : x.stage.event = some m) (h0 : 0 ≤ m.time)
    (hmax : ∀ y ∈ s.deliveries, ∀ ev, y.stage.event = some ev → ev.time ≤ m.time) :
    ∀ t, cfg.scope.InScope realm u t →
      (t ∈ s.store ↔ t.object ∈ (cfg.scope.wanted realm m.statedGroups).1) := by
  have hs : OneUserRun cfg realm sub u s :=
    invariant (fun _ _ _ hs hc h => oneUserRun_step hu hs hc (step_cases h))
      (oneUserRun_initial cfg realm sub u store clock) hmeets hrun
  have hmem := hs.newest_applied hu hdone hx hm h0 hmax
  -- what was applied last is at least as new, so it is the newest statement
  obtain ⟨ev, hlast⟩ : ∃ ev, (applications s.log).getLast? = some ev := by
    cases hl : (applications s.log).getLast? with
    | none =>
      rw [getLast?_eq_none_iff.1 hl] at hmem
      cases hmem
    | some ev => exact ⟨ev, rfl⟩
  obtain ⟨y, hy, hyev⟩ := hs.events ev (mem_of_getLast? hlast)
  have hle : m.time ≤ ev.time := by
    have hord := hs.ordered
    rw [← dropLast_append_getLast? ev hlast] at hord hmem
    rcases mem_append.1 hmem with hmem | hmem
    · exact (pairwise_append.1 hord).2.2 m hmem ev (mem_singleton_self _)
    · rw [mem_singleton.1 hmem]
  obtain rfl : ev = m := hs.about.2.2 _ (mem_map_of_mem hy) _ (mem_map_of_mem hx) _
    ((hs.accounts.sound _ hy).1 _ hyev).1 _ ((hs.accounts.sound _ hx).1 _ hm).1
    (le_antisymm (hmax y hy ev hyev) hle)
  exact hs.latest ev hlast

end OneUser

/-- A later statement about the user of `joined`: they are in no group. -/
def left : Event :=
  { id := "event-02", time := 20, realm := "demo", type := "user.memberships", user := "u-1" }

/-- Two deliveries: one is let through and applied, and then the newer one is. -/
theorem newest_statement_wins_two :
    ∃ s, run (step (listener [joined, left] false)) (initial Store.empty 0)
        [.arrive (sent 0), .arrive (sent 1), .verify 0 0, .first 0 0, .verify 1 0, .first 1 0,
          .newest 0 0, .apply 0 (.read .answered), .newest 1 0, .apply 1 (.read .answered)] =
        some s ∧
      ∀ t, (listener [joined, left] false).scope.InScope "demo" "user:u-1" t →
        (t ∈ s.store ↔ t.object ∈
          ((listener [joined, left] false).scope.wanted "demo" left.statedGroups).1) :=
  ⟨_, (some_get (by decide)).symm, newest_statement_wins
    (show user "u-1" = .ok "user:u-1" by decide) (by decide) (some_get (by decide)).symm (by decide)
    (x := ⟨sent 1, .answered (.applied ⟨left, 0, 0, 0⟩)⟩) (by decide) rfl (by decide) (by decide)⟩

/-- **The older statement is applied last.**  Both are let through, the older one
first, and the newer one reaches the projector first. -/
theorem older_statement_wins :
    ∃ s, run (step (listener [joined, left] false)) (initial Store.empty 0)
        [.arrive (sent 0), .arrive (sent 1), .verify 0 0, .first 0 0, .newest 0 0, .verify 1 0,
          .first 1 0, .newest 1 0, .apply 1 (.read .answered), .apply 0 (.read .answered)] = some s ∧
      AboutOneUser (listener [joined, left] false) "demo" "u-1" s.requests ∧
      s.deliveries.map (·.stage) =
        [.answered (.applied ⟨joined, 0, 0, 0⟩), .answered (.applied ⟨left, 0, 0, 0⟩)] ∧
      joined.time < left.time ∧
      ⟨"user:u-1", "member", "group:gentian/tenant/demo/members"⟩ ∈ s.store ∧
      ((listener [joined, left] false).scope.wanted "demo" left.statedGroups).1 = [] :=
  ⟨_, (some_get (by decide)).symm, by decide, by decide, by decide, by decide, by decide⟩

end Gentian.Membership
