/-
# Applied times never go back

`internal/membership/events.go` (`newest`, `forget`).  With one delivery at a time an entry of
`last` stands for what the projection holds.  Two things take an entry away: `forget` drops
that of the user whose delivery failed, and `newest` drops every entry older than ten minutes
once there are more than 4096.  After either, an older statement about the user is let through.
-/

import Gentian.Membership.NewestWins

namespace Gentian.Membership

open GoStrings GoMap Api Authz OpenFGA Parties Runs List Option

variable {Key : Type} {cfg : Config Key} {s s' : State} {l : Label}

/-- The condition on the order of steps: a delivery arrives when every earlier one
is answered. -/
def OneAtATime (s : State) : Label → Prop
  | .arrive _ => ∀ x ∈ s.deliveries, x.stage.running = false
  | _ => True

/-- The condition under which no watermark that matters is lost: a statement
`newest` is asked about is no older than the floor of an earlier cut, and a
delivery gives up only about a user none of whose statements is applied. -/
def KeepsWatermarks (s : State) : Label → Prop
  | .newest d _ => ∀ x ∈ s.deliveries[d]?, ∀ tk ∈ x.stage.unapplied, ∀ f ∈ s.pruned, f ≤ tk.ev.time
  | .forget d => ∀ x ∈ s.deliveries[d]?, ∀ tk ∈ x.stage.holds, ∀ ev ∈ applications s.log,
      ev.isStatement = true → ev.key ≠ tk.ev.key
  | _ => True

instance (s : State) : ∀ l, Decidable (OneAtATime s l)
  | .arrive _ | .verify .. | .first .. | .newest .. | .apply .. | .mirror .. | .forget _ => by
    dsimp only [OneAtATime]
    infer_instance

instance (s : State) : ∀ l, Decidable (KeepsWatermarks s l)
  | .arrive _ | .verify .. | .first .. | .newest .. | .apply .. | .mirror .. | .forget _ => by
    dsimp only [KeepsWatermarks]
    infer_instance

/-- At most one delivery is under way. -/
def OneRunning (s : State) : Prop :=
  ∀ (i j : ℕ) (x y : Delivery), s.deliveries[i]? = some x → s.deliveries[j]? = some y →
    x.stage.running = true → y.stage.running = true → i = j

/-- At most one delivery stays under way. -/
theorem oneRunning_step (hs : OneRunning s) (hc : OneAtATime s l) (h : Step cfg s l s') :
    OneRunning s' := by
  rcases h.moved with ⟨req, rfl, heq⟩ | ⟨d, req, st, st', hd, hrun, heq⟩
  · -- the delivery that arrives is the only one running
    have hlast : ∀ i x, s'.deliveries[i]? = some x → x.stage.running → i = s.deliveries.length := by
      intro i x hx hxr
      rw [heq, List.getElem?_append] at hx
      split_ifs at hx with hi
      · rw [hc x (mem_of_getElem? hx)] at hxr
        cases hxr
      · have := (List.getElem?_eq_some_iff.1 hx).1
        rw [List.length_singleton] at this
        omega
    exact fun i j x y hx hy hxr hyr => (hlast i x hx hxr).trans (hlast j y hy hyr).symm
  · have hbefore : ∀ (i : ℕ) (x : Delivery), s'.deliveries[i]? = some x → x.stage.running →
        ∃ y : Delivery, s.deliveries[i]? = some y ∧ y.stage.running := by
      intro i x hx hxr
      rw [heq, getElem?_set_of_some hd] at hx
      by_cases hi : i = d
      · exact ⟨_, hi ▸ hd, hrun⟩
      · exact ⟨x, by rwa [if_neg hi] at hx, hxr⟩
    intro i j x y hx hy hxr hyr
    obtain ⟨x', hx', hxr'⟩ := hbefore i x hx hxr
    obtain ⟨y', hy', hyr'⟩ := hbefore j y hy hyr
    exact hs i j x' y' hx' hy' hxr' hyr'

theorem OneRunning.not_ready (hs : OneRunning s) {d i : ℕ} {x y : Delivery}
    (hd : s.deliveries[d]? = some y) (hrun : y.stage.running) (hi : i ≠ d)
    (hx : s.deliveries[i]? = some x) (tk : Ticket) : x.stage ≠ .ready tk := fun hstage =>
  hi (hs i d x y hx hd (by rw [hstage]; rfl) hrun)

theorem floorAt_mono {a b : ℤ} (h : a ≤ b) : floorAt a ≤ floorAt b :=
  Int.ediv_le_ediv (by decide) (by omega)

/-- What holds in every state of a sequential run that meets the condition. -/
structure InOrder (s : State) : Prop where
  one : OneRunning s
  floor : ∀ f ∈ s.pruned, f ≤ floorAt s.clock
  /-- The time of an applied statement is in `last`, or below a floor. -/
  marks : ∀ ev ∈ applications s.log, ev.isStatement = true →
    (∃ w, s.last.lookup ev.key = some w ∧ ev.time ≤ w) ∨ ∃ f, s.pruned = some f ∧ ev.time < f
  /-- A statement let through is the entry of its user, and nothing newer is
  applied. -/
  ready : ∀ (i : ℕ) (req : Request) (tk : Ticket), s.deliveries[i]? = some ⟨req, .ready tk⟩ →
    tk.ev.isStatement = true → s.last.lookup tk.ev.key = some tk.ev.time ∧
      ∀ ev ∈ applications s.log, ev.isStatement = true → ev.key = tk.ev.key → ev.time ≤ tk.ev.time
  ordered : (applications s.log).Pairwise fun a b => a.isStatement = true → b.isStatement = true →
    a.realm = b.realm → a.user = b.user → a.time ≤ b.time

section

variable (hs : InOrder s)

include hs

/-- **A statement `newest` lets through is no older than what is applied.** -/
theorem InOrder.le_of_current {tk : Ticket}
    (hc : ∀ f ∈ s.pruned, f ≤ tk.ev.time) (hle : (s.last.lookup tk.ev.key).getD 0 ≤ tk.ev.time)
    {ev : Event} (hev : ev ∈ applications s.log) (hst : ev.isStatement)
    (hkey : ev.key = tk.ev.key) : ev.time ≤ tk.ev.time := by
  rcases hs.marks ev hev hst with ⟨w, hw, hwle⟩ | ⟨f, hf, hlt⟩
  · rw [← hkey, hw] at hle
    exact hwle.trans hle
  · exact hlt.le.trans (hc f hf)

theorem InOrder.floor_step (h : Step cfg s l s') :
    ∀ f ∈ s'.pruned, f ≤ floorAt s'.clock := by
  cases h with
  | refused _ hnow | verified _ hnow | duplicate _ hnow | recorded _ hnow | outOfDate _ hnow =>
    exact fun f hf => (hs.floor f hf).trans (floorAt_mono hnow)
  | current _ hnow =>
    intro f hf
    split_ifs at hf
    · rw [some.inj hf]
    · exact (hs.floor f hf).trans (floorAt_mono hnow)
  | arrived | projected | failed | mirrored | mirrorFailed | forgotten => exact hs.floor

/-- Every step keeps what was applied below the watermark. -/
theorem InOrder.marks_step (hc : KeepsWatermarks s l) (h : Step cfg s l s') :
    ∀ ev ∈ applications s'.log, ev.isStatement →
      (∃ w, s'.last.lookup ev.key = some w ∧ ev.time ≤ w) ∨
        ∃ f, s'.pruned = some f ∧ ev.time < f := by
  have happ := h.projection
  cases h with
  | @current d req _ tk hd hnow hle =>
    intro ev hev hst
    rw [lookup_insert_eq]
    by_cases hkey : ev.key = tk.ev.key
    · rw [if_pos hkey]
      exact .inl ⟨_, rfl, hs.le_of_current (hc _ hd tk rfl) hle hev hst hkey⟩
    · rw [if_neg hkey]
      rcases hs.marks ev hev hst with ⟨w, hw, hwle⟩ | ⟨f, hf, hlt⟩
      · rcases lookup_keptLast hw with hkept | ⟨hlen, hwlt⟩
        · exact .inl ⟨w, hkept, hwle⟩
        · exact .inr ⟨_, if_pos hlen, hwle.trans_lt hwlt⟩
      · by_cases hlen : maxLast < len s.last
        · exact .inr ⟨_, if_pos hlen, hlt.trans_le ((hs.floor f hf).trans (floorAt_mono hnow))⟩
        · exact .inr ⟨f, (if_neg hlen).trans hf, hlt⟩
  | @forgotten d req tk projected hd =>
    intro ev hev hst
    have hkey : ev.key ≠ tk.ev.key := hc _ hd tk rfl ev hev hst
    rcases hs.marks ev hev hst with ⟨w, hw, hwle⟩ | hf
    · exact .inl ⟨w, by rw [lookup_erase_eq, if_neg hkey, hw], hwle⟩
    · exact .inr hf
  | @projected d req tk _ c hd _ =>
    intro ev hev hst
    rw [applications_append, applications_afterProjection] at hev
    rcases mem_append.1 hev with hev | hev
    · exact hs.marks ev hev hst
    · rw [mem_singleton.1 hev] at hst ⊢
      exact .inl ⟨_, (hs.ready d req tk hd hst).1, le_refl _⟩
  | duplicate | outOfDate | mirrored =>
    rcases happ with ⟨-, heq⟩ | ⟨_, _, _, _, hl, -⟩
    · rw [heq]
      exact hs.marks
    · cases hl
  | arrived | refused | verified | recorded | failed | mirrorFailed => exact hs.marks

/-- What is about to be applied is the newest. -/
theorem InOrder.ready_step (hc : KeepsWatermarks s l) (h : Step cfg s l s') :
    ∀ (i : ℕ) (req : Request) (tk : Ticket), s'.deliveries[i]? = some ⟨req, .ready tk⟩ →
      tk.ev.isStatement → s'.last.lookup tk.ev.key = some tk.ev.time ∧
        ∀ ev ∈ applications s'.log, ev.isStatement → ev.key = tk.ev.key → ev.time ≤ tk.ev.time := by
  intro i req tk hi hst
  -- a delivery that is ready after the step is the one that moved
  have hself : ∀ {d : ℕ} {r : Request} {st st' : Stage}, s.deliveries[d]? = some ⟨r, st⟩ →
      st.running → (s.deliveries.set d ⟨r, st'⟩)[i]? = some ⟨req, .ready tk⟩ →
        i = d ∧ st' = .ready tk := by
    intro d r st st' hd hrun hi
    rw [getElem?_set_of_some hd] at hi
    split_ifs at hi with hid
    · exact ⟨hid, by injection some.inj hi⟩
    · exact absurd rfl (hs.one.not_ready hd hrun hid hi tk)
  cases h with
  | arrived r =>
    rw [getElem?_append] at hi
    split_ifs at hi
    · exact hs.ready i req tk hi hst
    · cases mem_singleton.1 (mem_of_getElem? hi)
  | @recorded d r now v ev hd =>
    obtain ⟨-, hready⟩ := hself hd rfl hi
    -- only a deleted group is ready without `newest`
    obtain ⟨-, heq⟩ | ⟨-, heq⟩ | ⟨hnot, heq⟩ | ⟨-, heq⟩ :=
        afterFirst_cases ⟨ev, v, now, s.log.length⟩ <;>
      rw [heq] at hready <;> cases hready
    rw [hnot] at hst
    cases hst
  | @current d r now tk' hd _ hle =>
    obtain ⟨-, hready⟩ := hself hd rfl hi
    obtain rfl : tk' = tk := by injection hready
    refine ⟨by rw [lookup_insert_eq, if_pos rfl], fun ev hev hst' hkey => ?_⟩
    exact hs.le_of_current (hc _ hd _ rfl) hle hev hst' hkey
  | @projected d r tk' _ c hd =>
    obtain ⟨-, hready⟩ := hself hd rfl hi
    obtain ⟨heq, -⟩ | ⟨heq, -⟩ := afterProjection_cases cfg r tk' <;> rw [heq] at hready <;>
      cases hready
  | refused hd | verified hd | duplicate hd | outOfDate hd | failed hd | mirrored hd
  | mirrorFailed hd | forgotten hd => cases (hself hd rfl hi).2

/-- **A step that meets both conditions keeps the order.** -/
theorem inOrder_step (hc : OneAtATime s l ∧ KeepsWatermarks s l)
    (h : Step cfg s l s') : InOrder s' where
  one := oneRunning_step hs.one hc.1 h
  floor := hs.floor_step h
  marks := hs.marks_step hc.2 h
  ready := hs.ready_step hc.2 h
  ordered := by
    rcases h.projection with ⟨-, heq⟩ | ⟨d, req, tk, -, rfl, hd, -, ⟨-, -, heq⟩ | ⟨-, -, heq⟩⟩
    · rw [heq]
      exact hs.ordered
    · rw [heq, pairwise_append]
      refine ⟨hs.ordered, pairwise_singleton _ _, fun ev hev _ hev' hst hst' hr hu => ?_⟩
      rw [mem_singleton.1 hev'] at hst' hr hu ⊢
      exact (hs.ready d req tk hd hst').2 ev hev hst (by rw [Event.key, Event.key, hr, hu])
    · rw [heq]
      exact hs.ordered

end

theorem inOrder_initial (store : Store) (clock : ℤ) : InOrder (initial store clock) where
  one _ _ _ _ hx := by cases hx
  floor _ hf := by cases hf
  marks _ hev := by cases hev
  ready _ _ _ hi := by cases hi
  ordered := List.Pairwise.nil

/-- **Applied times never go back.**  In a sequential run that keeps the
watermarks that matter, a statement applied after another about the same user is
at least as new. -/
theorem applied_times_monotone {store : Store} {clock : ℤ} {ls : List Label}
    (hm : Meets (step cfg) (fun s l => OneAtATime s l ∧ KeepsWatermarks s l)
      (initial store clock) ls)
    (hr : run (step cfg) (initial store clock) ls = some s) :
    (applications s.log).Pairwise fun a b => a.isStatement = true → b.isStatement = true →
      a.realm = b.realm → a.user = b.user → a.time ≤ b.time :=
  (invariant (fun _ _ _ hs hc h => inOrder_step hs hc (step_cases h))
    (inOrder_initial store clock) hm hr).ordered

/-- Two statements, delivered in order. -/
theorem applied_times_monotone_two :
    ∃ s, run (step (listener [joined, left] true)) (initial Store.empty 0)
        [.arrive (sent 0), .verify 0 0, .first 0 0, .newest 0 0, .apply 0 (.read .answered),
          .mirror 0 true, .arrive (sent 1), .verify 1 1, .first 1 1, .newest 1 1,
          .apply 1 (.read .answered), .mirror 1 true] = some s ∧
      applications s.log = [joined, left] ∧
      (applications s.log).Pairwise fun a b => a.isStatement = true → b.isStatement = true →
        a.realm = b.realm → a.user = b.user → a.time ≤ b.time :=
  ⟨_, (some_get (by decide)).symm, by decide, applied_times_monotone (by decide)
    (some_get (by decide)).symm⟩

/-- **An applied time goes back.**  The newer statement is applied, the mirror
fails, and `forget` drops the user's entry: the older statement, delivered next,
is let through and applied. -/
theorem applied_time_goes_back :
    ∃ s, run (step (listener [joined, left] true)) (initial Store.empty 0)
        [.arrive (sent 1), .verify 0 0, .first 0 0, .newest 0 0, .apply 0 (.read .answered),
          .mirror 0 false, .forget 0, .arrive (sent 0), .verify 1 1, .first 1 1, .newest 1 1,
          .apply 1 (.read .answered), .mirror 1 true] = some s ∧
      Meets (step (listener [joined, left] true)) OneAtATime (initial Store.empty 0)
        [.arrive (sent 1), .verify 0 0, .first 0 0, .newest 0 0, .apply 0 (.read .answered),
          .mirror 0 false, .forget 0, .arrive (sent 0), .verify 1 1, .first 1 1, .newest 1 1,
          .apply 1 (.read .answered), .mirror 1 true] ∧
      applications s.log = [left, joined] ∧ left.isStatement = true ∧ joined.isStatement = true ∧
      left.realm = joined.realm ∧ left.user = joined.user ∧ joined.time < left.time :=
  ⟨_, (some_get (by decide)).symm, by decide, by decide, by decide, by decide, by decide,
    by decide, by decide⟩

end Gentian.Membership
