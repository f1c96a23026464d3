/-
# A captured request is not applied twice

`internal/membership/events.go` (`verify`, `first`).  `verify` accepts a captured request for
ten minutes: from five minutes before its timestamp to five after.  `first` remembers an id
for ten minutes from when it is recorded, so that "past that, the timestamp check refuses a
replay on its own".

The two checks read the clock separately.  A replay can be verified at the last moment of the
window and reach `first` a moment later, when the id has just run out.  And `forget` drops an
id without asking whose record it is.  `no_replay` says that nothing else can go wrong.
Nothing is assumed of `ed25519.Verify`.
-/

import Gentian.Membership.Acknowledged

namespace Gentian.Membership

open GoStrings GoMap Api Authz OpenFGA Parties Runs List Option

variable {Key : Type} {cfg : Config Key} {s s' : State} {l : Label}

/-- The clock reading of `verify`, for a delivery whose next step is `first`. -/
def Stage.verifiedReading : Stage → Option ℤ
  | .verified _ v => some v
  | _ => none

/-- The condition on a step.  At `first`, the record of another delivery of the
same request does not run out between the two clock readings of this one; and
`forget` finds no record of the id but the delivery's own. -/
def RecordsHold (s : State) : Label → Prop
  | .first d now => ∀ x ∈ s.deliveries[d]?, ∀ v ∈ x.stage.verifiedReading,
      ∀ y ∈ s.deliveries, ∀ tk ∈ y.stage.holds, y.req = x.req →
        ¬(v ≤ tk.recordedAt + 2 * window ∧ tk.recordedAt + 2 * window < now)
  | .forget d => ∀ x ∈ s.deliveries[d]?, ∀ tk ∈ x.stage.holds, ∀ u ∈ s.seen.lookup tk.ev.id,
      u = tk.recordedAt + 2 * window
  | _ => True

instance (s : State) : ∀ l, Decidable (RecordsHold s l)
  | .arrive _ | .verify .. | .first .. | .newest .. | .apply .. | .mirror .. | .forget _ => by
    dsimp only [RecordsHold]
    infer_instance

/-! ### Clock readings -/

/-- The clock never goes back. -/
theorem Step.clock_le (h : Step cfg s l s') : s.clock ≤ s'.clock := by
  cases h with
  | refused _ hnow | verified _ hnow | duplicate _ hnow | recorded _ hnow | outOfDate _ hnow
  | current _ hnow => exact hnow
  | arrived | projected | failed | mirrored | mirrorFailed | forgotten => exact le_refl _

/-- A delivery that was verified was accepted at its first reading, and its
readings are in order. -/
def Delivery.Timed (cfg : Config Key) (clock : ℤ) (x : Delivery) : Prop :=
  (∀ v ∈ x.stage.verifiedReading, verify cfg x.req v = .ok () ∧ v ≤ clock) ∧
    ∀ tk ∈ x.stage.holds, verify cfg x.req tk.verifiedAt = .ok () ∧
      tk.verifiedAt ≤ tk.recordedAt ∧ tk.recordedAt ≤ clock

variable {x : Delivery} {tk : Ticket} {i : ℕ} {now : ℤ}

variable {y : Delivery} {req : Request} {clock : ℤ}

theorem Delivery.Timed.later {clock' : ℤ} (h : x.Timed cfg clock) (hle : clock ≤ clock') :
    x.Timed cfg clock' :=
  ⟨fun v hv => ⟨(h.1 v hv).1, (h.1 v hv).2.trans hle⟩,
    fun tk htk => ⟨(h.2 tk htk).1, (h.2 tk htk).2.1, (h.2 tk htk).2.2.trans hle⟩⟩

/-- A ticket was held before, or was just recorded. -/
theorem Step.holds_back (h : Step cfg s l s') {x' : Delivery} (hi : s'.deliveries[i]? = some x')
    (htk : x'.stage.holds = some tk) :
    (∃ x, s.deliveries[i]? = some x ∧ x.req = x'.req ∧ x.stage.holds = some tk) ∨
      ∃ now ev v, l = .first i now ∧ s.deliveries[i]? = some ⟨x'.req, .verified ev v⟩ ∧
        tk = ⟨ev, v, now, s.log.length⟩ ∧ s.clock ≤ now ∧ s'.clock = now ∧
        (∀ u, s.seen.lookup ev.id = some u → u < now) ∧
        s'.seen.lookup ev.id = some (now + 2 * window) := by
  have hset : ∀ {d} {req : Request} {st st' : Stage}, s.deliveries[d]? = some ⟨req, st⟩ →
      (s.deliveries.set d ⟨req, st'⟩)[i]? = some x' → (st'.holds = some tk → st.holds = some tk) →
        ∃ x, s.deliveries[i]? = some x ∧ x.req = x'.req ∧ x.stage.holds = some tk := by
    intro d req st st' hd hi hst
    rw [getElem?_set_of_some hd] at hi
    split_ifs at hi with hid
    · cases hi
      exact ⟨⟨req, st⟩, by rw [hid, hd], rfl, hst htk⟩
    · exact ⟨x', hi, rfl, htk⟩
  cases h with
  | arrived req =>
    rw [getElem?_append] at hi
    split_ifs at hi
    · exact .inl ⟨x', hi, rfl, htk⟩
    · rw [mem_singleton.1 (mem_of_getElem? hi)] at htk
      cases htk
  | @refused d req now a hd _ href =>
    refine .inl (hset hd hi fun hh => ?_)
    cases a <;> cases href <;> cases hh
  | verified hd | duplicate hd | forgotten hd =>
    exact .inl (hset hd hi fun hh => (by cases hh))
  | @recorded d req now v ev hd hnow hnew =>
    rw [getElem?_set_of_some hd] at hi
    split_ifs at hi with hid
    · cases hi
      rw [afterFirst_holds] at htk
      exact .inr ⟨now, ev, v, by rw [hid], hid ▸ hd, (some.inj htk).symm, hnow, rfl, hnew,
        by rw [lookup_insert_eq, if_pos rfl]⟩
    · exact .inl ⟨x', hi, rfl, htk⟩
  | projected hd =>
    exact .inl (hset hd hi fun hh => ((afterProjection_holds _ _ _).symm.trans hh))
  | outOfDate hd | current hd | failed hd | mirrored hd | mirrorFailed hd =>
    exact .inl (hset hd hi fun hh => hh)

theorem Delivery.Timed.move {st st' : Stage}
    (h : Delivery.Timed cfg clock ⟨req, st⟩) (hread : st'.verifiedReading = none)
    (hholds : ∀ tk, st'.holds = some tk → st.holds = some tk) :
    Delivery.Timed cfg clock ⟨req, st'⟩ :=
  ⟨fun v hv => absurd (hread.symm.trans hv) (by simp), fun tk htk => h.2 tk (hholds tk htk)⟩

/-- Every step keeps the times. -/
theorem timed_step (hs : ∀ x ∈ s.deliveries, x.Timed cfg s.clock) (h : Step cfg s l s') :
    ∀ x ∈ s'.deliveries, x.Timed cfg s'.clock := by
  have hlater : ∀ x ∈ s.deliveries, x.Timed cfg s'.clock := fun x hx => (hs x hx).later h.clock_le
  cases h with
  | arrived req =>
    exact forall_mem_concat hlater ⟨fun v hv => (by cases hv), fun tk htk => (by cases htk)⟩
  | @refused d req now a hd _ href =>
    refine forall_mem_set hlater ⟨fun v hv => (by cases hv), fun tk htk => ?_⟩
    cases a <;> cases href <;> cases htk
  | verified hd hnow hv =>
    refine forall_mem_set hlater ⟨fun v hv' => ?_, fun tk htk => (by cases htk)⟩
    cases hv'
    exact ⟨hv, le_refl _⟩
  | @recorded d req now v ev hd hnow _ =>
    obtain ⟨hv, hle⟩ := (hs _ (mem_of_getElem? hd)).1 v rfl
    refine forall_mem_set hlater ⟨fun _ hv' => ?_, fun tk htk => ?_⟩
    · obtain ⟨-, h⟩ | ⟨-, h⟩ | ⟨-, h⟩ | ⟨-, h⟩ := afterFirst_cases ⟨ev, v, now, s.log.length⟩ <;>
        rw [h] at hv' <;> cases hv'
    · cases (afterFirst_holds _).symm.trans htk
      exact ⟨hv, hle.trans hnow, le_refl _⟩
  | projected hd =>
    refine forall_mem_set hlater ((hlater _ (mem_of_getElem? hd)).move ?_ fun tk htk =>
      (afterProjection_holds _ _ _).symm.trans htk)
    obtain ⟨h, -⟩ | ⟨h, -⟩ := afterProjection_cases _ _ _ <;> rw [h] <;> rfl
  | duplicate hd | forgotten hd =>
    exact forall_mem_set hlater
      ((hlater _ (mem_of_getElem? hd)).move rfl fun tk htk => (by cases htk))
  | outOfDate hd | current hd | failed hd | mirrored hd | mirrorFailed hd =>
    exact forall_mem_set hlater ((hlater _ (mem_of_getElem? hd)).move rfl fun tk htk => htk)

/-! ### How long an id is remembered -/

/-- The record of a ticket: its id is remembered until ten minutes after it was
recorded, or those are over. -/
def State.Remembers (s : State) (tk : Ticket) : Prop :=
  (∃ u, s.seen.lookup tk.ev.id = some u ∧ tk.recordedAt + 2 * window ≤ u) ∨
    tk.recordedAt + 2 * window < s.clock

/-- What holds in every state of a run that meets the condition. -/
structure Retention (cfg : Config Key) (s : State) : Prop where
  sound : ∀ x ∈ s.deliveries, x.Sound cfg
  timed : ∀ x ∈ s.deliveries, x.Timed cfg s.clock
  remembered : ∀ x ∈ s.deliveries, ∀ tk ∈ x.stage.holds, s.Remembers tk
  /-- Two deliveries that hold one id recorded it more than ten minutes apart. -/
  apart : ∀ (i j : ℕ) (x y : Delivery) (tk tk' : Ticket), s.deliveries[i]? = some x →
    s.deliveries[j]? = some y → i ≠ j → x.stage.holds = some tk → y.stage.holds = some tk' →
      tk.ev.id = tk'.ev.id →
        tk.recordedAt + 2 * window < tk'.recordedAt ∨ tk'.recordedAt + 2 * window < tk.recordedAt
  /-- No two deliveries of one request hold its id. -/
  once : ∀ (i j : ℕ) (x y : Delivery) (tk tk' : Ticket), s.deliveries[i]? = some x →
    s.deliveries[j]? = some y → i ≠ j → x.stage.holds = some tk → y.stage.holds = some tk' →
      x.req ≠ y.req
  done : ∀ req, .done req ∈ s.log → ∃ (i : ℕ) (tk : Ticket),
    s.deliveries[i]? = some ⟨req, .answered (.applied tk)⟩
  order : s.log.Pairwise fun a b => ∀ req ev, ¬(a = .done req ∧ b = .applied req ev)

/-- An id is forgotten only after two windows. -/
theorem Retention.run_out (hs : Retention cfg s) (hy : y ∈ s.deliveries)
    (htk : y.stage.holds = some tk) (hnow : s.clock ≤ now)
    (hnew : ∀ u, s.seen.lookup tk.ev.id = some u → u < now) : tk.recordedAt + 2 * window < now := by
  rcases hs.remembered y hy tk htk with ⟨u, hu, hle⟩ | hlt
  · exact hle.trans_lt (hnew u hu)
  · exact hlt.trans_le hnow

theorem remembers_kept {seen : AList fun _ : String => ℤ} {u : ℤ}
    (hu : s.seen.lookup tk.ev.id = some u) (hle : tk.recordedAt + 2 * window ≤ u)
    (hseen : ∀ u, s.seen.lookup tk.ev.id = some u → now ≤ u → seen.lookup tk.ev.id = some u) :
    (∃ u, seen.lookup tk.ev.id = some u ∧ tk.recordedAt + 2 * window ≤ u) ∨
      tk.recordedAt + 2 * window < now := by
  by_cases hnow : now ≤ u
  · exact .inl ⟨u, hseen u hu hnow, hle⟩
  · exact .inr (hle.trans_lt (not_le.1 hnow))

section

variable (hs : Retention cfg s)

include hs

/-- **A record is kept as long as it must be.** -/
theorem Retention.remembers_step (hc : RecordsHold s l) (h : Step cfg s l s')
    (hi : s.deliveries[i]? = some x) (htk : x.stage.holds = some tk)
    (hstill : ∀ x', s'.deliveries[i]? = some x' → x'.stage.holds = some tk) : s'.Remembers tk := by
  rcases hs.remembered x (mem_of_getElem? hi) tk htk with ⟨u, hu, hle⟩ | hlt
  · cases h with
    | duplicate =>
      exact remembers_kept hu hle fun u hu hnow => lookup_keptSeen.2 ⟨hu, hnow⟩
    | @recorded d req now v ev hd hnow _ =>
      by_cases hid : tk.ev.id = ev.id
      · -- the id is recorded anew, and later
        obtain ⟨-, -, hrec⟩ := (hs.timed x (mem_of_getElem? hi)).2 tk htk
        refine .inl ⟨now + 2 * window, ?_, by omega⟩
        rw [lookup_insert_eq, if_pos hid]
      · refine remembers_kept hu hle fun u hu hnow => ?_
        rw [lookup_insert_eq, if_neg hid]
        exact lookup_keptSeen.2 ⟨hu, hnow⟩
    | @forgotten d req tk' projected hd =>
      by_cases hid : tk.ev.id = tk'.ev.id
      · have hne : i ≠ d := by
          rintro rfl
          have := hstill _ (by rw [getElem?_set_of_some hd, if_pos rfl])
          cases this
        have hown : u = tk'.recordedAt + 2 * window := hc _ hd tk' rfl u (hid ▸ hu)
        obtain ⟨-, -, hrec⟩ := (hs.timed _ (mem_of_getElem? hd)).2 tk' rfl
        have hwin : (0 : ℤ) < window := by decide
        rcases hs.apart i d x _ tk tk' hi hd hne htk rfl hid with hlt | hlt
        · exact .inr (hlt.trans_le hrec)
        · omega
      · refine .inl ⟨u, ?_, hle⟩
        rw [lookup_erase_eq, if_neg hid, hu]
    | refused | verified | outOfDate | current | arrived | projected | failed | mirrored
    | mirrorFailed => exact .inl ⟨u, hu, hle⟩
  · exact .inr (hlt.trans_le h.clock_le)

/-- So an event is recorded again only then. -/
theorem Retention.recorded_later {j : ℕ}
    {ev : Event} {v : ℤ} (hj : s.deliveries[j]? = some y) (htk : y.stage.holds = some tk)
    (hi : s.deliveries[i]? = some ⟨req, .verified ev v⟩) (hnow : s.clock ≤ now)
    (hnew : ∀ u, s.seen.lookup ev.id = some u → u < now) :
    (tk.ev.id = ev.id → tk.recordedAt + 2 * window < now) ∧
      (y.req = req → v ≤ tk.recordedAt + 2 * window ∧ tk.recordedAt + 2 * window < now) := by
  have hout : tk.ev.id = ev.id → tk.recordedAt + 2 * window < now := fun hid =>
    hs.run_out (mem_of_getElem? hj) htk hnow fun u hu => hnew u (hid ▸ hu)
  refine ⟨hout, fun hreq => ?_⟩
  -- one request decodes to one event, and is accepted within twice the window
  have hev : tk.ev = ev := by
    have hy := ((hs.sound y (mem_of_getElem? hj)).1 _ (event_of_holds htk)).1
    rw [hreq] at hy
    exact some.inj (hy.symm.trans ((hs.sound _ (mem_of_getElem? hi)).1 _ rfl).1)
  obtain ⟨hv, -⟩ := (hs.timed _ (mem_of_getElem? hi)).1 v rfl
  obtain ⟨hv', hle, -⟩ := (hs.timed y (mem_of_getElem? hj)).2 tk htk
  rw [hreq] at hv'
  have hwin := verify_verify hv' hv
  exact ⟨by omega, hout (congrArg Event.id hev)⟩

/-- Every step keeps tickets of one id apart. -/
theorem Retention.apart_step (h : Step cfg s l s') :
    ∀ (i j : ℕ) (x y : Delivery) (tk tk' : Ticket), s'.deliveries[i]? = some x →
      s'.deliveries[j]? = some y → i ≠ j → x.stage.holds = some tk → y.stage.holds = some tk' →
        tk.ev.id = tk'.ev.id → tk.recordedAt + 2 * window < tk'.recordedAt ∨
            tk'.recordedAt + 2 * window < tk.recordedAt := by
  intro i j x y tk tk' hi hj hij htk htk' hid
  rcases h.holds_back hi htk with ⟨x0, hi0, -, hx0⟩ | ⟨now, ev, v, hl, hi0, rfl, hnow, -, hnew, -⟩
  · rcases h.holds_back hj htk' with ⟨y0, hj0, -, hy0⟩ | ⟨now, ev, v, -, hj0, rfl, hnow, -, hnew, -⟩
    · exact hs.apart i j x0 y0 tk tk' hi0 hj0 hij hx0 hy0 hid
    · exact .inl ((hs.recorded_later hi0 hx0 hj0 hnow hnew).1 hid)
  · rcases h.holds_back hj htk' with ⟨y0, hj0, -, hy0⟩ | ⟨now', -, -, hl', -⟩
    · exact .inr ((hs.recorded_later hj0 hy0 hi0 hnow hnew).1 hid.symm)
    · exact absurd (by rw [hl] at hl'; injection hl') hij

/-- And each request recorded once. -/
theorem Retention.once_step (hc : RecordsHold s l) (h : Step cfg s l s') :
    ∀ (i j : ℕ) (x y : Delivery) (tk tk' : Ticket), s'.deliveries[i]? = some x →
      s'.deliveries[j]? = some y → i ≠ j → x.stage.holds = some tk → y.stage.holds = some tk' →
        x.req ≠ y.req := by
  -- the condition excludes that a delivery records the id of a request another one holds
  have hnew : ∀ {i j : ℕ} {x0 y : Delivery} {tk : Ticket} {now v : ℤ} {ev : Event},
      l = .first j now → s.deliveries[j]? = some ⟨y.req, .verified ev v⟩ → s.clock ≤ now →
        (∀ u, s.seen.lookup ev.id = some u → u < now) → s.deliveries[i]? = some x0 →
          x0.stage.holds = some tk → x0.req ≠ y.req := by
    intro i j x0 y tk now v ev hl hj hnow hnew hi hx0 hreq
    subst hl
    exact hc _ hj v rfl x0 (mem_of_getElem? hi) tk hx0 hreq
      ((hs.recorded_later hi hx0 hj hnow hnew).2 hreq)
  intro i j x y tk tk' hi hj hij htk htk'
  rcases h.holds_back hi htk with ⟨x0, hi0, hx, hx0⟩ | ⟨now, ev, v, hl, hi0, -, hnow, -, hrec, -⟩
  · rcases h.holds_back hj htk' with ⟨y0, hj0, hy, hy0⟩ | ⟨now, ev, v, hl, hj0, -, hnow, -, hrec, -⟩
    · rw [← hx, ← hy]
      exact hs.once i j x0 y0 tk tk' hi0 hj0 hij hx0 hy0
    · rw [← hx]
      exact hnew hl hj0 hnow hrec hi0 hx0
  · rcases h.holds_back hj htk' with ⟨y0, hj0, hy, hy0⟩ | ⟨now', -, -, hl', -⟩
    · rw [← hy]
      exact (hnew hl hi0 hnow hrec hj0 hy0).symm
    · exact absurd (by rw [hl] at hl'; injection hl') hij

end

/-- An answered delivery is left alone. -/
theorem Step.answered (h : Step cfg s l s') (hi : s.deliveries[i]? = some x)
    (hx : x.stage.running = false) : s'.deliveries[i]? = some x := by
  rcases h.moved with ⟨req, -, heq⟩ | ⟨d, req, st, st', hd, hrun, heq⟩
  · rw [heq, List.getElem?_append_left (List.getElem?_eq_some_iff.1 hi).1, hi]
  · have hid : i ≠ d := by
      rintro rfl
      rw [hd] at hi
      cases hi
      rw [hrun] at hx
      cases hx
    rw [heq, getElem?_set_of_some hd, if_neg hid, hi]

theorem Retention.done_step (hs : Retention cfg s) (h : Step cfg s l s') :
    ∀ req, .done req ∈ s'.log → ∃ (i : ℕ) (tk : Ticket),
      s'.deliveries[i]? = some ⟨req, .answered (.applied tk)⟩ := by
  intro req hreq
  have hold : .done req ∈ s.log → ∃ (i : ℕ) (tk : Ticket),
      s'.deliveries[i]? = some ⟨req, .answered (.applied tk)⟩ := by
    intro hmem
    obtain ⟨i, tk, hi⟩ := hs.done req hmem
    exact ⟨i, tk, h.answered hi rfl⟩
  cases h with
  | @projected d req' tk _ c hd _ =>
    rcases mem_append.1 hreq with hreq | hreq
    · exact hold hreq
    · obtain ⟨-, heq⟩ | ⟨hst, heq⟩ := afterProjection_cases cfg req' tk
      · rw [heq] at hreq
        cases mem_singleton.1 hreq
      · rw [heq] at hreq
        obtain rfl : req = req' := by simpa using hreq
        exact ⟨d, tk, by rw [getElem?_set_of_some hd, if_pos rfl, hst]⟩
  | @mirrored d req' tk hd =>
    rcases mem_append.1 hreq with hreq | hreq
    · exact hold hreq
    · obtain rfl : req = req' := by injection mem_singleton.1 hreq
      exact ⟨d, tk, by rw [getElem?_set_of_some hd, if_pos rfl]⟩
  | duplicate | outOfDate =>
    rcases mem_append.1 hreq with hreq | hreq
    · exact hold hreq
    · cases mem_singleton.1 hreq
  | arrived | refused | verified | recorded | current | failed | mirrorFailed | forgotten =>
    exact hold hreq

/-- Nothing is applied after its delivery is done. -/
theorem Retention.order_step (hs : Retention cfg s) (h : Step cfg s l s') :
    s'.log.Pairwise fun a b => ∀ req ev, ¬(a = .done req ∧ b = .applied req ev) := by
  -- an entry that applies nothing may follow any other
  have hother : ∀ e : Entry, (∀ req ev, e ≠ .applied req ev) →
      (s.log ++ [e]).Pairwise fun a b => ∀ req ev, ¬(a = .done req ∧ b = .applied req ev) := by
    intro e he
    refine pairwise_append.2 ⟨hs.order, pairwise_singleton _ _, fun a _ b hb req ev h => ?_⟩
    exact he req ev ((mem_singleton.1 hb).symm.trans h.2)
  cases h with
  | @projected d req tk _ c hd _ =>
    have hnot : ∀ a ∈ s.log, ∀ r ev, ¬(a = .done r ∧ Entry.applied req tk.ev = .applied r ev) := by
      rintro a ha r ev ⟨rfl, heq⟩
      obtain rfl : req = r := by injection heq
      obtain ⟨i, tk', hi⟩ := hs.done req ha
      have hid : i ≠ d := by
        rintro rfl
        rw [hd] at hi
        cases hi
      exact hs.once i d _ _ tk' tk hi hd hid rfl rfl rfl
    obtain ⟨-, heq⟩ | ⟨-, heq⟩ := afterProjection_cases cfg req tk
    · rw [heq]
      refine pairwise_append.2 ⟨hs.order, pairwise_singleton _ _, fun a ha b hb => ?_⟩
      rw [mem_singleton.1 hb]
      exact hnot a ha
    · rw [heq]
      refine pairwise_append.2 ⟨hs.order, by simp, fun a ha b hb => ?_⟩
      rcases mem_cons.1 hb with rfl | hb
      · exact hnot a ha
      · rw [mem_singleton.1 hb]
        exact fun _ _ hab => by cases hab.2
  | duplicate | outOfDate | mirrored => exact hother _ nofun
  | arrived | refused | verified | recorded | current | failed | mirrorFailed | forgotten =>
    exact hs.order

/-- **A step that meets the condition keeps the records.** -/
theorem retention_step (hs : Retention cfg s) (hc : RecordsHold s l) (h : Step cfg s l s') :
    Retention cfg s' where
  sound := sound_step hs.sound h
  timed := timed_step hs.timed h
  remembered := by
    intro x hx tk htk
    obtain ⟨i, hi⟩ := mem_iff_getElem?.1 hx
    rcases h.holds_back hi htk with ⟨x0, hi0, -, hx0⟩ | ⟨now, ev, v, -, -, rfl, -, -, -, hseen⟩
    · refine hs.remembers_step hc h hi0 hx0 fun x' hi' => ?_
      obtain rfl : x = x' := some.inj (hi.symm.trans hi')
      exact htk
    · exact .inl ⟨_, hseen, le_refl _⟩
  apart := hs.apart_step h
  once := hs.once_step hc h
  done := hs.done_step h
  order := hs.order_step h

theorem retention_initial (cfg : Config Key) (store : Store) (clock : ℤ) :
    Retention cfg (initial store clock) where
  sound _ hx := by cases hx
  timed _ hx := by cases hx
  remembered _ hx := by cases hx
  apart _ _ _ _ _ _ hi := by cases hi
  once _ _ _ _ _ _ hi := by cases hi
  done _ hreq := by cases hreq
  order := List.Pairwise.nil

/-- **A captured request is not applied twice.**  In every interleaving of
deliveries under a clock that does not go back, in which no record runs out
between the two readings of a delivery of the same request and no delivery
forgets a record that is not its own, the projection applies nothing of a request
once a delivery of that request was answered as applied. -/
theorem no_replay {store : Store} {clock : ℤ} {ls : List Label}
    (hm : Meets (step cfg) RecordsHold (initial store clock) ls)
    (hr : run (step cfg) (initial store clock) ls = some s) :
    s.log.Pairwise fun a b => ∀ req ev, ¬(a = .done req ∧ b = .applied req ev) :=
  (invariant (fun _ _ _ hs hc h => retention_step hs hc (step_cases h))
    (retention_initial cfg store clock) hm hr).order

/-- A replay at the last moment of the window, with both readings at that
moment. -/
theorem no_replay_edge : ∃ s, run (step (listener [joined] false)) (initial Store.empty (-window))
        [.arrive (sent 0), .verify 0 (-window), .first 0 (-window), .newest 0 (-window),
          .apply 0 (.read .answered), .arrive (sent 0), .verify 1 window, .first 1 window] = some s ∧
      s.log = [.applied (sent 0) joined, .done (sent 0), .acked joined] ∧
      s.log.Pairwise fun a b => ∀ req ev, ¬(a = .done req ∧ b = .applied req ev) :=
  ⟨_, (some_get (by decide)).symm, by decide, no_replay (by decide) (some_get (by decide)).symm⟩

/-- **A replay is applied.**  The request is first delivered at the first moment
of its window.  It is replayed at the last: `verify` accepts it, and a nanosecond
later `first` finds the id forgotten. -/
theorem replayed_between_readings :
    ∃ s, run (step (listener [joined] false)) (initial Store.empty (-window))
        [.arrive (sent 0), .verify 0 (-window), .first 0 (-window), .newest 0 (-window),
          .apply 0 (.read .answered), .arrive (sent 0), .verify 1 window, .first 1 (window + 1),
          .newest 1 (window + 1), .apply 1 (.read .answered)] = some s ∧
      s.log = [.applied (sent 0) joined, .done (sent 0), .applied (sent 0) joined,
        .done (sent 0)] :=
  ⟨_, (some_get (by decide)).symm, by decide⟩

end Gentian.Membership
