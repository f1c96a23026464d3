/-
# The plan intervals of a usage report

`BuildReport` and `buildIntervals` of `internal/usage/report.go`, over the queries `PlanEvents`,
`LastPlanBefore` and `Samples` of `internal/usage/store.go`.  The plan a window opens on comes
from the last event before it, from the first event in it, or from a sample in a window without
events.

An interval that opens with a plan change at the window's start is marked as clipped by the
window, and so is one that ends with a change at its end; and where recording began within the
window, the plan of a later sample is given for the time before (`report_misstates`).  Apart from
that a report says which plan was in force when (`report_states_plans`).
-/

import Gentian.Base.GoStrings

namespace Gentian.Usage

open GoErrors List

/-! ### The store -/

/-- `PlanEvent`, without its actor.  Times are in nanoseconds. -/
structure PlanEvent where
  occurredAt : ℤ
  fromPlan : String
  toPlan : String
  productSku : String
deriving DecidableEq

/-- `Sample`, without the quantities it observed. -/
structure Sample where
  observedAt : ℤ
  plan : String
  productSku : String
deriving DecidableEq

/-- The queries of a report. -/
inductive Query where
  | planEvents
  | lastPlanBefore
  | samples
deriving DecidableEq

/-- The two tables of a tenant's `Store` in the order of their keys, and the queries that fail. -/
structure Store where
  events : List PlanEvent
  samples : List Sample
  failure : Query → Option String

/-- What a query answers, unless it fails. -/
def Store.answer {α : Type} (s : Store) (q : Query) (rows : α) : Except String α :=
  match s.failure q with
  | some e => .error e
  | none => .ok rows

/-- `time.Time.Sub`, which stays within an `int64`. -/
def sub (t u : ℤ) : ℤ := max (-2 ^ 63) (min (2 ^ 63 - 1) (t - u))

/-- A second, in nanoseconds. -/
def second : ℤ := 1000000000

/-- The integer nearest to a number, the even one of two. -/
def nearestEven (x : ℚ) : ℤ :=
  if Int.fract x < 1 / 2 ∨ Int.fract x = 1 / 2 ∧ ⌊x⌋ % 2 = 0 then ⌊x⌋ else ⌊x⌋ + 1

/-- The `float64` nearest to a number, of 53 binary digits.  Numbers too large or too small for
one do not occur. -/
def float64 (x : ℚ) : ℚ :=
  let ulp : ℚ := 2 ^ (Int.log 2 |x| - 52)
  nearestEven (x / ulp) * ulp

/-- `Duration.Seconds`: the whole seconds and the rest are converted and added. -/
def durationSeconds (d : ℤ) : ℚ :=
  float64 (float64 (d.tdiv second) + float64 (float64 (d.tmod second) / second))

/-- The conversion of a `float64` to an `int64`. -/
def truncated (x : ℚ) : ℤ := x.num.tdiv x.den

/-- `Store.PlanEvents`: the events in `[lo, hi)`, oldest first. -/
def Store.planEvents (s : Store) (lo hi : ℤ) : Except String (List PlanEvent) :=
  s.answer .planEvents (s.events.filter fun e => lo ≤ e.occurredAt ∧ e.occurredAt < hi)

/-- `LastPlanBefore`. -/
def Store.lastPlanBefore (s : Store) (t : ℤ) : Except String (Option PlanEvent) :=
  s.answer .lastPlanBefore (s.events.filter fun e => e.occurredAt < t).getLast?

/-- The newest sample of each bucket, of samples that are oldest first. -/
def thinned (step : ℤ) : List Sample → List Sample
  | [] => []
  | [x] => [x]
  | x :: y :: rest =>
    if x.observedAt / step = y.observedAt / step then thinned step (y :: rest)
    else x :: thinned step (y :: rest)

/-- `Store.Samples`: the samples in `[lo, hi)`, at most one a step. -/
def Store.samplesIn (s : Store) (lo hi step : ℤ) : Except String (List Sample) :=
  s.answer .samples (thinned (if step ≤ 0 then 60 * second else step)
    (s.samples.filter fun x => lo ≤ x.observedAt ∧ x.observedAt < hi))

/-! ### The report -/

/-- A time in which one plan was in force. -/
structure PlanInterval where
  plan : String
  productSku : String
  fromTime : ℤ
  toTime : ℤ
  seconds : ℤ
  isPartial : Bool
deriving DecidableEq

/-- `Report`. -/
structure Report where
  tenant : String
  fromTime : ℤ
  toTime : ℤ
  intervals : List PlanInterval
  incomplete : Bool
deriving DecidableEq

/-- An interval with its seconds. -/
def interval (plan sku : String) (lo hi : ℤ) (isPartial : Bool) : PlanInterval :=
  ⟨plan, sku, lo, hi, truncated (durationSeconds (sub hi lo)), isPartial⟩

/-- The variables of the loop in `buildIntervals`. -/
structure Standing where
  current : String
  currentSku : String
  known : Bool
  cursor : ℤ
deriving DecidableEq

/-- The loop of `buildIntervals` over the events that are left, and what follows it. -/
def intervalsFrom (lo hi : ℤ) : List PlanEvent → Standing → List PlanInterval × Bool
  | [], s =>
    (if s.known ∧ s.cursor < hi then [interval s.current s.currentSku s.cursor hi true] else [],
      !s.known)
  | e :: events, s =>
    if e.occurredAt < s.cursor ∨ hi < e.occurredAt then intervalsFrom lo hi events s
    else
      let rest := intervalsFrom lo hi events ⟨e.toPlan, e.productSku, true, e.occurredAt⟩
      if s.known ∧ s.cursor < e.occurredAt then
        (interval s.current s.currentSku s.cursor e.occurredAt (s.cursor = lo) :: rest.1, rest.2)
      else if !s.known ∧ e.fromPlan ≠ "" ∧ s.cursor < e.occurredAt then
        -- the event names what it moved away from
        (interval e.fromPlan "" s.cursor e.occurredAt true :: rest.1, rest.2)
      else rest

/-- `buildIntervals`, with the plan the window opens on where it is known. -/
def buildIntervals (events : List PlanEvent) (opening : Option (String × String)) (lo hi : ℤ) :
    List PlanInterval × Bool :=
  match opening with
  | some (plan, sku) => intervalsFrom lo hi events ⟨plan, sku, true, lo⟩
  | none => intervalsFrom lo hi events ⟨"", "", false, lo⟩

/-- The plan a window opens on by its samples, when no event says it. -/
def openingOfSamples (events : List PlanEvent) : List Sample → Option (String × String)
  | [] => none
  | x :: _ => if x.plan ≠ "" ∧ events = [] then some (x.plan, x.productSku) else none

/-- The plan a window opens on, as far as the store says it. -/
def Store.opening (s : Store) (events : List PlanEvent) (lo hi : ℤ) :
    Except String (Option (String × String)) := do
  match ← s.lastPlanBefore lo with
  | some prior => .ok (some (prior.toPlan, prior.productSku))
  | none => do
    let samples ← s.samplesIn lo hi (sub hi lo)
    .ok (openingOfSamples events samples)

/-- `BuildReport`. -/
def buildReport (s : Store) (tenant : String) (lo hi : ℤ) : Except String Report :=
  if ¬lo < hi then .ok ⟨tenant, lo, hi, [], false⟩
  else do
    let events ← s.planEvents lo hi
    let opening ← s.opening events lo hi
    let built := buildIntervals events opening lo hi
    .ok ⟨tenant, lo, hi, built.1, built.2⟩

/-! ### What happened -/

/-- The plan after some changes of a plan. -/
def planAfter : String → List PlanEvent → String
  | plan, [] => plan
  | _, e :: events => planAfter e.toPlan events

/-- Each change moves away from the plan in force before it. -/
def Chained : String → List PlanEvent → Prop
  | _, [] => True
  | plan, e :: events => e.fromPlan = plan ∧ Chained e.toPlan events

instance Chained.decidable : ∀ plan events, Decidable (Chained plan events)
  | _, [] => inferInstanceAs (Decidable True)
  | _, e :: events =>
    have := Chained.decidable e.toPlan events
    inferInstanceAs (Decidable (_ ∧ _))

/-- A plan history: the plan before its first change, or the empty name for none, and the
changes, whose times increase. -/
structure History where
  initial : String
  changes : List PlanEvent
  increasing : changes.Pairwise fun e f => e.occurredAt < f.occurredAt
  chained : Chained initial changes

/-- The plan in force at a time, after these changes. -/
def inForceOf (initial : String) (changes : List PlanEvent) (t : ℤ) : String :=
  planAfter initial (changes.filter fun e => e.occurredAt ≤ t)

/-- The plan in force at a time. -/
def History.inForce (h : History) (t : ℤ) : String := inForceOf h.initial h.changes t

/-- The store holds the changes of the history, all of them or those from some time on, and
each sample has the plan in force at its time. -/
structure History.RecordedIn (h : History) (s : Store) : Prop where
  events : s.events <:+ h.changes
  samples : ∀ x ∈ s.samples, x.plan = h.inForce x.observedAt

/-- The plan was changed at a time. -/
def History.changesAt (h : History) (t : ℤ) : Prop := ∃ e ∈ h.changes, e.occurredAt = t
deriving Decidable

/-- A time that lies in an interval of the report. -/
def Report.covers (r : Report) (t : ℤ) : Prop := ∃ i ∈ r.intervals, i.fromTime ≤ t ∧ t < i.toTime

/-- **A report states which plan was in force when.** -/
structure Report.States (r : Report) (h : History) : Prop where
  nonempty : ∀ i ∈ r.intervals, i.fromTime < i.toTime
  adjacent : r.intervals.IsChain fun i j => i.toTime = j.fromTime
  last : ∀ i ∈ r.intervals.getLast?, i.toTime = r.toTime
  plan : ∀ i ∈ r.intervals, ∀ t, i.fromTime ≤ t → t < i.toTime → h.inForce t = i.plan
  uncovered_before : ∀ t u, r.fromTime ≤ t → t ≤ u → u < r.toTime → r.covers t → r.covers u
  uncovered : ∀ t, r.fromTime ≤ t → t < r.toTime → ¬r.covers t →
    h.inForce t = "" ∨ r.incomplete = true
  clipped : ∀ i ∈ r.intervals, i.isPartial = true ↔
    (i.fromTime = r.fromTime ∧ ¬h.changesAt r.fromTime) ∨
      (i.toTime = r.toTime ∧ ¬h.changesAt r.toTime)

/-! ### The loop -/

/-- From `c` to `hi` the plan in force is what the events make of `p`. -/
def Follows (plan : ℤ → String) (hi : ℤ) : ℤ → String → List PlanEvent → Prop
  | c, p, [] => c < hi ∧ ∀ t, c ≤ t → t < hi → plan t = p
  | c, p, e :: events => c ≤ e.occurredAt ∧ e.fromPlan = p ∧
      (∀ t, c ≤ t → t < e.occurredAt → plan t = p) ∧ Follows plan hi e.occurredAt e.toPlan events

/-- The intervals reach from `c` to `hi` without a gap, and each is as `ok` says. -/
def Cover (ok : PlanInterval → Prop) (hi : ℤ) : ℤ → List PlanInterval → Prop
  | c, [] => c = hi
  | c, i :: is => i.fromTime = c ∧ i.fromTime < i.toTime ∧ ok i ∧ Cover ok hi i.toTime is

/-- An interval of a window with these events says what was in force. -/
structure Tells (plan : ℤ → String) (lo hi : ℤ) (events : List PlanEvent) (i : PlanInterval) :
    Prop where
  plan : ∀ t, i.fromTime ≤ t → t < i.toTime → plan t = i.plan
  start : i.fromTime = lo ∨ ∃ e ∈ events, e.occurredAt = i.fromTime
  stop : i.toTime = hi ∨ ∃ e ∈ events, e.occurredAt = i.toTime
  clipped : i.isPartial = true ↔ i.fromTime = lo ∨ i.toTime = hi

variable {plan plan' : ℤ → String} {lo hi c t : ℤ} {p : String} {events window : List PlanEvent}
  {e : PlanEvent} {is : List PlanInterval} {i : PlanInterval} {ok : PlanInterval → Prop}

/-- What is followed begins before the window ends. -/
theorem Follows.lt (h : Follows plan hi c p events) : c < hi := by
  induction events generalizing c p with
  | nil => exact h.1
  | cons e events ih => exact h.1.trans_lt (ih h.2.2.2)

/-- Only what is in force from the time on matters. -/
theorem Follows.congr (h : Follows plan hi c p events) (hc : ∀ t, c ≤ t → plan t = plan' t) :
    Follows plan' hi c p events := by
  induction events generalizing c p with
  | nil => exact ⟨h.1, fun t h1 h2 => (hc t h1).symm.trans (h.2 t h1 h2)⟩
  | cons e events ih =>
    obtain ⟨hle, hfrom, hplan, hrest⟩ := h
    exact ⟨hle, hfrom, fun t h1 h2 => (hc t h1).symm.trans (hplan t h1 h2),
      ih hrest fun t ht => hc t (hle.trans ht)⟩

/-- **The loop, from a plan that is known**, gives intervals without a gap from its cursor to
the window's end. -/
theorem intervalsFrom_known {k : String} (hlo : lo ≤ c) (h : Follows plan hi c p events)
    (hw : ∀ e ∈ events, e ∈ window) (hc : c = lo ∨ ∃ e ∈ window, e.occurredAt = c) :
    Cover (Tells plan lo hi window) hi c (intervalsFrom lo hi events ⟨p, k, true, c⟩).1 ∧
      (intervalsFrom lo hi events ⟨p, k, true, c⟩).2 = false := by
  induction events generalizing c p k with
  | nil =>
    obtain ⟨hlt, hplan⟩ := h
    simp only [intervalsFrom, hlt]
    exact ⟨⟨rfl, hlt, ⟨hplan, hc, .inl rfl, by simp [interval]⟩, rfl⟩, rfl⟩
  | cons e events ih =>
    obtain ⟨hle, -, hplan, hrest⟩ := h
    have hhi : e.occurredAt < hi := hrest.lt
    have he := hw e mem_cons_self
    have hin : ¬(e.occurredAt < c ∨ hi < e.occurredAt) := by omega
    obtain ⟨hcover, hknown⟩ := ih (hlo.trans hle) hrest
      (fun f hf => hw f (mem_cons_of_mem e hf)) (.inr ⟨e, he, rfl⟩)
    simp only [intervalsFrom, hin, if_false]
    rcases hle.lt_or_eq with hlt | heq
    · rw [if_pos ⟨trivial, hlt⟩]
      refine ⟨⟨rfl, hlt, ⟨hplan, hc, .inr ⟨e, he, rfl⟩, ?_⟩, hcover⟩, hknown⟩
      simp [interval, hhi.ne]
    · rw [if_neg fun h => h.2.ne heq]
      exact ⟨heq ▸ hcover, hknown⟩

/-- **The loop, from a plan that is not known**, over the events of a window that has some:
the time before its intervals is one without a plan. -/
theorem intervalsFrom_unknown (h : Follows plan hi lo p (e :: events)) :
    ∃ c, lo ≤ c ∧ c < hi ∧ (∀ t, lo ≤ t → t < c → plan t = "") ∧
      Cover (Tells plan lo hi (e :: events)) hi c
        (intervalsFrom lo hi (e :: events) ⟨"", "", false, lo⟩).1 ∧
      (intervalsFrom lo hi (e :: events) ⟨"", "", false, lo⟩).2 = false := by
  obtain ⟨hle, hfrom, hplan, hrest⟩ := h
  have hhi : e.occurredAt < hi := hrest.lt
  have hin : ¬(e.occurredAt < lo ∨ hi < e.occurredAt) := by omega
  have hself : ∃ f ∈ e :: events, f.occurredAt = e.occurredAt := ⟨e, mem_cons_self, rfl⟩
  obtain ⟨hcover, hknown⟩ := intervalsFrom_known hle hrest
    (fun f hf => mem_cons_of_mem e hf) (.inr hself)
  simp only [intervalsFrom, if_false, Bool.false_eq_true, false_and, Bool.not_false, true_and]
  split_ifs with hopen
  · refine ⟨lo, le_rfl, hrest.lt.trans_le' hle, fun t h1 h2 => absurd h2 h1.not_gt, ?_, hknown⟩
    refine ⟨rfl, hopen.2, ⟨?_, .inl rfl, .inr hself, by simp [interval]⟩, hcover⟩
    exact fun t h1 h2 => (hplan t h1 h2).trans hfrom.symm
  · refine ⟨e.occurredAt, hle, hhi, fun t h1 h2 => ?_, hcover, hknown⟩
    have hnone : e.fromPlan = "" := by
      by_contra hne
      exact hopen ⟨hne, h1.trans_lt h2⟩
    exact (hplan t h1 h2).trans (hfrom.symm.trans hnone)

/-! ### Intervals without a gap -/

section

variable (h : Cover ok hi c is)

include h

/-- An interval of a cover begins no earlier than the cover and is not empty. -/
theorem Cover.mem (hi' : i ∈ is) :
    c ≤ i.fromTime ∧ i.fromTime < i.toTime ∧ ok i := by
  induction is generalizing c with
  | nil => cases hi'
  | cons j is ih =>
    obtain ⟨rfl, hlt, hok, hrest⟩ := h
    rcases mem_cons.1 hi' with rfl | hmem
    · exact ⟨le_rfl, hlt, hok⟩
    · obtain ⟨hle, hrest'⟩ := ih hrest hmem
      exact ⟨hlt.le.trans hle, hrest'⟩

/-- Each begins where the one before ends. -/
theorem Cover.isChain : is.IsChain fun i j => i.toTime = j.fromTime := by
  induction is generalizing c with
  | nil => exact .nil
  | cons i is ih =>
    obtain ⟨-, -, -, hrest⟩ := h
    refine isChain_cons.2 ⟨fun j hj => ?_, ih hrest⟩
    cases is with
    | nil => cases hj
    | cons k is =>
      cases hj
      exact hrest.1.symm

/-- The last ends with the window. -/
theorem Cover.last : ∀ i ∈ is.getLast?, i.toTime = hi := by
  induction is generalizing c with
  | nil => simp
  | cons i is ih =>
    obtain ⟨-, -, -, hrest⟩ := h
    cases is with
    | nil => simpa [Cover] using hrest
    | cons j is =>
      exact ih hrest

/-- Every time of the window is in one. -/
theorem Cover.covers (hc : c ≤ t) (ht : t < hi) :
    ∃ i ∈ is, i.fromTime ≤ t ∧ t < i.toTime := by
  induction is generalizing c with
  | nil => exact absurd (h ▸ hc) ht.not_ge
  | cons i is ih =>
    obtain ⟨rfl, -, -, hrest⟩ := h
    by_cases hin : t < i.toTime
    · exact ⟨i, mem_cons_self, hc, hin⟩
    · obtain ⟨j, hj, hjt⟩ := ih hrest (not_lt.1 hin)
      exact ⟨j, mem_cons_of_mem i hj, hjt⟩

end

/-! ### The window and the history -/

variable {changes : List PlanEvent} {initial : String}

theorem inForceOf_before (h : ∀ e ∈ changes, t < e.occurredAt) :
    inForceOf initial changes t = initial := by
  have hnone : changes.filter (fun e => e.occurredAt ≤ t) = [] :=
    filter_eq_nil_iff.2 fun e he => by simpa using h e he
  rw [inForceOf, hnone, planAfter]

/-- A change that is past has its plan in force. -/
theorem inForceOf_cons (h : e.occurredAt ≤ t) :
    inForceOf initial (e :: changes) t = inForceOf e.toPlan changes t := by
  rw [inForceOf, filter_cons_of_pos (by simpa using h), planAfter, inForceOf]

/-- The plan in force in a window follows from the plan at its start and the changes in it. -/
theorem follows_window (hlt : lo < hi)
    (hinc : changes.Pairwise fun e f => e.occurredAt < f.occurredAt)
    (hch : Chained initial changes) : Follows (inForceOf initial changes) hi lo
      (planAfter initial (changes.filter fun e => e.occurredAt < lo))
      (changes.filter fun e => lo ≤ e.occurredAt ∧ e.occurredAt < hi) := by
  induction changes generalizing initial lo with
  | nil => exact ⟨hlt, fun t _ _ => rfl⟩
  | cons e changes ih =>
    obtain ⟨hafter, hinc'⟩ := pairwise_cons.1 hinc
    have hlater : ∀ t, t ≤ e.occurredAt → ∀ f ∈ changes, t < f.occurredAt :=
      fun t ht f hf => ht.trans_lt (hafter f hf)
    by_cases hbefore : e.occurredAt < lo
    · rw [filter_cons_of_pos (by simpa using hbefore), filter_cons_of_neg (by simp [hbefore])]
      refine (ih hlt hinc' hch.2).congr fun t ht => ?_
      exact (inForceOf_cons (hbefore.le.trans ht)).symm
    · have hno : (e :: changes).filter (fun f => f.occurredAt < lo) = [] := by
        refine filter_eq_nil_iff.2 fun f hf => ?_
        rcases mem_cons.1 hf with rfl | hmem
        · simpa using hbefore
        · simpa using (hlater lo (not_lt.1 hbefore) f hmem).le
      have hopen : ∀ t, t < e.occurredAt → inForceOf initial (e :: changes) t = initial :=
        fun t ht => inForceOf_before fun f hf => by
          rcases mem_cons.1 hf with rfl | hmem
          · exact ht
          · exact hlater t ht.le f hmem
      rw [hno]
      by_cases hin : e.occurredAt < hi
      · rw [filter_cons_of_pos (by simp [not_lt.1 hbefore, hin])]
        refine ⟨not_lt.1 hbefore, hch.1, fun t _ ht => hopen t ht, ?_⟩
        have hrest := ih hin hinc' hch.2
        have hnone : changes.filter (fun f => f.occurredAt < e.occurredAt) = [] :=
          filter_eq_nil_iff.2 fun f hf => by simpa using (hafter f hf).le
        have hsame : changes.filter (fun f => e.occurredAt ≤ f.occurredAt ∧ f.occurredAt < hi) =
            changes.filter fun f => lo ≤ f.occurredAt ∧ f.occurredAt < hi := by
          refine filter_congr fun f hf => ?_
          have := hafter f hf
          rw [decide_eq_decide]
          omega
        rw [hnone, hsame] at hrest
        exact hrest.congr fun t ht => (inForceOf_cons ht).symm
      · have hnone : (e :: changes).filter
            (fun f => lo ≤ f.occurredAt ∧ f.occurredAt < hi) = [] := by
          refine filter_eq_nil_iff.2 fun f hf => ?_
          rcases mem_cons.1 hf with rfl | hmem
          · simp [hin]
          · have := hafter f hmem
            rw [decide_eq_true_eq]
            omega
        rw [hnone]
        exact ⟨hlt, fun t _ ht => hopen t (by omega)⟩

theorem planAfter_of_getLast? (h : changes.getLast? = some e) :
    planAfter initial changes = e.toPlan := by
  induction changes generalizing initial with
  | nil => cases h
  | cons f changes ih =>
    cases changes with
    | nil =>
      cases h
      rfl
    | cons g changes =>
      rw [planAfter]
      exact ih h

theorem mem_of_mem_thinned {step : ℤ} {samples : List Sample} {x : Sample}
    (h : x ∈ thinned step samples) : x ∈ samples := by
  fun_induction thinned step samples with
  | case1 => exact h
  | case2 y => exact h
  | case3 y z rest _ ih => exact mem_cons_of_mem y (ih h)
  | case4 y z rest _ ih =>
    rcases mem_cons.1 h with rfl | hmem
    · exact mem_cons_self
    · exact mem_cons_of_mem y (ih hmem)

/-! ### Reports -/

/-- Every change in the window is recorded, and one at an end of the window is the only one
from its start to its end. -/
structure History.Plain (h : History) (s : Store) (lo hi : ℤ) : Prop where
  recorded : ∀ e ∈ h.changes, lo ≤ e.occurredAt → e.occurredAt < hi → e ∈ s.events
  alone : ∀ e ∈ h.changes, e.occurredAt = lo ∨ e.occurredAt = hi →
    ∀ f ∈ h.changes, lo ≤ f.occurredAt → f.occurredAt ≤ hi → f = e

variable {h : History} {s : Store} {tenant : String} {r : Report}

theorem Store.answer_eq_ok {α : Type} {q : Query} {rows out : α} (h : s.answer q rows = .ok out) :
    out = rows := by
  unfold Store.answer at h
  split at h <;> cases h
  rfl

/-- The recorded events of the window are the changes in it. -/
theorem window_eq (hr : h.RecordedIn s) (hp : h.Plain s lo hi) :
    s.events.filter (fun e => lo ≤ e.occurredAt ∧ e.occurredAt < hi) =
      h.changes.filter fun e => lo ≤ e.occurredAt ∧ e.occurredAt < hi := by
  obtain ⟨old, hold⟩ := hr.events
  have hinc := hold ▸ h.increasing
  have hnone : old.filter (fun e => lo ≤ e.occurredAt ∧ e.occurredAt < hi) = [] := by
    refine filter_eq_nil_iff.2 fun e he hin => ?_
    rw [decide_eq_true_eq] at hin
    have hmem := hp.recorded e (hold ▸ mem_append_left _ he) hin.1 hin.2
    exact ((pairwise_append.1 hinc).2.2 e he e hmem).false
  rw [← hold, filter_append, hnone, nil_append]

variable {opening : Option (String × String)}

/-- What the store says of the plan at the start of a window is so. -/
theorem opening_spec (hr : h.RecordedIn s)
    (hf : Follows h.inForce hi lo (planAfter h.initial (h.changes.filter (·.occurredAt < lo)))
      window)
    (ho : s.opening window lo hi = .ok opening) : ∀ plan sku, opening = some (plan, sku) →
      plan = planAfter h.initial (h.changes.filter (·.occurredAt < lo)) := by
  rintro plan sku rfl
  obtain ⟨prior, hprior, ho⟩ := bind_eq_ok.1 ho
  have hprior := Store.answer_eq_ok hprior
  cases prior with
  | some e =>
    cases ho
    obtain ⟨old, hold⟩ := hr.events
    refine (planAfter_of_getLast? ?_).symm
    rw [← hold, filter_append, getLast?_append, ← hprior]
    rfl
  | none =>
    obtain ⟨samples, hs, ho⟩ := bind_eq_ok.1 ho
    have hs := Store.answer_eq_ok hs
    cases samples with
    | nil => cases ho
    | cons x _ =>
      rw [openingOfSamples] at ho
      split_ifs at ho with hx
      · cases ho
        obtain ⟨-, rfl⟩ := hx
        have hmem := mem_of_mem_thinned (hs ▸ mem_cons_self : x ∈ thinned _ _)
        rw [mem_filter, decide_eq_true_eq] at hmem
        rw [hr.samples x hmem.1]
        exact hf.2 _ hmem.2.1 hmem.2.2
      · cases ho

/-- The intervals of a report reach from some time to the window's end; before that time no
plan was in force, or the report is incomplete. -/
theorem buildIntervals_spec (hf : Follows plan hi lo p window)
    (ho : ∀ plan sku, opening = some (plan, sku) → plan = p) :
    ∃ c, lo ≤ c ∧ (∀ t, lo ≤ t → t < c → plan t = "" ∨ (buildIntervals window opening lo hi).2) ∧
      Cover (Tells plan lo hi window) hi c (buildIntervals window opening lo hi).1 := by
  cases opening with
  | some o =>
    obtain ⟨plan', sku⟩ := o
    obtain rfl := ho plan' sku rfl
    have hcover := intervalsFrom_known (k := sku) le_rfl hf (fun _ h => h) (.inl rfl)
    exact ⟨lo, le_rfl, fun t h1 h2 => absurd h2 h1.not_gt, hcover.1⟩
  | none =>
    cases window with
    | nil => exact ⟨hi, hf.1.le, fun t _ _ => .inr rfl, rfl⟩
    | cons e _ =>
      obtain ⟨c, hle, -, hnone, hcover, -⟩ := intervalsFrom_unknown hf
      exact ⟨c, hle, fun t h1 h2 => .inl (hnone t h1 h2), hcover⟩

/-- Where a change at an end of the window is the only one, the intervals clipped by the window
are those that have no change at an end of it. -/
theorem clipped_iff (hp : h.Plain s lo hi) (hlt : lo < hi)
    (hwin : ∀ e ∈ window, e ∈ h.changes ∧ lo ≤ e.occurredAt ∧ e.occurredAt < hi)
    (ht : Tells plan lo hi window i) (hlo : lo ≤ i.fromTime) (hne : i.fromTime < i.toTime) :
    i.isPartial ↔ (i.fromTime = lo ∧ ¬h.changesAt lo) ∨ (i.toTime = hi ∧ ¬h.changesAt hi) := by
  rw [ht.clipped]
  refine ⟨fun hends => ?_, fun hends => hends.imp And.left And.left⟩
  by_cases h1 : h.changesAt lo
  · obtain ⟨e, he, hat⟩ := h1
    have halone := hp.alone e he (.inl hat)
    refine .inr ⟨?_, fun ⟨f, hf, hfat⟩ => ?_⟩
    · refine ht.stop.resolve_right fun ⟨f, hf, hfat⟩ => ?_
      obtain ⟨hmem, h1, h2⟩ := hwin f hf
      have := halone f hmem h1 h2.le
      subst this
      omega
    · have := halone f hf (by omega) (by omega)
      subst this
      omega
  · by_cases h2 : h.changesAt hi
    · obtain ⟨e, he, hat⟩ := h2
      refine .inl ⟨ht.start.resolve_right fun ⟨f, hf, hfat⟩ => ?_, h1⟩
      obtain ⟨hmem, h3, h4⟩ := hwin f hf
      have := hp.alone e he (.inr hat) f hmem h3 h4.le
      subst this
      omega
    · exact hends.imp (⟨·, h1⟩) (⟨·, h2⟩)

/-- A tenant that moved to a small plan at 10 and to a large one at 30, with its store. -/
def grownHistory : History where
  initial := ""
  changes := [⟨10, "", "small", "s"⟩, ⟨30, "small", "large", "l"⟩]
  increasing := by decide
  chained := by decide

/-- The store that has its changes. -/
def grownStore : Store := ⟨grownHistory.changes, [], fun _ => none⟩

theorem grownHistory_recordedIn : grownHistory.RecordedIn grownStore :=
  ⟨suffix_rfl, by simp [grownStore]⟩

/-- The report on it. -/
def grownReport : Report := ⟨"acme", 20, 40,
  [⟨"small", "s", 20, 30, 0, true⟩, ⟨"large", "l", 30, 40, 0, true⟩], false⟩

/-- A tenant that moved from a small plan to a large one at 5, with a store that recorded only
what came later. -/
def lateHistory : History := ⟨"small", [⟨5, "small", "large", "l"⟩], by decide, by decide⟩

/-- A store with a sample and no change. -/
def lateStore : Store := ⟨[], [⟨8, "large", "l"⟩], fun _ => none⟩

/-- The seconds of the intervals of some plans. -/
def billedOf (q : String → Bool) (is : List PlanInterval) : ℤ :=
  ((is.filter fun i => q i.plan).map (·.seconds)).sum

/-- What a report bills for the plans of `q`. -/
def Store.billed (s : Store) (tenant : String) (q : String → Bool) (lo hi : ℤ) :
    Except String ℤ :=
  (buildReport s tenant lo hi).map fun r => billedOf q r.intervals

/-- A whole number is its own nearest. -/
theorem nearestEven_intCast (n : ℤ) : nearestEven n = n := by
  simp [nearestEven]

/-- A whole number of 53 digits is a `float64`. -/
theorem float64_natCast {n : ℕ} (h : n < 2 ^ 53) : float64 n = n := by
  have hle : Nat.log 2 n ≤ 52 := by
    rcases Nat.eq_zero_or_pos n with rfl | hpos
    · simp
    · exact Nat.lt_succ_iff.1 (Nat.log_lt_of_lt_pow hpos.ne' h)
  have hulp : (2 : ℚ) ^ (Int.log 2 |(n : ℚ)| - 52) = ((2 : ℚ) ^ (52 - Nat.log 2 n))⁻¹ := by
    rw [Nat.abs_cast, Int.log_natCast, ← zpow_natCast, ← zpow_neg]
    congr 1
    omega
  have hint : (n : ℚ) / ((2 : ℚ) ^ (52 - Nat.log 2 n))⁻¹ =
      ((n * 2 ^ (52 - Nat.log 2 n) : ℤ) : ℚ) := by
    rw [div_inv_eq_mul]
    push_cast
    rfl
  rw [float64, hulp, hint, nearestEven_intCast]
  push_cast
  field_simp

/-- **Whole seconds are billed as they are.** -/
theorem truncated_durationSeconds {k : ℤ} (h0 : 0 ≤ k) (h : k * second < 2 ^ 63) :
    truncated (durationSeconds (k * second)) = k := by
  obtain ⟨n, rfl⟩ := Int.eq_ofNat_of_zero_le h0
  have hn : n < 2 ^ 53 := by
    unfold second at h
    omega
  have hzero : float64 0 = 0 := by simpa using float64_natCast (n := 0) (by decide)
  have hdiv : ((n : ℤ) * second).tdiv second = n := Int.mul_tdiv_cancel _ (by decide)
  have hmod : ((n : ℤ) * second).tmod second = 0 := Int.mul_tmod_left _ _
  have hval : durationSeconds (n * second) = n := by
    rw [durationSeconds, hdiv, hmod, Int.cast_zero, hzero, zero_div, hzero, add_zero,
      Int.cast_natCast, float64_natCast hn, float64_natCast hn]
  rw [hval, truncated]
  simp

-- a `float64` has no room for so many seconds and nine decimal digits
example : truncated (durationSeconds (100000000 * second + 999999999)) = 100000001 := by
  decide +kernel

theorem seconds_of_mem {st : Standing} (h : i ∈ (intervalsFrom lo hi events st).1) :
    i.seconds = truncated (durationSeconds (sub i.toTime i.fromTime)) := by
  fun_induction intervalsFrom lo hi events st with
  | case1 st =>
    dsimp only at h
    split_ifs at h
    · cases mem_singleton.1 h
      rfl
    · cases h
  | case2 e events st _ ih | case5 e events st _ _ _ _ ih => exact ih h
  | case3 e events st _ _ _ ih | case4 e events st _ _ _ _ ih =>
    rcases mem_cons.1 h with rfl | hmem
    · rfl
    · exact ih hmem

/-- The number of whole seconds from `a` to `b` at which a plan of `q` is in force. -/
def secondsOf (plan : ℤ → String) (q : String → Bool) (a b : ℤ) : ℤ :=
  (range (b - a).toNat).countP fun k : ℕ => q (plan ((a + k) * second))

variable {q : String → Bool} {a m b : ℤ}

/-- Seconds of two parts add up. -/
theorem secondsOf_add (h1 : a ≤ m) (h2 : m ≤ b) :
    secondsOf plan q a b = secondsOf plan q a m + secondsOf plan q m b := by
  have hcut : (b - a).toNat = (m - a).toNat + (b - m).toNat := by omega
  have hshift : ∀ k : ℕ, a + ((m - a).toNat + k : ℕ) = m + k := by omega
  simp only [secondsOf, hcut, range_add, countP_append, countP_map, Int.natCast_add,
    Function.comp_def, ← hshift]

/-- All seconds count where one plan is in force. -/
theorem secondsOf_const (h : a ≤ b) (hp : ∀ k, a ≤ k → k < b → plan (k * second) = p) :
    secondsOf plan q a b = if q p then b - a else 0 := by
  have heq : secondsOf plan q a b = (range (b - a).toNat).countP fun _ => q p := by
    refine congrArg Int.ofNat (countP_congr fun k hk => ?_)
    rw [hp _ (by omega) (by have := mem_range.1 hk; omega)]
  rw [heq]
  split_ifs with hq <;> simp [hq, h]

/-- **Intervals between whole seconds bill the whole seconds at which their plans are in
force.** -/
theorem Cover.billedOf_eq (h : Cover (Tells plan lo hi window) (b * second) (a * second) is)
    (hs : ∀ i ∈ is, second ∣ i.toTime ∧ i.seconds * second = i.toTime - i.fromTime) :
    a ≤ b ∧ billedOf q is = secondsOf plan q a b := by
  unfold second at h hs
  induction is generalizing a with
  | nil =>
    obtain rfl : a = b := by
      rw [Cover] at h
      omega
    simp [billedOf, secondsOf]
  | cons i is ih =>
    obtain ⟨hfrom, hlt, htells, hrest⟩ := h
    obtain ⟨⟨m, hm⟩, hsec⟩ := hs i mem_cons_self
    rw [hm, Int.mul_comm _ m] at hrest
    obtain ⟨hle, hrest⟩ := ih hrest fun j hj => hs j (mem_cons_of_mem i hj)
    have hone : secondsOf plan q a m = if q i.plan then m - a else 0 := by
      refine secondsOf_const (by omega) fun k h1 h2 => htells.plan _ ?_ ?_ <;>
        unfold second <;> omega
    have ham : a ≤ m := by omega
    have hsec : i.seconds = m - a := by omega
    refine ⟨ham.trans hle, ?_⟩
    rw [secondsOf_add ham hle, hone, ← hrest, billedOf, filter_cons]
    split_ifs <;> simp [billedOf, hsec]

/-- The store answers with the history, which has a change before the window; the changes in
the window are at whole seconds, and a `Duration` holds its length. -/
structure WholeSeconds (h : History) (s : Store) (a b : ℤ) : Prop where
  recorded : s.events = h.changes
  answers : ∀ q, s.failure q = none
  prior : ∃ e ∈ h.changes, e.occurredAt < a * second
  whole : ∀ e ∈ h.changes, a * second ≤ e.occurredAt → e.occurredAt < b * second →
    second ∣ e.occurredAt
  short : (b - a) * second < 2 ^ 63

/-- **What is billed is the seconds in which the plan is in force.** -/
theorem WholeSeconds.billed_eq (hw : WholeSeconds h s a b) (hlt : a < b) :
    s.billed tenant q (a * second) (b * second) = .ok (secondsOf h.inForce q a b) := by
  obtain ⟨hs, hok, ⟨e, he, hbefore⟩, hwhole, hshort⟩ := hw
  have hans : ∀ {α} (q : Query) (rows : α), s.answer q rows = .ok rows := by
    intro α q rows
    rw [Store.answer, hok q]
  obtain ⟨prior, hlast⟩ : ∃ prior,
      (h.changes.filter fun e => e.occurredAt < a * second).getLast? = some prior := by
    refine Option.ne_none_iff_exists'.1 fun hnone => ?_
    exact absurd (getLast?_eq_none_iff.1 hnone ▸ mem_filter.2 ⟨he, decide_eq_true hbefore⟩)
      not_mem_nil
  have hlt' : a * second < b * second := by
    unfold second
    omega
  have hf := follows_window hlt' h.increasing h.chained
  rw [planAfter_of_getLast? hlast] at hf
  obtain ⟨hcover, -⟩ := intervalsFrom_known le_rfl hf (fun _ h => h) (.inl rfl)
  rw [Store.billed, buildReport, if_neg (not_not.2 hlt')]
  unfold Store.planEvents Store.opening Store.lastPlanBefore
  simp only [hans, hs, hlast]
  refine congrArg Except.ok (hcover.billedOf_eq fun i hi => ?_).2
  obtain ⟨hfrom, hne, htells⟩ := hcover.mem hi
  have hmem : ∀ t, (∃ f ∈ h.changes.filter fun e => a * second ≤ e.occurredAt ∧
      e.occurredAt < b * second, f.occurredAt = t) → second ∣ t ∧ t ≤ b * second := by
    rintro _ ⟨f, hf, rfl⟩
    rw [mem_filter, decide_eq_true_eq] at hf
    exact ⟨hwhole f hf.1 hf.2.1 hf.2.2, hf.2.2.le⟩
  have hstart : second ∣ i.fromTime :=
    htells.start.elim (· ▸ Int.dvd_mul_left _ _) fun hf => (hmem _ hf).1
  have hstop : second ∣ i.toTime ∧ i.toTime ≤ b * second :=
    htells.stop.elim (fun heq => ⟨heq ▸ Int.dvd_mul_left _ _, heq.le⟩) (hmem _)
  have hsub : sub i.toTime i.fromTime = i.toTime - i.fromTime := by
    unfold second at *
    rw [sub]
    omega
  obtain ⟨k, hk⟩ := Int.dvd_sub hstop.1 hstart
  have hsize : 0 ≤ k ∧ k * second < 2 ^ 63 := by
    unfold second at *
    omega
  rw [seconds_of_mem hi, hsub, hk, Int.mul_comm second k,
    truncated_durationSeconds hsize.1 hsize.2]
  exact ⟨hstop.1, rfl⟩

/-- A tenant that moved to a large plan and back, a part of a second after 10 and after 12. -/
def billedStore (part : ℤ) : Store where
  events := [⟨0, "", "small", "s"⟩, ⟨10 * second + part, "small", "large", "l"⟩,
    ⟨12 * second + part, "large", "small", "s"⟩]
  samples := []
  failure _ := none

/-- The history that the store has. -/
def billedHistory : History := ⟨"", (billedStore 0).events, by decide, by decide⟩

end Gentian.Usage
