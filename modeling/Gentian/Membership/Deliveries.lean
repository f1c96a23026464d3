/-
# Deliveries of membership events

`internal/membership/events.go` (`Receiver.ServeHTTP`).  Every delivery runs on a goroutine of
its own, and its steps are separated by steps of the others:

| step | what it does |
| --- | --- |
| `verify` | reads the clock, checks the signature, decodes the event |
| `first` | reads the clock, records the event id or finds it recorded |
| `newest` | lets a statement through or finds it out of date |
| `apply` | `SetUserGroups` or `RemoveGroup`, under the projector's mutex |
| `mirror` | hands the statement on to the mirror |
| `forget` | drops the id and the user's entry after a failure |

A label carries what the environment decides: the clock reading, which never goes back, and
what becomes of the requests to the store and of the mirror's call.  `log`, `pruned` and the
fields of a `Ticket` other than the event are kept for the statements only: no step of the
program reads them.  `Step` says once what a step can do.
-/

import Gentian.Base.Runs
import Gentian.Membership.Receiver

namespace Gentian.Membership

open GoStrings GoMap Api Authz OpenFGA List Option

variable {Key : Type}

/-! ### A delivery -/

/-- What a delivery whose id was recorded carries: its event, the clock readings
of `verify` and `first`, and the length of the log when the id was recorded. -/
structure Ticket where
  ev : Event
  verifiedAt : ℤ
  recordedAt : ℤ
  mark : ℕ
deriving DecidableEq

/-- What a delivery is answered. -/
inductive Answer where
  | tooLarge
  | unauthenticated (reason : VerifyError)
  | malformed
  | duplicate (ev : Event)
  | noUser (tk : Ticket)
  | unknownType (tk : Ticket)
  | outOfDate (tk : Ticket)
  | notApplied (tk : Ticket)
  | applied (tk : Ticket)
deriving DecidableEq

/-- The status of an answer. -/
def Answer.status : Answer → ℕ
  | .tooLarge => 413
  | .unauthenticated _ => 401
  | .malformed | .noUser _ => 400
  | .notApplied _ => 503
  | .duplicate _ | .unknownType _ | .outOfDate _ | .applied _ => 204

/-- The text of the response, empty for `204`. -/
def Answer.text : Answer → String
  | .tooLarge => "event too large"
  | .unauthenticated _ => "unauthenticated"
  | .malformed | .noUser _ => "malformed event"
  | .notApplied _ => "not applied"
  | .duplicate _ | .unknownType _ | .outOfDate _ | .applied _ => ""

/-- An answer before the event is known. -/
def Answer.isRefusal : Answer → Bool
  | .tooLarge | .unauthenticated _ | .malformed => true
  | _ => false

/-- Where a delivery is: the step it takes next, or its answer. -/
inductive Stage where
  /-- `verify` is next. -/
  | arrived
  /-- `first` is next. -/
  | verified (ev : Event) (verifiedAt : ℤ)
  /-- `newest` is next. -/
  | admitted (tk : Ticket)
  /-- The projector is next. -/
  | ready (tk : Ticket)
  /-- The projection is applied and the mirror is next. -/
  | mirroring (tk : Ticket)
  /-- `forget` is next; `projected` says that it was the mirror that failed. -/
  | failing (tk : Ticket) (projected : Bool)
  | answered (a : Answer)
deriving DecidableEq

/-- A request, and how far it has come. -/
structure Delivery where
  req : Request
  stage : Stage
deriving DecidableEq

/-- A delivery that has not been answered. -/
def Stage.running : Stage → Bool
  | .answered _ => false
  | _ => true

/-- The event of a delivery, once it is known. -/
def Stage.event : Stage → Option Event
  | .arrived => none
  | .verified ev _ => some ev
  | .admitted tk | .ready tk | .mirroring tk | .failing tk _ => some tk.ev
  | .answered (.duplicate ev) => some ev
  | .answered (.noUser tk) | .answered (.unknownType tk) | .answered (.outOfDate tk)
  | .answered (.notApplied tk) | .answered (.applied tk) => some tk.ev
  | .answered .tooLarge | .answered (.unauthenticated _) | .answered .malformed => none

/-- The ticket of a delivery that recorded its id and has not forgotten it. -/
def Stage.holds : Stage → Option Ticket
  | .admitted tk | .ready tk | .mirroring tk | .failing tk _ => some tk
  | .answered (.noUser tk) | .answered (.unknownType tk) | .answered (.outOfDate tk)
  | .answered (.applied tk) => some tk
  | _ => none

/-- The event of a delivery that was let through and is not applied. -/
def Stage.underway : Stage → Option Event
  | .ready tk | .failing tk false => some tk.ev
  | _ => none

/-! ### The machine -/

/-- What has happened so far: a projector call returned, a delivery that was
applied was answered `204`, or one was answered `204` without being applied, as a
duplicate or as out of date. -/
inductive Entry where
  | applied (req : Request) (ev : Event)
  | done (req : Request)
  | acked (ev : Event)
deriving DecidableEq

/-- The receiver's maps and the projection, the last clock reading, every
delivery so far, and the history: the log, and the floor of the last time `last`
was cut down. -/
structure State where
  seen : AList fun _ : String => ℤ
  last : AList fun _ : String => ℤ
  store : Store
  clock : ℤ
  deliveries : List Delivery
  log : List Entry
  pruned : Option ℤ

/-- `NewReceiver` over a store, with the clock at `clock`. -/
def initial (store : Store) (clock : ℤ) : State :=
  ⟨∅, ∅, store, clock, [], [], none⟩

/-- The statements and deletions the projection has applied, in order. -/
def applications (log : List Entry) : List Event :=
  log.filterMap fun
    | .applied _ ev => some ev
    | _ => none

/-- One step of one delivery, with what its environment decides. -/
inductive Label where
  | arrive (req : Request)
  | verify (d : ℕ) (now : ℤ)
  | first (d : ℕ) (now : ℤ)
  | newest (d : ℕ) (now : ℤ)
  | apply (d : ℕ) (fate : CallFate)
  | mirror (d : ℕ) (ok : Bool)
  | forget (d : ℕ)
deriving DecidableEq

/-- Where a delivery goes from `verify`, by its size, its signature and the form
of its event. -/
def afterVerify (cfg : Config Key) (req : Request) (now : ℤ) : Stage :=
  if maxEventBytes < req.body.length then .answered .tooLarge
  else
    match verify cfg req now with
    | .error e => .answered (.unauthenticated e)
    | .ok () =>
      match cfg.unmarshal req.body with
      | none => .answered .malformed
      | some ev =>
        if eventID ev.id = false ∨ realmName ev.realm = false then .answered .malformed
        else .verified ev now

/-- Where a delivery goes from `first`, by the type of its event. -/
def afterFirst (tk : Ticket) : Stage :=
  match tk.ev.kind with
  | .userMemberships | .userDeleted =>
    if tk.ev.user = "" then .answered (.noUser tk) else .admitted tk
  | .groupDeleted => .ready tk
  | .unknown => .answered (.unknownType tk)

/-- Where a delivery goes once the projection is applied, and what it adds to the
log. -/
def afterProjection (cfg : Config Key) (req : Request) (tk : Ticket) : Stage × List Entry :=
  if cfg.mirror then (.mirroring tk, [.applied req tk.ev])
  else (.answered (.applied tk), [.applied req tk.ev, .done req])

/-- One step of `ServeHTTP` for one delivery; `none` when it is not that
delivery's next step, or when the clock would go back. -/
def step (cfg : Config Key) (s : State) : Label → Option State
  | .arrive req => some { s with deliveries := s.deliveries ++ [⟨req, .arrived⟩] }
  | .verify d now =>
    match s.deliveries[d]? with
    | some ⟨req, .arrived⟩ =>
      if s.clock ≤ now then
        some { s with
          clock := now
          deliveries := s.deliveries.set d ⟨req, afterVerify cfg req now⟩ }
      else none
    | _ => none
  | .first d now =>
    match s.deliveries[d]? with
    | some ⟨req, .verified ev verifiedAt⟩ =>
      if s.clock ≤ now then
        let out := first s.seen ev.id now
        if out.2 then
          some { s with
            seen := out.1
            clock := now
            deliveries := s.deliveries.set d ⟨req, afterFirst ⟨ev, verifiedAt, now, s.log.length⟩⟩ }
        else
          some { s with
            seen := out.1
            clock := now
            deliveries := s.deliveries.set d ⟨req, .answered (.duplicate ev)⟩
            log := s.log ++ [.acked ev] }
      else none
    | _ => none
  | .newest d now =>
    match s.deliveries[d]? with
    | some ⟨req, .admitted tk⟩ =>
      if s.clock ≤ now then
        let out := newest s.last tk.ev.key tk.ev.time now
        if out.2 then
          some { s with
            last := out.1
            clock := now
            deliveries := s.deliveries.set d ⟨req, .ready tk⟩
            pruned := if maxLast < len s.last then some (floorAt now) else s.pruned }
        else
          some { s with
            last := out.1
            clock := now
            deliveries := s.deliveries.set d ⟨req, .answered (.outOfDate tk)⟩
            log := s.log ++ [.acked tk.ev] }
      else none
    | _ => none
  | .apply d fate =>
    match s.deliveries[d]? with
    | some ⟨req, .ready tk⟩ =>
      match project cfg s.store tk.ev fate with
      | (store, .ok _) =>
        some { s with
          store := store
          deliveries := s.deliveries.set d ⟨req, (afterProjection cfg req tk).1⟩
          log := s.log ++ (afterProjection cfg req tk).2 }
      | (store, .error _) =>
        some { s with
          store := store
          deliveries := s.deliveries.set d ⟨req, .failing tk false⟩ }
    | _ => none
  | .mirror d ok =>
    match s.deliveries[d]? with
    | some ⟨req, .mirroring tk⟩ =>
      if ok then
        some { s with
          deliveries := s.deliveries.set d ⟨req, .answered (.applied tk)⟩
          log := s.log ++ [.done req] }
      else some { s with deliveries := s.deliveries.set d ⟨req, .failing tk true⟩ }
    | _ => none
  | .forget d =>
    match s.deliveries[d]? with
    | some ⟨req, .failing tk _⟩ =>
      some { s with
        seen := s.seen.erase tk.ev.id
        last := s.last.erase tk.ev.key
        deliveries := s.deliveries.set d ⟨req, .answered (.notApplied tk)⟩ }
    | _ => none

/-! ### What a step can do -/

/-- An event in the form the receiver takes: an id and a realm it accepts, a
known type, and a user where the type is about one. -/
def Event.wellFormed (ev : Event) : Bool :=
  eventID ev.id && realmName ev.realm &&
    match ev.kind with
    | .userMemberships | .userDeleted => decide (ev.user ≠ "")
    | .groupDeleted => true
    | .unknown => false

/-- Everything a step can do: the state before, with the guards, and the state
after. -/
inductive Step (cfg : Config Key) (s : State) : Label → State → Prop
  | arrived (req : Request) :
      Step cfg s (.arrive req) { s with deliveries := s.deliveries ++ [⟨req, .arrived⟩] }
  | refused {d : ℕ} {req : Request} {now : ℤ} {a : Answer}
      (hd : s.deliveries[d]? = some ⟨req, .arrived⟩) (hnow : s.clock ≤ now)
      (ha : a.isRefusal = true) :
      Step cfg s (.verify d now)
        { s with clock := now, deliveries := s.deliveries.set d ⟨req, .answered a⟩ }
  | verified {d : ℕ} {req : Request} {now : ℤ} {ev : Event}
      (hd : s.deliveries[d]? = some ⟨req, .arrived⟩) (hnow : s.clock ≤ now)
      (hv : verify cfg req now = .ok ()) (hev : cfg.unmarshal req.body = some ev)
      (hid : eventID ev.id = true) (hrealm : realmName ev.realm = true) :
      Step cfg s (.verify d now)
        { s with clock := now, deliveries := s.deliveries.set d ⟨req, .verified ev now⟩ }
  | duplicate {d : ℕ} {req : Request} {now v u : ℤ} {ev : Event}
      (hd : s.deliveries[d]? = some ⟨req, .verified ev v⟩) (hnow : s.clock ≤ now)
      (hu : s.seen.lookup ev.id = some u) (hle : now ≤ u) :
      Step cfg s (.first d now)
        { s with
          seen := keptSeen s.seen now
          clock := now
          deliveries := s.deliveries.set d ⟨req, .answered (.duplicate ev)⟩
          log := s.log ++ [.acked ev] }
  | recorded {d : ℕ} {req : Request} {now v : ℤ} {ev : Event}
      (hd : s.deliveries[d]? = some ⟨req, .verified ev v⟩) (hnow : s.clock ≤ now)
      (hnew : ∀ u, s.seen.lookup ev.id = some u → u < now) :
      Step cfg s (.first d now)
        { s with
          seen := (keptSeen s.seen now).insert ev.id (now + 2 * window)
          clock := now
          deliveries := s.deliveries.set d ⟨req, afterFirst ⟨ev, v, now, s.log.length⟩⟩ }
  | outOfDate {d : ℕ} {req : Request} {now : ℤ} {tk : Ticket}
      (hd : s.deliveries[d]? = some ⟨req, .admitted tk⟩) (hnow : s.clock ≤ now)
      (hlt : tk.ev.time < (s.last.lookup tk.ev.key).getD 0) :
      Step cfg s (.newest d now)
        { s with
          clock := now
          deliveries := s.deliveries.set d ⟨req, .answered (.outOfDate tk)⟩
          log := s.log ++ [.acked tk.ev] }
  | current {d : ℕ} {req : Request} {now : ℤ} {tk : Ticket}
      (hd : s.deliveries[d]? = some ⟨req, .admitted tk⟩) (hnow : s.clock ≤ now)
      (hle : (s.last.lookup tk.ev.key).getD 0 ≤ tk.ev.time) :
      Step cfg s (.newest d now)
        { s with
          last := (keptLast s.last now).insert tk.ev.key tk.ev.time
          clock := now
          deliveries := s.deliveries.set d ⟨req, .ready tk⟩
          pruned := if maxLast < len s.last then some (floorAt now) else s.pruned }
  | projected {d : ℕ} {req : Request} {tk : Ticket} {fate : CallFate} {c : Change}
      (hd : s.deliveries[d]? = some ⟨req, .ready tk⟩)
      (hok : (project cfg s.store tk.ev fate).2 = .ok c) :
      Step cfg s (.apply d fate)
        { s with
          store := (project cfg s.store tk.ev fate).1
          deliveries := s.deliveries.set d ⟨req, (afterProjection cfg req tk).1⟩
          log := s.log ++ (afterProjection cfg req tk).2 }
  | failed {d : ℕ} {req : Request} {tk : Ticket} {fate : CallFate} {e : ApplyError}
      (hd : s.deliveries[d]? = some ⟨req, .ready tk⟩)
      (herr : (project cfg s.store tk.ev fate).2 = .error e) :
      Step cfg s (.apply d fate)
        { s with
          store := (project cfg s.store tk.ev fate).1
          deliveries := s.deliveries.set d ⟨req, .failing tk false⟩ }
  | mirrored {d : ℕ} {req : Request} {tk : Ticket}
      (hd : s.deliveries[d]? = some ⟨req, .mirroring tk⟩) :
      Step cfg s (.mirror d true)
        { s with
          deliveries := s.deliveries.set d ⟨req, .answered (.applied tk)⟩
          log := s.log ++ [.done req] }
  | mirrorFailed {d : ℕ} {req : Request} {tk : Ticket}
      (hd : s.deliveries[d]? = some ⟨req, .mirroring tk⟩) :
      Step cfg s (.mirror d false)
        { s with deliveries := s.deliveries.set d ⟨req, .failing tk true⟩ }
  | forgotten {d : ℕ} {req : Request} {tk : Ticket} {projected : Bool}
      (hd : s.deliveries[d]? = some ⟨req, .failing tk projected⟩) :
      Step cfg s (.forget d)
        { s with
          seen := s.seen.erase tk.ev.id
          last := s.last.erase tk.ev.key
          deliveries := s.deliveries.set d ⟨req, .answered (.notApplied tk)⟩ }

/-- A request is refused, or is an event that was signed. -/
theorem afterVerify_cases (cfg : Config Key) (req : Request) (now : ℤ) :
    (∃ a, a.isRefusal ∧ afterVerify cfg req now = .answered a) ∨
      ∃ ev, verify cfg req now = .ok () ∧ cfg.unmarshal req.body = some ev ∧
        eventID ev.id ∧ realmName ev.realm ∧ afterVerify cfg req now = .verified ev now := by
  unfold afterVerify
  by_cases hlen : maxEventBytes < req.body.length
  · exact .inl ⟨.tooLarge, rfl, by rw [if_pos hlen]⟩
  · rw [if_neg hlen]
    cases hv : verify cfg req now with
    | error e => exact .inl ⟨.unauthenticated e, rfl, rfl⟩
    | ok =>
      cases hev : cfg.unmarshal req.body with
      | none => exact .inl ⟨.malformed, rfl, rfl⟩
      | some ev =>
        by_cases hform : eventID ev.id = false ∨ realmName ev.realm = false
        · exact .inl ⟨.malformed, rfl, by simp only [if_pos hform]⟩
        · refine .inr ⟨ev, rfl, rfl, ?_, ?_, by simp only [if_neg hform]⟩
          · exact Bool.eq_true_of_not_eq_false fun h => hform (.inl h)
          · exact Bool.eq_true_of_not_eq_false fun h => hform (.inr h)

/-- **A step does nothing else.** -/
theorem step_cases {cfg : Config Key} {s s' : State} {l : Label} (h : step cfg s l = some s') :
    Step cfg s l s' := by
  cases l with
  | arrive req =>
    cases h
    exact .arrived req
  | verify d now =>
    rw [step] at h
    split at h
    next req hd =>
      rw [ite_none_right_eq_some] at h
      obtain ⟨hnow, h⟩ := h
      cases h
      obtain ⟨a, ha, heq⟩ | ⟨ev, hv, hev, hid, hrealm, heq⟩ := afterVerify_cases cfg req now
      · rw [heq]
        exact .refused hd hnow ha
      · rw [heq]
        exact .verified hd hnow hv hev hid hrealm
    · cases h
  | first d now =>
    rw [step] at h
    split at h
    next req ev v hd =>
      rw [ite_none_right_eq_some] at h
      obtain ⟨hnow, h⟩ := h
      obtain ⟨hf, u, hu, hle⟩ | ⟨hf, hnew⟩ := first_cases s.seen ev.id now
      · rw [hf] at h
        cases h
        exact .duplicate hd hnow hu hle
      · rw [hf] at h
        cases h
        exact .recorded hd hnow hnew
    · cases h
  | newest d now =>
    rw [step] at h
    split at h
    next req tk hd =>
      rw [ite_none_right_eq_some] at h
      obtain ⟨hnow, h⟩ := h
      obtain ⟨hn, hlt⟩ | ⟨hn, hle⟩ := newest_cases s.last tk.ev.key tk.ev.time now
      · rw [hn] at h
        cases h
        exact .outOfDate hd hnow hlt
      · rw [hn] at h
        cases h
        exact .current hd hnow hle
    · cases h
  | apply d fate =>
    rw [step] at h
    split at h
    next req tk hd =>
      cases hp : project cfg s.store tk.ev fate with
      | mk store out =>
        have hstore : store = (project cfg s.store tk.ev fate).1 := by rw [hp]
        cases out with
        | ok c =>
          rw [hp] at h
          cases h
          rw [hstore]
          exact .projected hd (by rw [hp])
        | error e =>
          rw [hp] at h
          cases h
          rw [hstore]
          exact .failed hd (by rw [hp])
    · cases h
  | mirror d ok =>
    rw [step] at h
    split at h
    next req tk hd =>
      cases ok with
      | true =>
        cases h
        exact .mirrored hd
      | false =>
        cases h
        exact .mirrorFailed hd
    · cases h
  | forget d =>
    rw [step] at h
    split at h
    next req tk projected hd =>
      cases h
      exact .forgotten hd
    · cases h

/-! ### What every step keeps -/

section Steps

open Parties

variable {cfg : Config Key} {s s' : State} {l : Label}

/-- Where `first` leads a new id: `newest` is asked about statements only, and an
event without a user or of an unknown type is not well formed. -/
theorem afterFirst_cases (tk : Ticket) :
    (tk.ev.wellFormed = false ∧ afterFirst tk = .answered (.noUser tk)) ∨
      (tk.ev.isStatement ∧ afterFirst tk = .admitted tk) ∨
      (tk.ev.isStatement = false ∧ afterFirst tk = .ready tk) ∨
      tk.ev.wellFormed = false ∧ afterFirst tk = .answered (.unknownType tk) := by
  unfold afterFirst
  cases hk : tk.ev.kind with
  | userMemberships | userDeleted =>
    by_cases hu : tk.ev.user = ""
    · exact .inl ⟨by simp [Event.wellFormed, hk, hu], by simp only [if_pos hu]⟩
    · exact .inr (.inl ⟨by simp [Event.isStatement, hk], by simp only [if_neg hu]⟩)
  | groupDeleted => exact .inr (.inr (.inl ⟨by simp [Event.isStatement, hk], rfl⟩))
  | unknown => exact .inr (.inr (.inr ⟨by simp [Event.wellFormed, hk], rfl⟩))

theorem afterFirst_event (tk : Ticket) : (afterFirst tk).event = some tk.ev := by
  obtain ⟨-, h⟩ | ⟨-, h⟩ | ⟨-, h⟩ | ⟨-, h⟩ := afterFirst_cases tk <;> rw [h] <;> rfl

theorem afterFirst_holds (tk : Ticket) : (afterFirst tk).holds = some tk := by
  obtain ⟨-, h⟩ | ⟨-, h⟩ | ⟨-, h⟩ | ⟨-, h⟩ := afterFirst_cases tk <;> rw [h] <;> rfl

/-- What follows a projection. -/
theorem afterProjection_cases (cfg : Config Key) (req : Request) (tk : Ticket) :
    ((afterProjection cfg req tk).1 = .mirroring tk ∧
        (afterProjection cfg req tk).2 = [.applied req tk.ev]) ∨
      (afterProjection cfg req tk).1 = .answered (.applied tk) ∧
        (afterProjection cfg req tk).2 = [.applied req tk.ev, .done req] := by
  unfold afterProjection
  split_ifs
  · exact .inl ⟨rfl, rfl⟩
  · exact .inr ⟨rfl, rfl⟩

theorem afterProjection_event (cfg : Config Key) (req : Request) (tk : Ticket) :
    (afterProjection cfg req tk).1.event = some tk.ev := by
  obtain ⟨h, -⟩ | ⟨h, -⟩ := afterProjection_cases cfg req tk <;> rw [h] <;> rfl

theorem afterProjection_holds (cfg : Config Key) (req : Request) (tk : Ticket) :
    (afterProjection cfg req tk).1.holds = some tk := by
  obtain ⟨h, -⟩ | ⟨h, -⟩ := afterProjection_cases cfg req tk <;> rw [h] <;> rfl

theorem applications_append (log log' : List Entry) :
    applications (log ++ log') = applications log ++ applications log' :=
  filterMap_append

theorem applications_afterProjection (cfg : Config Key) (req : Request) (tk : Ticket) :
    applications (afterProjection cfg req tk).2 = [tk.ev] := by
  obtain ⟨-, h⟩ | ⟨-, h⟩ := afterProjection_cases cfg req tk <;> rw [h] <;> rfl

variable {ev : Event} {st : Stage}

theorem event_of_holds {tk : Ticket} (h : st.holds = some tk) : st.event = some tk.ev := by
  cases st with
  | answered a => cases a <;> cases h <;> rfl
  | _ => cases h <;> rfl

/-- **The log only grows.** -/
theorem Step.log_append (h : Step cfg s l s') : ∃ more, s'.log = s.log ++ more := by
  cases h <;> first | exact ⟨_, rfl⟩ | exact ⟨[], (append_nil _).symm⟩

/-- What was applied stays applied. -/
theorem Step.applications_mono (h : Step cfg s l s') (hev : ev ∈ applications s.log) :
    ev ∈ applications s'.log := by
  obtain ⟨more, hmore⟩ := h.log_append
  rw [hmore, applications_append]
  exact mem_append_left _ hev

/-- A step is an arrival, or moves one delivery. -/
theorem Step.moved (h : Step cfg s l s') :
    (∃ req, l = .arrive req ∧ s'.deliveries = s.deliveries ++ [⟨req, .arrived⟩]) ∨
      ∃ d req st st', s.deliveries[d]? = some ⟨req, st⟩ ∧ st.running ∧
        s'.deliveries = s.deliveries.set d ⟨req, st'⟩ := by
  cases h with
  | arrived req => exact .inl ⟨req, rfl, rfl⟩
  | refused hd | verified hd | duplicate hd | recorded hd | outOfDate hd | current hd | projected hd
  | failed hd | mirrored hd | mirrorFailed hd | forgotten hd =>
    exact .inr ⟨_, _, _, _, hd, rfl, rfl⟩

/-- The requests that were delivered. -/
def State.requests (s : State) : List Request := s.deliveries.map (·.req)

/-- A step adds the request that arrives and changes none. -/
theorem Step.requests (h : Step cfg s l s') :
    s'.requests = s.requests ∨ ∃ req, l = .arrive req ∧ s'.requests = s.requests ++ [req] := by
  rcases h.moved with ⟨req, rfl, heq⟩ | ⟨d, req, st, st', hd, -, heq⟩
  · refine .inr ⟨req, rfl, ?_⟩
    rw [State.requests, heq, map_append]
    rfl
  · refine .inl (ext_getElem? fun i => ?_)
    rw [State.requests, State.requests, heq, getElem?_map, getElem?_map, getElem?_set_of_some hd]
    by_cases hi : i = d
    · rw [if_pos hi, hi, hd]
      rfl
    · rw [if_neg hi]

/-- Only `apply` changes the store. -/
theorem Step.projection (h : Step cfg s l s') :
    (s'.store = s.store ∧ applications s'.log = applications s.log) ∨
      ∃ d req tk fate, l = .apply d fate ∧ s.deliveries[d]? = some ⟨req, .ready tk⟩ ∧
        s'.store = (project cfg s.store tk.ev fate).1 ∧
        ((∃ c, (project cfg s.store tk.ev fate).2 = .ok c ∧
            applications s'.log = applications s.log ++ [tk.ev]) ∨
          ∃ e, (project cfg s.store tk.ev fate).2 = .error e ∧
            applications s'.log = applications s.log) := by
  cases h with
  | @projected d req tk fate c hd hok =>
    refine .inr ⟨d, req, tk, fate, rfl, hd, rfl, .inl ⟨c, hok, ?_⟩⟩
    rw [applications_append, applications_afterProjection]
  | @failed d req tk fate e hd herr =>
    exact .inr ⟨d, req, tk, fate, rfl, hd, rfl, .inr ⟨e, herr, rfl⟩⟩
  | duplicate | outOfDate | mirrored =>
    refine .inl ⟨rfl, ?_⟩
    rw [applications_append]
    exact append_nil _
  | arrived | refused | verified | recorded | current | mirrorFailed | forgotten =>
    exact .inl ⟨rfl, rfl⟩

/-- A delivery keeps its event. -/
theorem Step.event (h : Step cfg s l s') {x : Delivery} (hx : x ∈ s.deliveries)
    (hev : x.stage.event = some ev) : ∃ x' ∈ s'.deliveries, x'.stage.event = some ev := by
  cases h with
  | arrived _ => exact ⟨x, mem_append_left _ hx, hev⟩
  | refused hd | verified hd =>
    rcases mem_set_or_eq hd hx with hx | rfl
    · exact ⟨x, hx, hev⟩
    · cases hev
  | recorded hd =>
    rcases mem_set_or_eq hd hx with hx | rfl
    · exact ⟨x, hx, hev⟩
    · exact ⟨_, mem_set_self hd, (afterFirst_event _).trans hev⟩
  | projected hd =>
    rcases mem_set_or_eq hd hx with hx | rfl
    · exact ⟨x, hx, hev⟩
    · exact ⟨_, mem_set_self hd, (afterProjection_event _ _ _).trans hev⟩
  | duplicate hd | outOfDate hd | current hd | failed hd | mirrored hd | mirrorFailed hd
  | forgotten hd =>
    rcases mem_set_or_eq hd hx with hx | rfl
    · exact ⟨x, hx, hev⟩
    · exact ⟨_, mem_set_self hd, hev⟩

/-- The stages that depend on the type of the event: `newest` is asked about
statements only, and an event without a user or of an unknown type is not well
formed. -/
def Stage.FitsType : Stage → Prop
  | .admitted tk | .answered (.outOfDate tk) => tk.ev.isStatement = true
  | .answered (.noUser tk) | .answered (.unknownType tk) => tk.ev.wellFormed = false
  | _ => True

/-- The event of a delivery is what its body decodes to, with an id and a realm
the receiver accepts, and the delivery is where an event of that type can be. -/
def Delivery.Sound (cfg : Config Key) (x : Delivery) : Prop :=
  (∀ ev, x.stage.event = some ev →
    cfg.unmarshal x.req.body = some ev ∧ eventID ev.id = true ∧ realmName ev.realm = true) ∧
  x.stage.FitsType

theorem Delivery.Sound.move {req : Request} {st' : Stage}
    (h : Delivery.Sound cfg ⟨req, st⟩) (hst : st.event = some ev) (hst' : st'.event = some ev)
    (hfits : st'.FitsType) : Delivery.Sound cfg ⟨req, st'⟩ := by
  refine ⟨fun ev' hev' => ?_, hfits⟩
  obtain rfl : ev = ev' := some.inj (hst'.symm.trans hev')
  exact h.1 ev hst

theorem afterFirst_fitsType (tk : Ticket) : (afterFirst tk).FitsType := by
  obtain ⟨hk, h⟩ | ⟨hk, h⟩ | ⟨-, h⟩ | ⟨hk, h⟩ := afterFirst_cases tk <;> rw [h]
  · exact hk
  · exact hk
  · trivial
  · exact hk

/-- **Deliveries stay sound.** -/
theorem sound_step (hs : ∀ x ∈ s.deliveries, x.Sound cfg) (h : Step cfg s l s') :
    ∀ x ∈ s'.deliveries, x.Sound cfg := by
  cases h with
  | arrived req => exact forall_mem_concat hs ⟨fun ev hev => (by cases hev), trivial⟩
  | @refused d req now a hd _ ha =>
    refine forall_mem_set hs ⟨fun ev hev => ?_, ?_⟩
    · cases a <;> cases ha <;> cases hev
    · cases a <;> cases ha <;> trivial
  | @verified d req now ev hd _ _ hev hid hrealm =>
    refine forall_mem_set hs ⟨fun _ hev' => ?_, trivial⟩
    cases hev'
    exact ⟨hev, hid, hrealm⟩
  | duplicate hd | current hd | failed hd | mirrored hd | forgotten hd =>
    exact forall_mem_set hs ((hs _ (mem_of_getElem? hd)).move rfl rfl trivial)
  | recorded hd =>
    exact forall_mem_set hs
      ((hs _ (mem_of_getElem? hd)).move rfl (afterFirst_event _) (afterFirst_fitsType _))
  | outOfDate hd =>
    have hold := hs _ (mem_of_getElem? hd)
    exact forall_mem_set hs (hold.move rfl rfl hold.2)
  | projected hd =>
    refine forall_mem_set hs ((hs _ (mem_of_getElem? hd)).move rfl (afterProjection_event _ _ _) ?_)
    obtain ⟨h, -⟩ | ⟨h, -⟩ := afterProjection_cases _ _ _ <;> rw [h] <;> trivial
  | mirrorFailed hd =>
    exact forall_mem_set hs ((hs _ (mem_of_getElem? hd)).move rfl rfl trivial)

end Steps

/-! ### A listener to run -/

/-- A receiver with the one key `k`, for a listener that sends the events of a
list: the body of an event is the byte of its place.  Every signature
verifies. -/
def listener (events : List Event) (mirror : Bool) : Config Unit where
  keys id := if id = "k" then some () else none
  scope := ⟨"kernel", "platform"⟩
  mirror := mirror
  ed25519Verify _ _ _ := true
  base64Decode sig := some sig.toUTF8.toList
  unmarshal body := body.head?.bind fun b => events[b.toNat]?

/-- The request for event `i`, signed at time `0`. -/
def sent (i : UInt8) : Request := ⟨"keyid=k, t=0, sig=c2ln", [i]⟩

end Gentian.Membership
