/-
# An acknowledged event is not lost

`internal/membership/events.go`.  The sender stops retrying an event once a delivery of it is
answered `204`, so every `204` has to be backed by the projection.  A duplicate is backed by
the delivery that recorded the id, and one that is out of date by the delivery whose statement
is newer; but either of those may still be under way, and may still fail.

`Backed` is the invariant: every acknowledgement is covered by what the projection has applied,
or is pending on a delivery of the same event that is still running, or (where the run allows
it) is overtaken by a newer statement under way.
-/

import Gentian.Membership.Deliveries

namespace Gentian.Membership

open GoStrings GoMap Api Authz OpenFGA Parties Runs List Option Nat

variable {Key : Type} {cfg : Config Key} {s s' : State} {l : Label}

variable {x : Delivery} {tk : Ticket}

theorem ticket_of_forget {d d' : ℕ} {req req' : Request} {tk' : Ticket} {p p' : Bool}
    (hl : Label.forget d = .forget d') (hd : s.deliveries[d]? = some ⟨req, .failing tk p⟩)
    (hd' : s.deliveries[d']? = some ⟨req', .failing tk' p'⟩) : tk = tk' := by
  obtain rfl : d = d' := by injection hl
  rw [hd] at hd'
  injection some.inj hd' with _ hstage
  injection hstage

/-! ### What an entry of `last` stands for -/

/-- The statement is applied, or a delivery of it was let through and is not
applied yet. -/
def State.LetThrough (s : State) (ev : Event) : Prop :=
  ev ∈ applications s.log ∨ ∃ x ∈ s.deliveries, x.stage.underway = some ev

/-- What was let through stays so, unless it is forgotten. -/
theorem Step.letThrough (h : Step cfg s l s') {ev : Event} (hev : s.LetThrough ev) :
    s'.LetThrough ev ∨
      ∃ d req tk, l = .forget d ∧ s.deliveries[d]? = some ⟨req, .failing tk false⟩ ∧ tk.ev = ev := by
  rcases hev with hev | ⟨x, hx, hu⟩
  · exact .inl (.inl (h.applications_mono hev))
  -- a delivery under way is still there, or it is the one that moved
  by_cases hstill : x ∈ s'.deliveries
  · exact .inl (.inr ⟨x, hstill, hu⟩)
  cases h with
  | arrived req => exact absurd (mem_append_left _ hx) hstill
  | projected hd =>
    obtain rfl := eq_entry hd hx hstill
    refine .inl (.inl ?_)
    cases hu
    rw [applications_append, applications_afterProjection]
    exact mem_append_right _ (mem_singleton_self _)
  | failed hd =>
    obtain rfl := eq_entry hd hx hstill
    exact .inl (.inr ⟨_, mem_set_self hd, hu⟩)
  | @forgotten d req tk projected hd =>
    obtain rfl := eq_entry hd hx hstill
    cases projected with
    | true => cases hu
    | false => exact .inr ⟨d, req, tk, rfl, hd, some.inj hu⟩
  | refused hd | verified hd | duplicate hd | recorded hd | outOfDate hd | current hd | mirrored hd
  | mirrorFailed hd =>
    obtain rfl := eq_entry hd hx hstill
    cases hu

/-- Every entry of `last` is the time of a statement that was let through, or an
earlier one. -/
def Watermarks (s : State) : Prop :=
  ∀ k w, s.last.lookup k = some w → ∃ ev : Event, ev.key = k ∧ realmName ev.realm = true ∧
    ev.isStatement = true ∧ w ≤ ev.time ∧ s.LetThrough ev

theorem Watermarks.of_last_eq (hw : Watermarks s) (h : Step cfg s l s') (hlast : s'.last = s.last)
    (hl : ∀ d, l ≠ .forget d) : Watermarks s' := by
  intro k w hk
  rw [hlast] at hk
  obtain ⟨ev, hkey, hrealm, hst, hle, hlet⟩ := hw k w hk
  rcases h.letThrough hlet with hlet | ⟨d, -, -, rfl, -⟩
  · exact ⟨ev, hkey, hrealm, hst, hle, hlet⟩
  · exact absurd rfl (hl d)

/-- Every step keeps the watermarks. -/
theorem watermarks_step (hs : ∀ x ∈ s.deliveries, x.Sound cfg) (hw : Watermarks s)
    (h : Step cfg s l s') : Watermarks s' := by
  have h' := h
  cases h with
  | @current d req now tk hd hnow hle =>
    intro k w hk
    rw [lookup_insert_eq] at hk
    by_cases hkey : k = tk.ev.key
    · -- the entry just made: its delivery is under way
      rw [if_pos hkey] at hk
      cases hk
      have hsound := hs _ (mem_of_getElem? hd)
      exact ⟨tk.ev, hkey.symm, (hsound.1 _ rfl).2.2, hsound.2, le_refl _,
        .inr ⟨_, mem_set_self hd, rfl⟩⟩
    · rw [if_neg hkey] at hk
      obtain ⟨ev, hev, hrealm, hst, hle, hlet⟩ := hw k w (lookup_of_lookup_keptLast hk)
      rcases h'.letThrough hlet with hlet | ⟨d, -, -, hl, -⟩
      · exact ⟨ev, hev, hrealm, hst, hle, hlet⟩
      · cases hl
  | @forgotten d req tk projected hd =>
    intro k w hk
    rw [lookup_erase_eq] at hk
    split_ifs at hk with hkey
    obtain ⟨ev, hev, hrealm, hst, hle, hlet⟩ := hw k w hk
    rcases h'.letThrough hlet with hlet | ⟨d', req', tk', hl, hd', rfl⟩
    · exact ⟨ev, hev, hrealm, hst, hle, hlet⟩
    · -- the delivery that fails takes only the entry of its own user
      obtain rfl := ticket_of_forget hl hd hd'
      exact absurd hev.symm hkey
  | arrived | refused | verified | duplicate | recorded | outOfDate | projected | failed | mirrored
  | mirrorFailed => exact hw.of_last_eq h' rfl nofun

/-! ### What an entry of `seen` stands for -/

/-- A ticket is held until it is forgotten. -/
theorem Step.holds (h : Step cfg s l s') (hx : x ∈ s.deliveries)
    (htk : x.stage.holds = some tk) : (∃ x' ∈ s'.deliveries, x'.stage.holds = some tk) ∨
      ∃ d req projected, l = .forget d ∧ s.deliveries[d]? = some ⟨req, .failing tk projected⟩ := by
  by_cases hstill : x ∈ s'.deliveries
  · exact .inl ⟨x, hstill, htk⟩
  cases h with
  | arrived req => exact absurd (mem_append_left _ hx) hstill
  | refused hd | verified hd | duplicate hd | recorded hd =>
    obtain rfl := eq_entry hd hx hstill
    cases htk
  | projected hd =>
    obtain rfl := eq_entry hd hx hstill
    exact .inl ⟨_, mem_set_self hd, (afterProjection_holds _ _ _).trans htk⟩
  | outOfDate hd | current hd | failed hd | mirrored hd | mirrorFailed hd =>
    obtain rfl := eq_entry hd hx hstill
    exact .inl ⟨_, mem_set_self hd, htk⟩
  | @forgotten d req _ projected hd =>
    obtain rfl := eq_entry hd hx hstill
    cases htk
    exact .inr ⟨d, req, projected, rfl, hd⟩

/-- Every id of `seen` was recorded by a delivery that has not forgotten it. -/
def Recorded (s : State) : Prop :=
  ∀ id u, s.seen.lookup id = some u →
    ∃ x ∈ s.deliveries, ∃ tk, x.stage.holds = some tk ∧ tk.ev.id = id

theorem Recorded.of_seen_le (hr : Recorded s) (h : Step cfg s l s') {id : String} {u : ℤ}
    (hid : s.seen.lookup id = some u) (hl : ∀ d, l ≠ .forget d) :
    ∃ x ∈ s'.deliveries, ∃ tk, x.stage.holds = some tk ∧ tk.ev.id = id := by
  obtain ⟨x, hx, tk, htk, hev⟩ := hr id u hid
  rcases h.holds hx htk with ⟨x', hx', htk'⟩ | ⟨d, -, -, rfl, -⟩
  · exact ⟨x', hx', tk, htk', hev⟩
  · exact absurd rfl (hl d)

/-- Every step keeps the record of ids. -/
theorem recorded_step (hr : Recorded s) (h : Step cfg s l s') : Recorded s' := by
  have h' := h
  cases h with
  | @recorded d req _ v ev hd _ _ =>
    intro id u hid
    rw [lookup_insert_eq] at hid
    by_cases heq : id = ev.id
    · exact ⟨_, mem_set_self hd, _, afterFirst_holds _, heq.symm⟩
    · rw [if_neg heq] at hid
      exact hr.of_seen_le h' (lookup_keptSeen.1 hid).1 nofun
  | duplicate =>
    exact fun id u hid => hr.of_seen_le h' (lookup_keptSeen.1 hid).1 nofun
  | @forgotten d req _ projected hd =>
    intro id u hid
    rw [lookup_erase_eq] at hid
    split_ifs at hid with heq
    obtain ⟨x, hx, tk', htk, hev⟩ := hr id u hid
    rcases h'.holds hx htk with ⟨x', hx', htk'⟩ | ⟨d', req', p', hl, hd'⟩
    · exact ⟨x', hx', tk', htk', hev⟩
    · obtain rfl := ticket_of_forget hl hd hd'
      exact absurd hev.symm heq
  | arrived | refused | verified | outOfDate | current | projected | failed | mirrored
  | mirrorFailed => exact fun id u hid => hr.of_seen_le h' hid nofun

/-! ### What backs an acknowledgement -/

/-- The ticket of a delivery that recorded its id and has not applied its event,
nor been answered. -/
def Stage.unapplied : Stage → Option Ticket
  | .admitted tk | .ready tk | .failing tk false => some tk
  | _ => none

theorem running_of_unapplied {st : Stage} (h : st.unapplied = some tk) :
    st.event = some tk.ev ∧ st.running := by
  cases st with
  | failing tk' projected =>
    cases projected with
    | true => cases h
    | false =>
      cases h
      exact ⟨rfl, rfl⟩
  | admitted tk' | ready tk' =>
    cases h
    exact ⟨rfl, rfl⟩
  | arrived | verified | mirroring | answered => cases h

/-- `ev'` is a statement about the user of the statement `ev`, and at least as
new. -/
def Event.Supersedes (ev' ev : Event) : Prop :=
  ev'.isStatement = true ∧ ev.isStatement = true ∧ ev'.realm = ev.realm ∧ ev'.user = ev.user ∧
    ev.time ≤ ev'.time
deriving Decidable

/-- The projection has applied the event, or a statement about the same user at
least as new. -/
def State.Covered (s : State) (ev : Event) : Prop :=
  ∃ ev' ∈ applications s.log, ev' = ev ∨ ev'.Supersedes ev
deriving Decidable

/-- A delivery of the event is still to be applied, and the event was
acknowledged after that delivery recorded its id. -/
def State.Pending (s : State) (ev : Event) : Prop :=
  ∃ x ∈ s.deliveries, ∃ tk, x.stage.unapplied = some tk ∧ tk.ev = ev ∧
    Entry.acked ev ∈ s.log.drop tk.mark

/-- A statement at least as new was let through and is not applied yet. -/
def State.Overtaken (s : State) (ev : Event) : Prop :=
  ∃ x ∈ s.deliveries, ∃ ev', x.stage.underway = some ev' ∧ ev'.Supersedes ev

/-- What an acknowledgement rests on.  `R` says whether it may rest on a newer
statement that is still under way. -/
def State.Backing (R : Prop) (s : State) (ev : Event) : Prop :=
  s.Covered ev ∨ s.Pending ev ∨ R ∧ s.Overtaken ev

/-- What the log says of a delivery that is under way. -/
def Delivery.Accounted (log : List Entry) (x : Delivery) : Prop :=
  match x.stage with
  | .admitted tk | .ready tk | .failing tk false => tk.mark ≤ log.length
  | .mirroring tk | .failing tk true | .answered (.applied tk) => tk.ev ∈ applications log
  | .answered (.outOfDate tk) => .acked tk.ev ∈ log
  | .answered (.duplicate ev) => .acked ev ∈ log
  | _ => True

theorem Delivery.Accounted.append {log : List Entry} (h : x.Accounted log)
    (more : List Entry) : x.Accounted (log ++ more) := by
  obtain ⟨req, st⟩ := x
  have hle : log.length ≤ (log ++ more).length := by simp
  have hap : ∀ ev, ev ∈ applications log → ev ∈ applications (log ++ more) := fun ev hev => by
    rw [applications_append]
    exact mem_append_left _ hev
  cases st with
  | admitted tk => exact le_trans h hle
  | ready tk => exact le_trans h hle
  | mirroring tk => exact hap _ h
  | failing tk projected =>
    cases projected with
    | true => exact hap _ h
    | false => exact le_trans h hle
  | answered a =>
    cases a with
    | applied tk => exact hap _ h
    | outOfDate tk => exact mem_append_left _ h
    | duplicate ev => exact mem_append_left _ h
    | _ => trivial
  | _ => trivial

theorem accounted_afterFirst (log : List Entry) (req : Request) (ev : Event) (v now : ℤ) :
    Delivery.Accounted log ⟨req, afterFirst ⟨ev, v, now, log.length⟩⟩ := by
  obtain ⟨-, h⟩ | ⟨-, h⟩ | ⟨-, h⟩ | ⟨-, h⟩ := afterFirst_cases ⟨ev, v, now, log.length⟩ <;> rw [h]
  · trivial
  · exact le_refl _
  · exact le_refl _
  · trivial

/-- Every step keeps deliveries accounted for. -/
theorem accounted_step (ha : ∀ x ∈ s.deliveries, x.Accounted s.log) (h : Step cfg s l s') :
    ∀ x ∈ s'.deliveries, x.Accounted s'.log := by
  have hlater : ∀ more, ∀ x ∈ s.deliveries, x.Accounted (s.log ++ more) := fun more x hx =>
    (ha x hx).append more
  cases h with
  | arrived req => exact forall_mem_concat ha trivial
  | @refused d req _ a hd _ href =>
    refine forall_mem_set ha ?_
    cases a <;> cases href <;> trivial
  | verified hd => exact forall_mem_set ha trivial
  | duplicate hd | outOfDate hd =>
    exact forall_mem_set (hlater _) (mem_append_right _ (mem_singleton_self _))
  | recorded hd => exact forall_mem_set ha (accounted_afterFirst _ _ _ _ _)
  | current hd | failed hd | mirrorFailed hd =>
    have hold := ha _ (mem_of_getElem? hd)
    exact forall_mem_set ha hold
  | @projected d req tk _ c hd _ =>
    have hmem : tk.ev ∈ applications (s.log ++ (afterProjection cfg req tk).2) := by
      rw [applications_append, applications_afterProjection]
      exact mem_append_right _ (mem_singleton_self _)
    refine forall_mem_set (hlater _) ?_
    obtain ⟨h, -⟩ | ⟨h, -⟩ := afterProjection_cases cfg req tk <;> rw [h] <;> exact hmem
  | @mirrored d req tk hd =>
    have hold := hlater [.done req] _ (mem_of_getElem? hd)
    exact forall_mem_set (hlater _) hold
  | forgotten hd => exact forall_mem_set ha trivial

/-- "ID is unique per event": requests whose events have one id carry one
event. -/
def OneEventPerID (cfg : Config Key) (reqs : List Request) : Prop :=
  ∀ r ∈ reqs, ∀ r' ∈ reqs, ∀ ev ∈ cfg.unmarshal r.body, ∀ ev' ∈ cfg.unmarshal r'.body,
    ev.id = ev'.id → ev = ev'
deriving Decidable

/-- What a step must meet for the acknowledgements to stay backed.  An id that
arrives is that of one event.  A statement is not called out of date on the
strength of one that is under way, unless `R` allows that.  And a delivery that
gives up before it was applied has had its event acknowledged to nobody since it
recorded the id. -/
def Backs (R : Prop) (cfg : Config Key) (s : State) : Label → Prop
  | .arrive req => OneEventPerID cfg (s.requests ++ [req])
  | .newest d _ => R ∨ ∀ x ∈ s.deliveries[d]?, ∀ tk ∈ x.stage.unapplied,
      tk.ev.time < (s.last.lookup tk.ev.key).getD 0 →
        ∀ y ∈ s.deliveries, ∀ ev' ∈ y.stage.underway, ¬ev'.Supersedes tk.ev
  | .forget d => ∀ x ∈ s.deliveries[d]?, ∀ tk ∈ x.stage.unapplied,
      ¬R ∧ .acked tk.ev ∉ s.log.drop tk.mark
  | _ => True

/-- What holds in every state of a run whose steps meet `Backs`. -/
structure Accounts (R : Prop) (cfg : Config Key) (s : State) : Prop where
  unique : OneEventPerID cfg s.requests
  sound : ∀ x ∈ s.deliveries, x.Sound cfg
  watermarks : Watermarks s
  recorded : Recorded s
  accounted : ∀ x ∈ s.deliveries, x.Accounted s.log
  backed : ∀ ev, .acked ev ∈ s.log → ev.wellFormed = true → 0 ≤ ev.time → s.Backing R ev

section Backing

variable {R : Prop}

variable {ev : Event} {req : Request} {tk : Ticket} {d : ℕ} {now : ℤ}

/-- What is covered stays so. -/
theorem Step.covered (h : Step cfg s l s') (hc : s.Covered ev) : s'.Covered ev := by
  obtain ⟨ev', hap, hev⟩ := hc
  exact ⟨ev', h.applications_mono hap, hev⟩

/-- What was overtaken is covered, or overtaken still. -/
theorem Step.overtaken (h : Step cfg s l s') (hc : Backs R cfg s l) (hR : R)
    (ho : s.Overtaken ev) : s'.Covered ev ∨ s'.Overtaken ev := by
  obtain ⟨x, hx, ev', hu, hsup⟩ := ho
  rcases h.letThrough (.inr ⟨x, hx, hu⟩) with (hap | ⟨y, hy, hu'⟩) | ⟨d, req, tk, rfl, hd, -⟩
  · exact .inl ⟨ev', hap, .inr hsup⟩
  · exact .inr ⟨y, hy, ev', hu', hsup⟩
  · exact absurd hR (hc _ hd tk rfl).1

/-- **A statement found out of date is backed**: the entry of `last` it is older
than stands for a newer statement, applied or under way. -/
theorem Accounts.outOfDate (hs : Accounts R cfg s)
    (hc : Backs R cfg s (.newest d now)) (hd : s.deliveries[d]? = some ⟨req, .admitted tk⟩)
    (hlt : tk.ev.time < (s.last.lookup tk.ev.key).getD 0) (h0 : 0 ≤ tk.ev.time) :
    s.Covered tk.ev ∨ R ∧ s.Overtaken tk.ev := by
  have hsound := hs.sound _ (mem_of_getElem? hd)
  cases hw : s.last.lookup tk.ev.key with
  | none =>
    rw [hw] at hlt
    exact absurd hlt (not_lt.2 h0)
  | some w =>
    obtain ⟨ev, hkey, hrealm, hst, hle, hlet⟩ := hs.watermarks _ _ hw
    obtain ⟨hr, hu⟩ := key_inj hrealm (hsound.1 _ rfl).2.2 hkey
    have hlt' := hlt
    rw [hw] at hlt'
    have hsup : ev.Supersedes tk.ev := ⟨hst, hsound.2, hr, hu, (hlt'.trans_le hle).le⟩
    rcases hlet with hap | ⟨y, hy, hunder⟩
    · exact .inl ⟨ev, hap, .inr hsup⟩
    · rcases hc with hR | hc
      · exact .inr ⟨hR, y, hy, ev, hunder, hsup⟩
      · exact absurd hsup (hc _ hd tk rfl hlt y hy ev hunder)

/-- What is not applied waits, is applied, is dropped as old, or is forgotten. -/
theorem Step.unapplied (h : Step cfg s l s') (hx : x ∈ s.deliveries)
    (htk : x.stage.unapplied = some tk) :
    (∃ x' ∈ s'.deliveries, x'.stage.unapplied = some tk) ∨ tk.ev ∈ applications s'.log ∨
      (∃ d req now, l = .newest d now ∧ s.deliveries[d]? = some ⟨req, .admitted tk⟩ ∧
        tk.ev.time < (s.last.lookup tk.ev.key).getD 0) ∨
      ∃ d req, l = .forget d ∧ s.deliveries[d]? = some ⟨req, .failing tk false⟩ := by
  by_cases hstill : x ∈ s'.deliveries
  · exact .inl ⟨x, hstill, htk⟩
  cases h with
  | arrived req => exact absurd (mem_append_left _ hx) hstill
  | refused hd | verified hd | duplicate hd | recorded hd | mirrored hd | mirrorFailed hd =>
    obtain rfl := eq_entry hd hx hstill
    cases htk
  | current hd | failed hd =>
    obtain rfl := eq_entry hd hx hstill
    exact .inl ⟨_, mem_set_self hd, htk⟩
  | @outOfDate d req now tk' hd _ hlt =>
    obtain rfl := eq_entry hd hx hstill
    cases htk
    exact .inr (.inr (.inl ⟨d, req, now, rfl, hd, hlt⟩))
  | projected hd =>
    obtain rfl := eq_entry hd hx hstill
    cases htk
    refine .inr (.inl ?_)
    rw [applications_append, applications_afterProjection]
    exact mem_append_right _ (mem_singleton_self _)
  | @forgotten d req tk' projected hd =>
    obtain rfl := eq_entry hd hx hstill
    cases projected with
    | true => cases htk
    | false =>
      cases htk
      exact .inr (.inr (.inr ⟨d, req, rfl, hd⟩))

/-- **What backs an acknowledgement keeps backing it.** -/
theorem Accounts.backing_step (hs : Accounts R cfg s) (hc : Backs R cfg s l) (h : Step cfg s l s')
    (h0 : 0 ≤ ev.time) (hb : s.Backing R ev) : s'.Backing R ev := by
  have hover : R ∧ s.Overtaken ev → s'.Backing R ev := fun ⟨hR, ho⟩ => by
    rcases h.overtaken hc hR ho with hcov | ho
    · exact .inl hcov
    · exact .inr (.inr ⟨hR, ho⟩)
  rcases hb with hcov | ⟨x, hx, tk, htk, rfl, hack⟩ | ho
  · exact .inl (h.covered hcov)
  · rcases h.unapplied hx htk with ⟨x', hx', htk'⟩ | hap | ⟨d, req, now, rfl, hd, hlt⟩ |
      ⟨d, req, rfl, hd⟩
    · obtain ⟨more, hmore⟩ := h.log_append
      refine .inr (.inl ⟨x', hx', tk, htk', rfl, ?_⟩)
      rw [hmore, drop_append]
      exact mem_append_left _ hack
    · exact .inl ⟨tk.ev, hap, .inl rfl⟩
    · rcases hs.outOfDate hc hd hlt h0 with hcov | ho
      · exact .inl (h.covered hcov)
      · exact hover ho
    · exact absurd hack (hc _ hd tk rfl).2
  · exact hover ho

/-- **A duplicate is backed** by the delivery that recorded its id: it is still to
be applied, or it was applied, or it was itself found out of date. -/
theorem Accounts.duplicate (hs : Accounts R cfg s) {v u : ℤ} (h : Step cfg s (.first d now) s')
    (hd : s.deliveries[d]? = some ⟨req, .verified ev v⟩) (hu : s.seen.lookup ev.id = some u)
    (hlog : s'.log = s.log ++ [.acked ev]) (hwf : ev.wellFormed) (h0 : 0 ≤ ev.time) :
    s'.Backing R ev := by
  obtain ⟨⟨req', st⟩, hx, tk, htk, hid⟩ := hs.recorded _ _ hu
  have hsound := hs.sound _ hx
  have hacc := hs.accounted _ hx
  -- the delivery that recorded the id carries the same event
  obtain rfl : tk.ev = ev :=
    hs.unique _ (mem_map_of_mem hx) _ (mem_map_of_mem (mem_of_getElem? hd)) _
      (hsound.1 _ (event_of_holds htk)).1 _ ((hs.sound _ (mem_of_getElem? hd)).1 _ rfl).1 hid
  have hpending : st.unapplied = some tk → tk.mark ≤ s.log.length → s'.Backing R tk.ev := by
    intro hun hmark
    rcases h.unapplied hx hun with ⟨x', hx', htk'⟩ | hap | ⟨_, _, _, hl, -⟩ | ⟨_, _, hl, -⟩
    · refine .inr (.inl ⟨x', hx', tk, htk', rfl, ?_⟩)
      rw [hlog, drop_append_of_le_length hmark]
      exact mem_append_right _ (mem_singleton_self _)
    · exact .inl ⟨tk.ev, hap, .inl rfl⟩
    · cases hl
    · cases hl
  have happlied : tk.ev ∈ applications s.log → s'.Backing R tk.ev := fun hap =>
    .inl (h.covered ⟨tk.ev, hap, .inl rfl⟩)
  cases st with
  | arrived | verified => cases htk
  | admitted tk' | ready tk' =>
    cases htk
    exact hpending rfl hacc
  | mirroring tk' =>
    cases htk
    exact happlied hacc
  | failing tk' projected =>
    cases htk
    cases projected with
    | true => exact happlied hacc
    | false => exact hpending rfl hacc
  | answered a =>
    cases a with
    | tooLarge | unauthenticated | malformed | duplicate | notApplied => cases htk
    | noUser tk' | unknownType tk' =>
      cases htk
      exact absurd hwf (by rw [hsound.2]; exact Bool.false_ne_true)
    | outOfDate tk' =>
      cases htk
      exact hs.backing_step (l := .first d now) trivial h h0 (hs.backed _ hacc hwf h0)
    | applied tk' =>
      cases htk
      exact happlied hacc

/-- **A step that meets the condition keeps the accounts.** -/
theorem accounts_step (hs : Accounts R cfg s) (hc : Backs R cfg s l) (h : Step cfg s l s') :
    Accounts R cfg s' where
  unique := by
    rcases h.requests with heq | ⟨req, rfl, heq⟩
    · rw [heq]
      exact hs.unique
    · rw [heq]
      exact hc
  sound := sound_step hs.sound h
  watermarks := watermarks_step hs.sound hs.watermarks h
  recorded := recorded_step hs.recorded h
  accounted := accounted_step hs.accounted h
  backed := by
    intro ev hev hwf h0
    have hold : .acked ev ∈ s.log → s'.Backing R ev := fun hmem =>
      hs.backing_step hc h h0 (hs.backed ev hmem hwf h0)
    have h' := h
    cases h with
    | duplicate hd _ hu =>
      rcases mem_append.1 hev with hev | hev
      · exact hold hev
      · obtain rfl : ev = _ := by injection mem_singleton.1 hev
        exact hs.duplicate h' hd hu rfl hwf h0
    | outOfDate hd _ hlt =>
      rcases mem_append.1 hev with hev | hev
      · exact hold hev
      · obtain rfl : ev = _ := by injection mem_singleton.1 hev
        refine hs.backing_step hc h' h0 ?_
        rcases hs.outOfDate hc hd hlt h0 with hcov | ho
        · exact .inl hcov
        · exact .inr (.inr ho)
    | projected =>
      rcases mem_append.1 hev with hev | hev
      · exact hold hev
      · obtain ⟨-, heq⟩ | ⟨-, heq⟩ := afterProjection_cases _ _ _ <;> rw [heq] at hev <;> simp at hev
    | mirrored =>
      rcases mem_append.1 hev with hev | hev
      · exact hold hev
      · cases mem_singleton.1 hev
    | arrived | refused | verified | recorded | current | failed | mirrorFailed | forgotten =>
      exact hold hev

theorem accounts_initial (cfg : Config Key) (store : Store) (clock : ℤ) :
    Accounts R cfg (initial store clock) where
  unique _ hr := by cases hr
  sound _ hx := by cases hx
  watermarks _ _ hk := by cases hk
  recorded _ _ hid := by cases hid
  accounted _ hx := by cases hx
  backed _ hev := by cases hev

/-- **The accounts hold wherever a run that meets the condition ends.** -/
theorem accounts_run {store : Store} {clock : ℤ} {ls : List Label}
    (hm : Meets (step cfg) (Backs R cfg) (initial store clock) ls)
    (hr : run (step cfg) (initial store clock) ls = some s) : Accounts R cfg s :=
  invariant (fun _ _ _ hs hc h => accounts_step hs hc (step_cases h))
    (accounts_initial cfg store clock) hm hr

end Backing

instance (R : Prop) [Decidable R] (cfg : Config Key) (s : State) (l : Label) :
    Decidable (Backs R cfg s l) := by
  cases l <;> dsimp only [Backs] <;> infer_instance

/-- **An acknowledged event is not lost.**  In a run in which no event is
acknowledged between the recording of its id and the failure of the delivery that
recorded it, and no statement is called out of date while a newer one is let
through but not applied, every well-formed event that was answered `204` and has
no delivery running was applied, or a statement about its user at least as new
was. -/
theorem acknowledged_not_lost {store : Store} {clock : ℤ} {ls : List Label}
    (hm : Meets (step cfg) (Backs False cfg) (initial store clock) ls)
    (hr : run (step cfg) (initial store clock) ls = some s)
    {x : Delivery} {a : Answer} {ev : Event} (hx : x ∈ s.deliveries)
    (ha : x.stage = .answered a) (h204 : a.status = 204)
    (hev : cfg.unmarshal x.req.body = some ev) (hwf : ev.wellFormed = true) (h0 : 0 ≤ ev.time)
    (hidle : ∀ y ∈ s.deliveries, y.stage.running = true → cfg.unmarshal y.req.body ≠ some ev) :
    s.Covered ev := by
  have hs := accounts_run hm hr
  obtain ⟨req, st⟩ := x
  have hsound := hs.sound _ hx
  have hacc := hs.accounted _ hx
  have hsame : ∀ ev', st.event = some ev' → ev' = ev := fun ev' hev' =>
    some.inj ((hsound.1 _ hev').1.symm.trans hev)
  -- nothing of the event is pending, since no delivery of it is running
  have hack : .acked ev ∈ s.log → s.Covered ev := by
    intro hmem
    rcases hs.backed ev hmem hwf h0 with hcov | ⟨y, hy, tk, htk, rfl, -⟩ | ⟨hR, -⟩
    · exact hcov
    · have hevent := running_of_unapplied htk
      exact absurd ((hs.sound _ hy).1 _ hevent.1).1 (hidle y hy hevent.2)
    · exact hR.elim
  subst ha
  cases a with
  | tooLarge | unauthenticated | malformed | noUser | notApplied => cases h204
  | duplicate | outOfDate =>
    obtain rfl := hsame _ rfl
    exact hack hacc
  | unknownType tk =>
    obtain rfl := hsame _ rfl
    rw [hsound.2] at hwf
    cases hwf
  | applied tk =>
    obtain rfl := hsame _ rfl
    exact ⟨tk.ev, hacc, .inl rfl⟩

/-- A statement that a user has joined a group. -/
def joined : Event :=
  { id := "event-01", time := 10, realm := "demo", type := "user.memberships", user := "u-1",
    groups := ["gentian:tenant:demo:members"] }

/-- A delivery and a retry after it was answered meet the conditions. -/
theorem retry_after_answer_not_lost :
    ∃ s, run (step (listener [joined] false)) (initial Store.empty 0)
        [.arrive (sent 0), .verify 0 0, .first 0 0, .newest 0 0, .apply 0 (.read .answered),
          .arrive (sent 0), .verify 1 0, .first 1 0] = some s ∧ s.Covered joined :=
  ⟨_, (some_get (by decide)).symm, acknowledged_not_lost (by decide)
    (some_get (by decide)).symm (x := ⟨sent 0, .answered (.duplicate joined)⟩) (by decide) rfl
    rfl (by decide) (by decide) (by decide) (by decide)⟩

/-- **A duplicate acknowledged too early.**  The first delivery is still at the
store when the sender's retry arrives; the retry is answered `204`, so that the
sender stops, and then the first delivery fails. -/
theorem acknowledged_then_lost : ∃ s, run (step (listener [joined] false)) (initial Store.empty 0)
        [.arrive (sent 0), .verify 0 0, .first 0 0, .newest 0 0, .arrive (sent 0), .verify 1 0,
          .first 1 0, .apply 0 .unread, .forget 0] = some s ∧
      (∀ y ∈ s.deliveries, y.stage.running = false) ∧
      ⟨sent 0, .answered (.duplicate joined)⟩ ∈ s.deliveries ∧
      (Answer.duplicate joined).status = 204 ∧ joined.wellFormed = true ∧ 0 ≤ joined.time ∧
      ¬s.Covered joined :=
  ⟨_, (some_get (by decide)).symm, by decide, by decide, rfl, by decide, by decide, by decide⟩

end Gentian.Membership
