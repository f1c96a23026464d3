/-
# The requests that a move answers

What the record of `Gentian.Component.Move` says along whole runs: specs written at any time,
exports that come to any phase, and passes that fail anywhere.  A build is rolled out only on
an export of its own request as long as no request comes in the middle of another one
(`Unhurried`), and no request is ignored as long as no pass runs with the pin back on the
running build while another one is rolling out (`NotLeft`).
-/

import Gentian.Component.Move

namespace Gentian.Component

open List Nat

variable {component : String} {requestHash : String → String} {spec : MoveSpec}
  {ro : RolloutStatus} {s s' : State} {m : Move}

/-! ### The way back -/

/-- What a record says of the build that runs and of the one it replaced. -/
structure Recorded (replaced : String) (ro : RolloutStatus) : Prop where
  digest : ro.digest ≠ ""
  phase : ro.phase ≠ .unset
  done : ro.phase = .done → ro.target = ro.digest
  previous : ro.previous ≠ "" → ro.previous = replaced ∧ ro.previous ≠ ro.digest

/-- No pass runs with the pin on the build that runs while another one rolls out. -/
def NotLeft (s : State) : Move → Prop
  | .pass _ => ∀ ro ∈ s.rollout, ro.phase = .rolling → ro.digest ≠ s.spec.pin
  | _ => True

instance NotLeft.decidable (s : State) : (m : Move) → Decidable (NotLeft s m)
  | .pass _ => inferInstanceAs (Decidable (∀ ro ∈ s.rollout, _))
  | .write _ | .exportPhase _ _ | .exportGone _ => inferInstanceAs (Decidable True)

/-- What is not asked for anew is the target already. -/
theorem target_of_not_asked (h : ¬Asked spec ro) : ro.target = spec.pin := by
  by_contra hne
  exact h (.inl (by simp [newTarget, hne]))

variable {exports : List MoveExport}

variable {name replaced : String}

/-- A pass keeps what the record says. -/
theorem Recorded.passesTo {ro' : RolloutStatus}
    (h : Recorded replaced ro) (hleft : ro.phase = .rolling → ro.digest ≠ spec.pin)
    (hp : PassesTo component requestHash spec ro exports ro') :
    Recorded (if ro'.digest ≠ ro.digest then ro.digest else replaced) ro' := by
  cases hp with
  | keeps => simpa using h
  | begins hmove hasked =>
    refine ⟨h.digest, nofun, nofun, fun hprevious => ?_⟩
    simpa [beganFrom] using h.previous hprevious
  | ends hphase time => exact ⟨h.digest, nofun, nofun, by simpa using h.previous⟩
  | rolls ro1 hrolls =>
    obtain ⟨hdigest, -, hprevious, -, hphase⟩ := hrolls.same
    refine ⟨hdigest ▸ h.digest, by simp [hphase], by simp [hphase], fun hne => ?_⟩
    rw [hprevious] at hne ⊢
    simpa [hdigest] using h.previous hne
  | rollsBack ro1 hrolls _ time =>
    obtain ⟨hdigest, -, hprevious, -, -⟩ := hrolls.same
    refine ⟨hdigest ▸ h.digest, nofun, nofun, fun hne => ?_⟩
    simp only [rollBack] at hne ⊢
    rw [hprevious] at hne ⊢
    simpa [hdigest] using h.previous hne
  | done ro1 hrolls time =>
    obtain ⟨hdigest, htarget, -, -, -⟩ := hrolls.same
    have hmove : Moves spec ro ∧ ¬Asked spec ro := by
      cases hrolls with
      | begins hmove hasked => exact ⟨hmove, hasked⟩
      | found hmove hasked => exact ⟨hmove, hasked⟩
      | left hphase hback => exact absurd hback (hleft hphase)
    obtain ⟨⟨hpin, -, hne⟩, hasked⟩ := hmove
    refine ⟨hpin, nofun, fun _ => ?_, fun _ => ?_⟩
    · exact htarget.trans (target_of_not_asked hasked)
    · rw [doneWith, hdigest]
      rw [if_pos hne.symm]
      exact ⟨rfl, hne⟩

/-- The record of a state says what it should. -/
def Kept (s : State) : Prop := ∀ ro, s.rollout = some ro → Recorded s.replaced ro

/-- Every move keeps it. -/
theorem Kept.step (h : Kept s) (hm : NotLeft s m)
    (hs : step component requestHash s m = some s') : Kept s' := by
  cases hs
  cases m with
  | write _ => exact h
  | exportPhase name _ => exact h
  | exportGone name => exact h
  | pass i =>
    intro ro' hro'
    change passRecord component requestHash s i = some ro' at hro'
    change Recorded (if running (passRecord component requestHash s i) ≠ running s.rollout
      then running s.rollout else s.replaced) ro'
    rw [hro']
    cases hro : s.rollout with
    | none =>
      rcases passRecord_none component requestHash i hro with hnone | ⟨hpin, hfirst⟩
      · rw [hnone] at hro'
        cases hro'
      · rw [hfirst] at hro'
        cases hro'
        exact ⟨hpin, nofun, fun _ => rfl, nofun⟩
    | some ro =>
      obtain ⟨ro'', hpass, hpasses⟩ :=
        passRecord_cases component requestHash i hro (h ro hro).digest
      cases hpass.symm.trans hro'
      exact (h ro hro).passesTo (fun hphase => hm ro hro hphase) hpasses

variable {clock time : ℕ} {f : BeginFates}

/-- A new request begins a move. -/
theorem beginMove_of_request (h : Recorded replaced ro) (hpin : spec.pin ≠ "")
    (hne : spec.pin ≠ ro.digest) (hended : ro.phase.ended) (hmoved : spec.movedAt ≠ "")
    (hrequest : spec.movedAt ≠ ro.movedAt) :
    let b := beginMove component requestHash spec (some ro) exports clock time f
    b.memory = some (beganFrom component requestHash spec ro) ∧
      (f.created → f.saved → b.saved = b.memory) := by
  have hasked : (newTarget spec ro || retried spec ro) := by
    cases hphase : ro.phase with
    | done =>
      have htarget : ro.target ≠ spec.pin := fun h' => hne (h'.symm.trans (h.done hphase))
      simp [newTarget, htarget]
    | rolledBack | failed => simp [retried, hphase, hmoved, hrequest]
    | unset | exporting | rolling => simp [hphase, RolloutPhase.ended] at hended
  have hmove : ¬(spec.pin = "" ∨ ro.digest = "" ∨ ro.digest = spec.pin) := by
    simp [hpin, h.digest, hne.symm]
  rw [beginMove, if_neg hmove, hasked]
  cases hcreated : f.created with
  | false => simp
  | true =>
    cases hsaved : f.saved with
    | false => simp [Begun.stop]
    | true => simp [Begun.stop]

/-- **No request is ignored and the way back is kept**, as long as no pass runs with the
pin back on the running build while another one is rolling out. -/
theorem request_begins_move {ms : List Move}
    (hm : Runs.Meets (step component requestHash) NotLeft (start spec) ms)
    (hr : Runs.run (step component requestHash) (start spec) ms = some s)
    (hro : s.rollout = some ro) :
    (s.spec.pin ≠ "" → s.spec.pin ≠ ro.digest → ro.phase.ended = true → s.spec.movedAt ≠ "" →
      s.spec.movedAt ≠ ro.movedAt → ∀ time f,
        let b := beginMove component requestHash s.spec s.rollout s.exports s.clock time f
        (∃ began, b.memory = some began ∧ began.phase = .exporting ∧ began.target = s.spec.pin) ∧
          (f.created → f.saved → b.saved = b.memory)) ∧
      (ro.previous ≠ "" → ro.previous = s.replaced ∧ ro.previous ≠ ro.digest) := by
  have hstart : Kept (start spec) := nofun
  have hkept : Kept s := Runs.invariant (fun s m _ h hm hs => .step h hm hs) hstart hm hr
  refine ⟨fun hpin hne hended hmoved hrequest time f => ?_, (hkept ro hro).previous⟩
  rw [hro]
  obtain ⟨hmemory, hsaved⟩ := beginMove_of_request (hkept ro hro) hpin hne hended hmoved hrequest
  exact ⟨⟨_, hmemory, rfl, rfl⟩, hsaved⟩

/-! ### A run that leaves a rollout -/

/-- A pass all of whose calls go through, up to the end of a rollout when `ready`. -/
def goodPass (ready : Bool) : Move :=
  .pass ⟨0, ⟨0, true, true, true⟩, .reached ready, ⟨some [], .undeclared⟩, true⟩

/-- The pin is changed. -/
def pinTo (pin movedAt : String) : Move := .write ⟨pin, movedAt, "mover"⟩

/-- The first three bytes of the SHA-256 of the requests of the examples, in hexadecimal. -/
def demoHash (movedAt : String) : String :=
  if movedAt = "t1" then "628b49" else if movedAt = "t2" then "c44474"
  else if movedAt = "t3" then "cece8a" else "e3b0c4"

/-- The machine of the examples. -/
def demoStep : State → Move → Option State := step "wiki" demoHash

/-- A wiki at build `a` that is moved to `b`: exported, ready, and rolling out. -/
def demoRolling : List Move :=
  [goodPass true, pinTo "b" "t1", goodPass true, .exportPhase "move-wiki-b-628b49" .ready,
    goodPass false]

/-- The wiki's record when `b` has rolled out. -/
def demoMoved : RolloutStatus where
  digest := "b"
  target := "b"
  previous := "a"
  phase := .done
  exportName := "move-wiki-b-628b49"
  movedAt := "t1"
  movedBy := "mover"
  startedAt := some 0
  finishedAt := some 0

/-- The wiki that has moved to `b`, asked to move back to `a`. -/
def demoAsked : State where
  spec := ⟨"a", "t2", "mover"⟩
  rollout := some demoMoved
  exports := [⟨"move-wiki-b-628b49", .ready, 3, false⟩]
  clock := 8
  pinnedAt := 7
  readied := [3]
  replaced := "a"

theorem run_demoAsked : Runs.run demoStep (start ⟨"a", "", ""⟩)
    (demoRolling ++ [goodPass true, pinTo "a" "t2"]) = some demoAsked := by
  decide +kernel

theorem demo_request_begins : demoMoved.previous = "a" ∧ "a" ≠ demoMoved.digest ∧
      ∃ began, (beginMove "wiki" demoHash demoAsked.spec demoAsked.rollout demoAsked.exports 8 0
        ⟨0, true, true, true⟩).memory = some began ∧ began.phase = .exporting ∧
          began.target = "a" :=
  have h := request_begins_move (show Runs.Meets (step "wiki" demoHash) NotLeft
      (start ⟨"a", "", ""⟩) (demoRolling ++ [goodPass true, pinTo "a" "t2"]) by decide +kernel)
    run_demoAsked (show demoAsked.rollout = some demoMoved from rfl)
  ⟨(h.2 (by decide)).1, by decide,
    (h.1 (by decide) (by decide) (by decide) (by decide) (by decide) 0 ⟨0, true, true, true⟩).1⟩

/-- The record after the pin was moved back in the middle of the rollout. -/
def demoLeft : RolloutStatus :=
  { demoMoved with digest := "a", previous := "a" }

/-- **A request that is ignored.**  The pin goes back to the running build `a` while `b`
is rolling out.  The pass that follows takes `a` for the build that rolled out: the
record says that `a` replaced itself, and that the move to `b` is done.  A later
request for `b` is answered with `a`. -/
theorem request_is_ignored : Runs.run demoStep (start ⟨"a", "", ""⟩)
        (demoRolling ++ [pinTo "a" "t2", goodPass true, pinTo "b" "t3"]) =
      some ⟨⟨"b", "t3", "mover"⟩, some demoLeft, [⟨"move-wiki-b-628b49", .ready, 3, false⟩], 9,
        8, [3], ""⟩ ∧
      demoLeft.phase.ended = true ∧ "b" ≠ demoLeft.digest ∧ "t3" ≠ demoLeft.movedAt ∧
      beginMove "wiki" demoHash ⟨"b", "t3", "mover"⟩ (some demoLeft)
          [⟨"move-wiki-b-628b49", .ready, 3, false⟩] 9 0 ⟨0, true, true, true⟩ =
        ⟨.renders "a", some demoLeft, some demoLeft, [⟨"move-wiki-b-628b49", .ready, 3, false⟩]⟩ ∧
      demoLeft.previous = demoLeft.digest := by
  decide +kernel

/-! ### Exports of their own -/

/-- A spec that is written in the middle of no other request: the pin is not changed to a
build whose move is on record as under way, and no export from before has the name of
the one that the request will ask for. -/
def Unhurried (component : String) (requestHash : String → String) (s : State) : Move → Prop
  | .write spec =>
    (spec.pin ≠ s.spec.pin → ∀ ro ∈ s.rollout, ro.phase.underWay = true → ro.target ≠ spec.pin) ∧
      ∀ e ∈ s.exports, e.name = moveExportName requestHash component spec.pin spec.movedAt →
        (if spec.pin ≠ s.spec.pin then s.clock else s.pinnedAt) < e.born
  | _ => True

instance Unhurried.decidable (component : String) (requestHash : String → String) (s : State) :
    (m : Move) → Decidable (Unhurried component requestHash s m)
  | .write _ => inferInstanceAs (Decidable ((_ → ∀ ro ∈ s.rollout, _) ∧ _))
  | .pass _ | .exportPhase _ _ | .exportGone _ => inferInstanceAs (Decidable True)

/-- What the exports say of the request that is answered. -/
structure Exported (component : String) (requestHash : String → String) (s : State) : Prop where
  clock : s.pinnedAt < s.clock
  digest : ∀ ro, s.rollout = some ro → ro.digest ≠ ""
  ready : ∀ e ∈ s.exports, e.phase = .ready → e.born ∈ s.readied
  named : ∀ e ∈ s.exports,
    e.name = moveExportName requestHash component s.spec.pin s.spec.movedAt → s.pinnedAt < e.born
  underWay : ∀ ro, s.rollout = some ro → ro.phase.underWay = true → ro.target = s.spec.pin →
    ∀ e ∈ s.exports, e.name = ro.exportName → s.pinnedAt < e.born
  rolling : ∀ ro, s.rollout = some ro → ro.phase = .rolling → ro.target = s.spec.pin →
    ∃ born ∈ s.readied, s.pinnedAt < born

/-- An export that was there, under the same name, or one that has just been created. -/
def OldOrNew (clock : ℕ) (exports : List MoveExport) (e : MoveExport) : Prop :=
  (∃ e₀ ∈ exports, e₀.name = e.name ∧ e₀.phase = e.phase ∧ e₀.born = e.born) ∨
    e.born = clock ∧ e.phase = .pending

variable {e : MoveExport}

theorem oldOrNew_of_mem (he : e ∈ exports) : OldOrNew clock exports e :=
  .inl ⟨e, he, rfl, rfl, rfl⟩

theorem oldOrNew_of_mem_prune {calls : ℕ} {last : String}
    (he : e ∈ pruneMoveExports last calls exports) : OldOrNew clock exports e := by
  obtain ⟨e0, he0, rfl⟩ := mem_map.1 he
  refine .inl ⟨e0, he0, ?_⟩
  split_ifs <;> exact ⟨rfl, rfl, rfl⟩

/-- An export is an old one, or made now. -/
theorem mem_ensureMoveExport (he : e ∈ ensureMoveExport name clock exports) :
    e ∈ exports ∨ e.born = clock ∧ e.phase = .pending := by
  unfold ensureMoveExport at he
  split_ifs at he
  · exact .inl he
  · rcases mem_append.1 he with he | he
    · exact .inl he
    · obtain rfl := mem_singleton.1 he
      exact .inr ⟨rfl, rfl⟩

@[simp] theorem Begun.stop_exports {saves : Bool} {old memory : RolloutStatus}
    : (Begun.stop saves old memory exports).exports = exports := by
  cases saves <;> rfl

theorem mem_awaitExport_exports (he : e ∈ (awaitExport spec ro exports clock time f).exports) :
    e ∈ exports ∨ e.born = clock ∧ e.phase = .pending := by
  unfold awaitExport at he
  split at he
  · exact .inl he
  split at he
  · split at he
    · exact .inl he
    · rw [Begun.stop_exports] at he
      exact mem_ensureMoveExport he
  · split at he
    · split at he <;> exact .inl he
    · exact .inl (by simpa using he)
    · exact .inl (by simpa using he)

/-- A pass makes no other export. -/
theorem mem_beginMove_exports {rollout : Option RolloutStatus}
    (he : e ∈ (beginMove component requestHash spec rollout exports clock time f).exports) :
    OldOrNew clock exports e := by
  cases rollout with
  | none => exact oldOrNew_of_mem he
  | some ro =>
    unfold beginMove at he
    dsimp only at he
    revert he
    generalize hbase : (if ro.phase.ended = true then
      pruneMoveExports ro.exportName f.pruned exports else exports) = base
    have hold : ∀ e ∈ base, OldOrNew clock exports e := by
      intro e he
      rw [← hbase] at he
      split_ifs at he
      · exact oldOrNew_of_mem_prune he
      · exact oldOrNew_of_mem he
    have hgrown : e ∈ base ∨ e.born = clock ∧ e.phase = .pending → OldOrNew clock exports e :=
      fun h => h.elim (hold e) .inr
    intro he
    split at he
    · exact hold e he
    split at he
    · split at he
      · exact hold e he
      · rw [Begun.stop_exports] at he
        exact hgrown (mem_ensureMoveExport he)
    · split at he
      · exact hgrown (mem_awaitExport_exports he)
      · exact hold e he
      · exact hold e he

/-- Exports of the name are made after the pin. -/
theorem OldOrNew.born_after {pinnedAt : ℕ}
    (h : OldOrNew clock exports e) (hclock : pinnedAt < clock)
    (hold : ∀ e ∈ exports, e.name = name → pinnedAt < e.born) (hname : e.name = name) :
    pinnedAt < e.born := by
  rcases h with ⟨e0, he0, hname0, -, hborn⟩ | ⟨hborn, -⟩
  · rw [← hborn]
    exact hold e0 he0 (hname0.trans hname)
  · rwa [hborn]

section

variable (h : Exported component requestHash s)

include h

/-- A pass rolls out on an export that was made after the pin. -/
theorem Exported.passesTo (hro : s.rollout = some ro)
    {ro' : RolloutStatus} (hp : PassesTo component requestHash s.spec ro s.exports ro') :
    ro'.digest ≠ "" ∧ (ro'.phase.underWay → ro'.target = s.spec.pin →
        ∀ e ∈ s.exports, e.name = ro'.exportName → s.pinnedAt < e.born) ∧
      (ro'.phase = .rolling → ro'.target = s.spec.pin → ∃ born ∈ s.readied, s.pinnedAt < born) := by
  have hd := h.digest ro hro
  cases hp with
  | keeps => exact ⟨hd, h.underWay ro hro, h.rolling ro hro⟩
  | begins hmove hasked => exact ⟨hd, fun _ _ => h.named, nofun⟩
  | ends hphase time => exact ⟨hd, nofun, nofun⟩
  | rolls ro1 hrolls =>
    obtain ⟨hdigest, htarget, -, hname, -⟩ := hrolls.same
    refine ⟨hdigest ▸ hd, ?_, ?_⟩
    · intro _ hpin
      rw [htarget] at hpin
      rw [hname]
      refine h.underWay ro hro ?_ hpin
      cases hrolls with
      | begins _ _ hphase | found _ _ hphase | left hphase => simp [RolloutPhase.underWay, hphase]
    · intro _ hpin
      cases hrolls with
      | begins hmove hasked hphase e he hexport hready time =>
        refine ⟨e.born, h.ready e he hready, ?_⟩
        exact h.underWay ro hro (by simp [RolloutPhase.underWay, hphase]) hpin e he hexport
      | found _ _ hphase | left hphase => exact h.rolling ro hro hphase hpin
  | rollsBack ro1 hrolls _ time => exact ⟨hrolls.same.1 ▸ hd, nofun, nofun⟩
  | done ro1 hrolls time =>
    refine ⟨?_, nofun, nofun⟩
    cases hrolls with
    | begins hmove => exact hmove.1
    | found hmove => exact hmove.1
    | left hphase hback =>
      change s.spec.pin ≠ ""
      exact hback ▸ hd

/-- A pass keeps it. -/
theorem Exported.pass (i : PassInput) :
    Exported component requestHash
      { pass component requestHash s i with clock := s.clock + 1 } := by
  have hmem : ∀ e ∈ (beginMove component requestHash s.spec s.rollout s.exports s.clock i.time
      i.begins).exports, OldOrNew s.clock s.exports e := fun e he => mem_beginMove_exports he
  have hrecord : ∀ ro', passRecord component requestHash s i = some ro' → ro'.digest ≠ "" ∧
      (ro'.phase.underWay → ro'.target = s.spec.pin →
        ∀ e ∈ s.exports, e.name = ro'.exportName → s.pinnedAt < e.born) ∧
      (ro'.phase = .rolling → ro'.target = s.spec.pin → ∃ born ∈ s.readied, s.pinnedAt < born) := by
    intro ro' hro'
    cases hro : s.rollout with
    | none =>
      rcases passRecord_none component requestHash i hro with hnone | ⟨hpin, hfirst⟩
      · rw [hnone] at hro'
        cases hro'
      · rw [hfirst] at hro'
        cases hro'
        exact ⟨hpin, nofun, nofun⟩
    | some ro =>
      obtain ⟨ro'', hpass, hpasses⟩ :=
        passRecord_cases component requestHash i hro (h.digest ro hro)
      cases hpass.symm.trans hro'
      exact h.passesTo hro hpasses
  refine ⟨lt_succ_of_lt h.clock, fun ro hro => (hrecord ro hro).1, fun e he hready => ?_,
    fun e he hname => (hmem e he).born_after h.clock h.named hname, ?_, ?_⟩
  · rcases hmem e he with ⟨e0, he0, -, hphase, hborn⟩ | ⟨-, hphase⟩
    · exact hborn ▸ h.ready e0 he0 (hphase.trans hready)
    · rw [hphase] at hready
      cases hready
  · intro ro hro hway hpin e he hname
    exact (hmem e he).born_after h.clock ((hrecord ro hro).2.1 hway hpin) hname
  · intro ro hro hphase hpin
    exact (hrecord ro hro).2.2 hphase hpin

/-- Every move that is not hurried keeps it. -/
theorem Exported.step (hm : Unhurried component requestHash s m)
    (hs : step component requestHash s m = some s') : Exported component requestHash s' := by
  cases hs
  cases m with
  | write spec =>
    obtain ⟨hother, hnamed⟩ := hm
    refine ⟨?_, h.digest, h.ready, hnamed, ?_, ?_⟩
    · change (if spec.pin ≠ s.spec.pin then s.clock else s.pinnedAt) < s.clock + 1
      split_ifs
      · exact lt_succ_self _
      · exact lt_succ_of_lt h.clock
    · intro ro hro hway hpin
      change ∀ e ∈ s.exports, e.name = ro.exportName →
        (if spec.pin ≠ s.spec.pin then s.clock else s.pinnedAt) < e.born
      by_cases hne : spec.pin = s.spec.pin
      · rw [if_neg (not_not.2 hne)]
        exact h.underWay ro hro hway (hpin.trans hne)
      · exact absurd hpin (hother hne ro hro hway)
    · intro ro hro hphase hpin
      change ∃ born ∈ s.readied, (if spec.pin ≠ s.spec.pin then s.clock else s.pinnedAt) < born
      by_cases hne : spec.pin = s.spec.pin
      · rw [if_neg (not_not.2 hne)]
        exact h.rolling ro hro hphase (hpin.trans hne)
      · exact absurd hpin (hother hne ro hro (by simp [RolloutPhase.underWay, hphase]))
  | exportPhase name phase =>
    have hmem : ∀ e ∈ s.exports.map fun e => if e.name = name then { e with phase } else e,
        ∃ e0 ∈ s.exports, e0.name = e.name ∧ e0.born = e.born ∧
          (e.phase = e0.phase ∨ e0.name = name ∧ e.phase = phase) := by
      intro e he
      obtain ⟨e0, he0, rfl⟩ := mem_map.1 he
      refine ⟨e0, he0, ?_⟩
      split_ifs with hname
      · exact ⟨rfl, rfl, .inr ⟨hname, rfl⟩⟩
      · exact ⟨rfl, rfl, .inl rfl⟩
    refine ⟨lt_succ_of_lt h.clock, h.digest, fun e he hready => ?_, fun e he hname => ?_, ?_,
      fun ro hro hphase hpin => ?_⟩
    · obtain ⟨e0, he0, -, hborn, hphase⟩ := hmem e he
      rw [← hborn]
      refine mem_append.2 ?_
      rcases hphase with hphase | ⟨hname, hphase⟩
      · exact .inl (h.ready e0 he0 (hphase.symm.trans hready))
      · refine .inr ?_
        rw [if_pos (hphase.symm.trans hready)]
        exact mem_map_of_mem (mem_filter.2 ⟨he0, by simpa using hname⟩)
    · obtain ⟨e0, he0, hname0, hborn, -⟩ := hmem e he
      exact hborn ▸ h.named e0 he0 (hname0.trans hname)
    · intro ro hro hway hpin e he hname
      obtain ⟨e0, he0, hname0, hborn, -⟩ := hmem e he
      exact hborn ▸ h.underWay ro hro hway hpin e0 he0 (hname0.trans hname)
    · obtain ⟨born, hborn, hlt⟩ := h.rolling ro hro hphase hpin
      exact ⟨born, mem_append_left _ hborn, hlt⟩
  | exportGone name =>
    have hsub : ∀ e ∈ s.exports.filter fun e => e.name ≠ name, e ∈ s.exports :=
      fun e he => mem_of_mem_filter he
    exact ⟨lt_succ_of_lt h.clock, h.digest, fun e he => h.ready e (hsub e he),
      fun e he => h.named e (hsub e he),
      fun ro hro hway hpin e he => h.underWay ro hro hway hpin e (hsub e he), h.rolling⟩
  | pass i => exact h.pass i

end

theorem exported_start : Exported component requestHash (start spec) where
  clock := Nat.zero_lt_one
  digest _ h := by cases h
  ready _ h := by cases h
  named _ h := by cases h
  underWay _ h := by cases h
  rolling _ h := by cases h

/-- **A build is rolled out only on an export of its own request.**  In every run of
unhurried moves, a pass that renders a pinned build other than the one on record does so
after an export that was created since the pin was last changed has been ready. -/
theorem rolled_out_on_own_export {ms : List Move}
    (hm : Runs.Meets (step component requestHash) (Unhurried component requestHash) (start spec) ms)
    (hr : Runs.run (step component requestHash) (start spec) ms = some s)
    (hro : s.rollout = some ro) (hdigest : ro.digest ≠ "") {build : String} {time : ℕ}
    {f : BeginFates} (hbuild : build ≠ "") (hne : build ≠ ro.digest)
    (hrenders : (beginMove component requestHash s.spec s.rollout s.exports s.clock time
      f).outcome = .renders build) :
    build = s.spec.pin ∧ ∃ born ∈ s.readied, s.pinnedAt < born := by
  have h : Exported component requestHash s :=
    Runs.invariant (fun s m s' h hm hs => .step h hm hs) exported_start hm hr
  obtain ⟨memory, saved, -, -, hbegins⟩ : (beginMove component requestHash s.spec s.rollout
      s.exports s.clock time f).Fits component requestHash s.spec ro s.exports :=
    hro ▸ beginMove_fits
  rw [hrenders] at hbegins
  cases hbegins with
  | idle hidle =>
    rcases hidle with h | h | h
    · exact absurd h hbuild
    · exact absurd h hdigest
    · exact absurd h.symm hne
  | rolls hmove hasked hphase e he hname hready time =>
    have hway : ro.phase.underWay := by simp [RolloutPhase.underWay, hphase]
    exact ⟨rfl, e.born, h.ready e he hready,
      h.underWay ro hro hway (target_of_not_asked hasked) e he hname⟩
  | rolling hmove hasked hphase =>
    exact ⟨rfl, h.rolling ro hro hphase (target_of_not_asked hasked)⟩
  | stays => exact absurd rfl hne

/-- The wiki's record while `b` rolls out. -/
def demoRollingRecord : RolloutStatus :=
  { demoMoved with digest := "a", previous := "", phase := .rolling, finishedAt := none }

/-- The wiki while `b` rolls out. -/
def demoRollingState : State :=
  ⟨⟨"b", "t1", "mover"⟩, some demoRollingRecord, [⟨"move-wiki-b-628b49", .ready, 3, false⟩], 6,
    2, [3], ""⟩

theorem run_demoRolling :
    Runs.run (step "wiki" demoHash) (start ⟨"a", "", ""⟩) demoRolling = some demoRollingState := by
  decide +kernel

theorem demo_rolled_out_on_export :
    "b" = demoRollingState.spec.pin ∧ ∃ born ∈ demoRollingState.readied,
      demoRollingState.pinnedAt < born :=
  rolled_out_on_own_export (show Runs.Meets (step "wiki" demoHash) (Unhurried "wiki" demoHash)
      (start ⟨"a", "", ""⟩) demoRolling by decide +kernel) run_demoRolling
    (show demoRollingState.rollout = some demoRollingRecord from rfl) (by decide) (by decide)
    (by decide) (show (beginMove "wiki" demoHash demoRollingState.spec demoRollingState.rollout
      demoRollingState.exports demoRollingState.clock 0 ⟨0, true, true, true⟩).outcome =
        .renders "b" by decide +kernel)

/-- **A request that is answered without an export.**  The pin goes back to `a` while `b`
is rolling out, the app goes on running `a`, and `b` is asked for again: it is rendered
at once, and the only export that was ready is that of the first request. -/
theorem second_request_without_export : Runs.run demoStep (start ⟨"a", "", ""⟩)
        (demoRolling ++ [pinTo "a" "t2", goodPass false, pinTo "b" "t3"]) =
      some ⟨⟨"b", "t3", "mover"⟩, some demoRollingRecord,
        [⟨"move-wiki-b-628b49", .ready, 3, false⟩], 9, 8, [3], ""⟩ ∧
      (beginMove "wiki" demoHash ⟨"b", "t3", "mover"⟩ (some demoRollingRecord)
        [⟨"move-wiki-b-628b49", .ready, 3, false⟩] 9 0 ⟨0, true, true, true⟩).outcome =
          .renders "b" ∧
      demoRollingRecord.digest = "a" ∧ (3 : ℕ) < 8 := by
  decide +kernel

end Gentian.Component
