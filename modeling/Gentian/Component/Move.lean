/-
# Moving an installed app to another build

`internal/controller/component_move.go`: `moveExportName`, `beginMove`, `finishMove`,
`awaitMove`, `rollBack`, `ensureMoveExport` and `pruneMoveExports`, with the parts of
`ComponentReconciler.Reconcile` that call them.  The pin says which build was asked for, and
`status.rollout` where a move to it stands:

| phase | left by |
| --- | --- |
| `Exporting` | the export is ready (`Rolling`) or has failed (`Failed`) |
| `Rolling` | the build is up and verified (`Done`), or not in time (`RolledBack`) |
| `Done`, `RolledBack`, `Failed` | another request |

"Each request exports afresh".  The record is not looked at, though, while the pin is on the
build the instance runs.  A move that is left in the middle by moving the pin back is found
again as it was: by another request for the same build, which is rolled out on the export of
the first one (`second_request_without_export`), and by `finishMove`, which takes the running
build for the one that rolled out (`request_is_ignored`).
-/

import Gentian.Base.GoStrings
import Gentian.Base.Runs

namespace Gentian.Component

open GoStrings

/-! ### The record -/

/-- `RolloutPhase`, `unset` when it is empty. -/
inductive RolloutPhase where
  | unset
  | exporting
  | rolling
  | done
  | rolledBack
  | failed
deriving DecidableEq

/-- `moveEnded`. -/
def RolloutPhase.ended (p : RolloutPhase) : Bool := p = .done || p = .rolledBack || p = .failed

/-- A move that has begun and not ended. -/
def RolloutPhase.underWay (p : RolloutPhase) : Bool := p = .exporting || p = .rolling

/-- The `rolloutReason*` names, `none` when it is empty. -/
inductive RolloutReason where
  | none
  | exportFailed
  | notReadyInTime
  | verifyFailed
deriving DecidableEq

/-- `RolloutStatus`, without its message. -/
structure RolloutStatus where
  digest : String
  target : String
  previous : String := ""
  phase : RolloutPhase
  exportName : String := ""
  reason : RolloutReason := .none
  movedAt : String
  movedBy : String
  startedAt : Option ℕ := none
  finishedAt : Option ℕ := none
deriving DecidableEq

/-- What the spec of a component says of its build: the pinned digest, empty for none,
and the request. -/
structure MoveSpec where
  pin : String
  movedAt : String
  movedBy : String
deriving DecidableEq

/-- `TenantExportPhase`. -/
inductive ExportPhase where
  | pending
  | running
  | ready
  | failed
deriving DecidableEq

/-- A `TenantExport` taken before a move: `born` is when it was created, and `deleting`
that its deletion has been asked for. -/
structure MoveExport where
  name : String
  phase : ExportPhase
  born : ℕ
  deleting : Bool
deriving DecidableEq

/-- An export that has ended, well or not. -/
def MoveExport.isTerminal (e : MoveExport) : Bool := e.phase = .ready || e.phase = .failed

/-! ### Exports -/

/-- `moveDeadline`, in seconds. -/
def moveDeadline : ℕ := 15 * 60

/-- `moveExportsKept`. -/
def moveExportsKept : ℕ := 2

/-- `profilebundle.Short`. -/
def short (digest : String) : String :=
  "sha256:" ++ String.ofList ((trimPrefix digest "sha256:").toList.take 12)

/-- `moveExportName`.  `requestHash` are the hex digits it takes of the hash of a
request. -/
def moveExportName (requestHash : String → String) (component digest movedAt : String) : String :=
  "move-" ++ String.ofList (component.toList.take 33) ++ "-" ++
    trimPrefix (short digest) "sha256:" ++ "-" ++ requestHash movedAt

/-- The exports that `pruneMoveExports` deletes, of those that are sorted with the newest
one first. -/
def doomed (last : String) : ℕ → List MoveExport → List String
  | _, [] => []
  | kept, e :: es =>
    if !e.isTerminal || e.deleting then doomed last kept es
    else if kept < moveExportsKept || e.name = last then doomed last (kept + 1) es
    else e.name :: doomed last kept es

/-- `pruneMoveExports`, of which `calls` deletions go through. -/
def pruneMoveExports (last : String) (calls : ℕ) (exports : List MoveExport) : List MoveExport :=
  let gone := (doomed last 0 (exports.mergeSort fun a b => decide (b.born ≤ a.born))).take calls
  exports.map fun e => if e.name ∈ gone then { e with deleting := true } else e

/-- `ensureMoveExport`: creates the export once. -/
def ensureMoveExport (name : String) (now : ℕ) (exports : List MoveExport) : List MoveExport :=
  if exports.any fun e => e.name = name then exports
  else exports ++ [⟨name, .pending, now, false⟩]

/-! ### `beginMove` -/

/-- How the calls of `beginMove` end: how many old exports are deleted, and whether the
export is created, is read and the status is saved. -/
structure BeginFates where
  pruned : ℕ
  created : Bool
  got : Bool
  saved : Bool
deriving DecidableEq

/-- How `beginMove` ends: with an error, with the pass, or with the build to render. -/
inductive Outcome where
  | failed
  | stopped
  | renders (effective : String)
deriving DecidableEq

/-- What `beginMove` leaves: the record in memory and as it is saved, and the exports. -/
structure Begun where
  outcome : Outcome
  memory : Option RolloutStatus
  saved : Option RolloutStatus
  exports : List MoveExport
deriving DecidableEq

section machine

variable (component : String) (requestHash : String → String)

/-- The record of a move that begins. -/
def beganFrom (spec : MoveSpec) (ro : RolloutStatus) : RolloutStatus where
  digest := ro.digest
  previous := ro.previous
  target := spec.pin
  phase := .exporting
  exportName := moveExportName requestHash component spec.pin spec.movedAt
  movedAt := spec.movedAt
  movedBy := spec.movedBy

/-- `newTarget` of `beginMove`. -/
def newTarget (spec : MoveSpec) (ro : RolloutStatus) : Bool :=
  ro.target ≠ spec.pin || ro.phase = .unset

/-- `retried` of `beginMove`. -/
def retried (spec : MoveSpec) (ro : RolloutStatus) : Bool :=
  (ro.phase = .rolledBack || ro.phase = .failed) && spec.movedAt ≠ "" &&
    spec.movedAt ≠ ro.movedAt

/-- A pass that ends with the status: the record is saved, or the call fails. -/
def Begun.stop (saves : Bool) (old memory : RolloutStatus) (exports : List MoveExport) : Begun :=
  if saves then ⟨.stopped, some memory, some memory, exports⟩
  else ⟨.failed, some memory, some old, exports⟩

/-- The case of `beginMove` for a move that waits for its export. -/
def awaitExport (spec : MoveSpec) (ro : RolloutStatus) (exports : List MoveExport) (clock time : ℕ)
    (f : BeginFates) : Begun :=
  if !f.got then ⟨.failed, some ro, some ro, exports⟩
  else
    match exports.find? fun e => e.name = ro.exportName with
    | none =>
      if !f.created then ⟨.failed, some ro, some ro, exports⟩
      else .stop f.saved ro ro (ensureMoveExport ro.exportName clock exports)
    | some e =>
      match e.phase with
      | .ready =>
        let rolling := { ro with phase := .rolling, startedAt := some time }
        if f.saved then ⟨.renders spec.pin, some rolling, some rolling, exports⟩
        else ⟨.failed, some rolling, some ro, exports⟩
      | .failed =>
        .stop f.saved ro
          { ro with phase := .failed, reason := .exportFailed, finishedAt := some time } exports
      | _ => .stop f.saved ro ro exports

/-- `beginMove`: which build this pass renders, and what it records before that. -/
def beginMove (spec : MoveSpec) (rollout : Option RolloutStatus) (exports : List MoveExport)
    (clock time : ℕ) (f : BeginFates) : Begun :=
  match rollout with
  | none => ⟨.renders spec.pin, none, none, exports⟩
  | some ro =>
    let exports :=
      if ro.phase.ended then pruneMoveExports ro.exportName f.pruned exports else exports
    if spec.pin = "" ∨ ro.digest = "" ∨ ro.digest = spec.pin then
      ⟨.renders spec.pin, some ro, some ro, exports⟩
    else if newTarget spec ro || retried spec ro then
      let began := beganFrom component requestHash spec ro
      if !f.created then ⟨.failed, some began, some ro, exports⟩
      else .stop f.saved ro began (ensureMoveExport began.exportName clock exports)
    else
      match ro.phase with
      | .exporting => awaitExport spec ro exports clock time f
      | .rolling => ⟨.renders spec.pin, some ro, some ro, exports⟩
      | _ => ⟨.renders ro.digest, some ro, some ro, exports⟩

/-! ### `finishMove` -/

/-- What the check of a rollout finds. -/
inductive Verify where
  | undeclared
  | noRunningPod
  | fails
  | passes
deriving DecidableEq

/-- What `finishMove` reads: the app's workloads that have not rolled out, `none` when
they cannot be listed, and the verification. -/
structure FinishInput where
  pending : Option (List String)
  verify : Verify
deriving DecidableEq

/-- `rollBack`. -/
def rollBack (ro : RolloutStatus) (reason : RolloutReason) (time : ℕ) : RolloutStatus :=
  { ro with phase := .rolledBack, reason, finishedAt := some time }

/-- `awaitMove`: a rollout that is not ready in time is rolled back. -/
def awaitMove (ro : RolloutStatus) (late : Bool) (time : ℕ) : RolloutStatus :=
  if late then rollBack ro .notReadyInTime time else ro

/-- The record when the pinned build has rolled out. -/
def doneWith (spec : MoveSpec) (ro : RolloutStatus) (time : ℕ) : RolloutStatus :=
  { ro with
    previous := ro.digest, digest := spec.pin, phase := .done, reason := .none
    finishedAt := some time }

/-- The case of `finishMove` for a build that is rolling out. -/
def finishRolling (spec : MoveSpec) (ro : RolloutStatus) (ready : Bool) (time : ℕ)
    (i : FinishInput) : Except Unit RolloutStatus :=
  let late := ro.startedAt.any fun started => moveDeadline < time - started
  if !ready then .ok (if late then rollBack ro .notReadyInTime time else ro)
  else
    match i.pending with
    | none => .error ()
    | some pending =>
      if !pending.isEmpty then .ok (awaitMove ro late time)
      else
        match i.verify with
        | .noRunningPod => .ok (awaitMove ro late time)
        | .fails => .ok (rollBack ro .verifyFailed time)
        | .undeclared | .passes => .ok (doneWith spec ro time)

/-- `finishMove`: the record in memory after it. -/
def finishMove (spec : MoveSpec) (rollout : Option RolloutStatus) (effective : String)
    (ready : Bool) (time : ℕ) (i : FinishInput) : Except Unit (Option RolloutStatus) :=
  let first : RolloutStatus :=
    { digest := spec.pin, target := spec.pin, phase := .done, movedAt := spec.movedAt
      movedBy := spec.movedBy, finishedAt := some time }
  if spec.pin = "" then .ok rollout
  else
    match rollout with
    | none => .ok (if ready then some first else none)
    | some ro =>
      if ro.digest = "" then .ok (if ready then some first else some ro)
      else if ro.phase = .rolling ∧ effective = spec.pin then
        (finishRolling spec ro ready time i).map some
      else .ok (some ro)

/-! ### Passes -/

/-- What a pass does between the two: it fails, it stops under a condition, or it comes
to `finishMove` with the release ready or not. -/
inductive Middle where
  | failed
  | stopped
  | reached (ready : Bool)
deriving DecidableEq

/-- What a pass meets: the time, how its calls end, and whether the status is saved at
its end. -/
structure PassInput where
  time : ℕ
  begins : BeginFates
  middle : Middle
  finishes : FinishInput
  saved : Bool
deriving DecidableEq

/-- A component, its exports, and what has been: the number of moves, when the pin was
last changed, when the exports were created that have been ready, and the build that
was replaced last. -/
structure State where
  spec : MoveSpec
  rollout : Option RolloutStatus
  exports : List MoveExport
  clock : ℕ
  pinnedAt : ℕ
  readied : List ℕ
  replaced : String
deriving DecidableEq

/-- The build that an app runs, by its record. -/
def running (rollout : Option RolloutStatus) : String := (rollout.map (·.digest)).getD ""

/-- The record that a pass leaves. -/
def passRecord (s : State) (i : PassInput) : Option RolloutStatus :=
  let b := beginMove component requestHash s.spec s.rollout s.exports s.clock i.time i.begins
  match b.outcome with
  | .failed | .stopped => b.saved
  | .renders effective =>
    match i.middle with
    | .failed => b.saved
    | .stopped => if i.saved then b.memory else b.saved
    | .reached ready =>
      match finishMove s.spec b.memory effective ready i.time i.finishes with
      | .error _ => b.saved
      | .ok memory => if i.saved then memory else b.saved

/-- A pass of `Reconcile`. -/
def pass (s : State) (i : PassInput) : State :=
  let rollout := passRecord component requestHash s i
  { s with
    rollout
    exports := (beginMove component requestHash s.spec s.rollout s.exports s.clock i.time
      i.begins).exports
    replaced := if running rollout ≠ running s.rollout then running s.rollout else s.replaced }

/-- A move: the spec is written, an export comes to a phase or is gone, or a pass runs. -/
inductive Move where
  | write (spec : MoveSpec)
  | exportPhase (name : String) (phase : ExportPhase)
  | exportGone (name : String)
  | pass (i : PassInput)
deriving DecidableEq

/-- What a move leaves, its clock apart. -/
def after (s : State) : Move → State
  | .write spec =>
    { s with spec, pinnedAt := if spec.pin ≠ s.spec.pin then s.clock else s.pinnedAt }
  | .exportPhase name phase =>
    let named := s.exports.filter fun e => e.name = name
    { s with
      exports := s.exports.map fun e => if e.name = name then { e with phase } else e
      readied := s.readied ++ if phase = .ready then named.map (·.born) else [] }
  | .exportGone name => { s with exports := s.exports.filter fun e => e.name ≠ name }
  | .pass i => pass component requestHash s i

/-- One move. -/
def step (s : State) (m : Move) : Option State :=
  some { after component requestHash s m with clock := s.clock + 1 }

/-- A component that has just been installed. -/
def start (spec : MoveSpec) : State := ⟨spec, none, [], 1, 0, [], ""⟩

/-! ### What a pass can do -/

variable {component requestHash} {spec : MoveSpec} {ro : RolloutStatus}
  {exports : List MoveExport} {clock time : ℕ} {f : BeginFates}

/-- The pin names another build than the one that runs. -/
def Moves (spec : MoveSpec) (ro : RolloutStatus) : Prop :=
  spec.pin ≠ "" ∧ ro.digest ≠ "" ∧ ro.digest ≠ spec.pin

/-- The move is a new one: it has another target, or it is asked for again. -/
def Asked (spec : MoveSpec) (ro : RolloutStatus) : Prop :=
  newTarget spec ro = true ∨ retried spec ro = true

/-- What `beginMove` can do: how it ends, and the record that it leaves in memory and
saved. -/
inductive Begins (component : String) (requestHash : String → String) (spec : MoveSpec)
    (ro : RolloutStatus) (exports : List MoveExport) :
    Outcome → RolloutStatus → RolloutStatus → Prop where
  | idle (h : spec.pin = "" ∨ ro.digest = "" ∨ ro.digest = spec.pin) :
      Begins component requestHash spec ro exports (.renders spec.pin) ro ro
  | fails (memory : RolloutStatus) : Begins component requestHash spec ro exports .failed memory ro
  | begins (hmove : Moves spec ro) (hasked : Asked spec ro) :
      Begins component requestHash spec ro exports .stopped
        (beganFrom component requestHash spec ro) (beganFrom component requestHash spec ro)
  | waits : Begins component requestHash spec ro exports .stopped ro ro
  | rolls (hmove : Moves spec ro) (hasked : ¬Asked spec ro) (hphase : ro.phase = .exporting)
      (e : MoveExport) (he : e ∈ exports) (hname : e.name = ro.exportName)
      (hready : e.phase = .ready) (time : ℕ) :
      Begins component requestHash spec ro exports (.renders spec.pin)
        { ro with phase := .rolling, startedAt := some time }
        { ro with phase := .rolling, startedAt := some time }
  | ends (hphase : ro.phase = .exporting) (time : ℕ) :
      Begins component requestHash spec ro exports .stopped
        { ro with phase := .failed, reason := .exportFailed, finishedAt := some time }
        { ro with phase := .failed, reason := .exportFailed, finishedAt := some time }
  | rolling (hmove : Moves spec ro) (hasked : ¬Asked spec ro) (hphase : ro.phase = .rolling) :
      Begins component requestHash spec ro exports (.renders spec.pin) ro ro
  | stays (hmove : Moves spec ro) (hasked : ¬Asked spec ro) (hphase : ro.phase ≠ .rolling) :
      Begins component requestHash spec ro exports (.renders ro.digest) ro ro

/-- A `Begun` whose record is one that `beginMove` can leave. -/
def Begun.Fits (component : String) (requestHash : String → String) (spec : MoveSpec)
    (ro : RolloutStatus) (exports : List MoveExport) (b : Begun) : Prop :=
  ∃ memory saved, b.memory = some memory ∧ b.saved = some saved ∧
    Begins component requestHash spec ro exports b.outcome memory saved

variable {ready : Bool} {i : FinishInput} {memory : RolloutStatus} {s : State}
  {effective : String}

theorem Begun.fits_stop {saves : Bool} {after : List MoveExport}
    (h : Begins component requestHash spec ro exports .stopped memory memory) :
    (Begun.stop saves ro memory after).Fits component requestHash spec ro exports := by
  cases saves with
  | false => exact ⟨memory, ro, rfl, rfl, .fails memory⟩
  | true => exact ⟨memory, memory, rfl, rfl, h⟩

/-- Waiting for the export is one of the things a pass may do. -/
theorem awaitExport_fits (hmove : Moves spec ro) (hasked : ¬Asked spec ro)
    (hphase : ro.phase = .exporting) :
    (awaitExport spec ro exports clock time f).Fits component requestHash spec ro exports := by
  unfold awaitExport
  split
  · exact ⟨ro, ro, rfl, rfl, .fails ro⟩
  split
  · split
    · exact ⟨ro, ro, rfl, rfl, .fails ro⟩
    · exact Begun.fits_stop .waits
  · next e hfind =>
      split
      · next hready =>
          have hname : e.name = ro.exportName := by simpa using List.find?_some hfind
          split
          · exact ⟨_, _, rfl, rfl, .rolls hmove hasked hphase e (List.mem_of_find?_eq_some hfind)
              hname hready time⟩
          · exact ⟨_, ro, rfl, rfl, .fails _⟩
      · exact Begun.fits_stop (.ends hphase time)
      · exact Begun.fits_stop .waits

/-- **What `beginMove` can do** with a record. -/
theorem beginMove_fits :
    (beginMove component requestHash spec (some ro) exports clock time f).Fits component
      requestHash spec ro exports := by
  unfold beginMove
  dsimp only
  by_cases hidle : spec.pin = "" ∨ ro.digest = "" ∨ ro.digest = spec.pin
  · rw [if_pos hidle]
    exact ⟨ro, ro, rfl, rfl, .idle hidle⟩
  rw [if_neg hidle]
  have hmove : Moves spec ro := by simpa [Moves] using hidle
  by_cases hasked : (newTarget spec ro || retried spec ro)
  · rw [if_pos hasked]
    split
    · exact ⟨_, ro, rfl, rfl, .fails _⟩
    · exact Begun.fits_stop (.begins hmove (by simpa [Asked] using hasked))
  rw [if_neg hasked]
  have hasked' : ¬Asked spec ro := by simpa [Asked] using hasked
  cases hphase : ro.phase with
  | exporting => exact awaitExport_fits hmove hasked' hphase
  | rolling => exact ⟨ro, ro, rfl, rfl, .rolling hmove hasked' hphase⟩
  | unset | done | rolledBack | failed =>
    exact ⟨ro, ro, rfl, rfl, .stays hmove hasked' (by simp [hphase])⟩

/-- How a rollout can go on: as it is, back, or done. -/
theorem finishRolling_cases {ro' : RolloutStatus}
    (h : finishRolling spec ro ready time i = .ok ro') :
    ro' = ro ∨ (∃ reason, ro' = rollBack ro reason time) ∨ ro' = doneWith spec ro time := by
  unfold finishRolling at h
  dsimp only at h
  split at h
  · split at h <;> cases h
    · exact .inr (.inl ⟨_, rfl⟩)
    · exact .inl rfl
  split at h
  · cases h
  have hawait : ∀ late, awaitMove ro late time = ro ∨
      ∃ reason, awaitMove ro late time = rollBack ro reason time := by
    rintro (_ | _)
    · exact .inl rfl
    · exact .inr ⟨_, rfl⟩
  split at h
  · cases h
    exact (hawait _).imp_right .inl
  split at h <;> cases h
  · exact (hawait _).imp_right .inl
  · exact .inr (.inl ⟨_, rfl⟩)
  · exact .inr (.inr rfl)
  · exact .inr (.inr rfl)

/-- A record that goes on to roll out, or that is found rolling: as a move to the pinned
build, or with the pin back on the build that runs. -/
inductive Rolls (spec : MoveSpec) (ro : RolloutStatus) (exports : List MoveExport) :
    RolloutStatus → Prop where
  | begins (hmove : Moves spec ro) (hasked : ¬Asked spec ro) (hphase : ro.phase = .exporting)
      (e : MoveExport) (he : e ∈ exports) (hname : e.name = ro.exportName)
      (hready : e.phase = .ready) (time : ℕ) :
      Rolls spec ro exports { ro with phase := .rolling, startedAt := some time }
  | found (hmove : Moves spec ro) (hasked : ¬Asked spec ro) (hphase : ro.phase = .rolling) :
      Rolls spec ro exports ro
  | left (hphase : ro.phase = .rolling) (hback : ro.digest = spec.pin) : Rolls spec ro exports ro

/-- What a pass can make of a record. -/
inductive PassesTo (component : String) (requestHash : String → String) (spec : MoveSpec)
    (ro : RolloutStatus) (exports : List MoveExport) : RolloutStatus → Prop where
  | keeps : PassesTo component requestHash spec ro exports ro
  | begins (hmove : Moves spec ro) (hasked : Asked spec ro) :
      PassesTo component requestHash spec ro exports (beganFrom component requestHash spec ro)
  | ends (hphase : ro.phase = .exporting) (time : ℕ) :
      PassesTo component requestHash spec ro exports
        { ro with phase := .failed, reason := .exportFailed, finishedAt := some time }
  | rolls (ro₁ : RolloutStatus) (h : Rolls spec ro exports ro₁) :
      PassesTo component requestHash spec ro exports ro₁
  | rollsBack (ro₁ : RolloutStatus) (h : Rolls spec ro exports ro₁) (reason : RolloutReason)
      (time : ℕ) : PassesTo component requestHash spec ro exports (rollBack ro₁ reason time)
  | done (ro₁ : RolloutStatus) (h : Rolls spec ro exports ro₁) (time : ℕ) :
      PassesTo component requestHash spec ro exports (doneWith spec ro₁ time)

/-- A pass that renders a build has recorded why. -/
theorem Begins.renders {saved : RolloutStatus} (hd : ro.digest ≠ "")
    (h : Begins component requestHash spec ro exports (.renders effective) memory saved) :
    memory = saved ∧ (memory = ro ∨ Rolls spec ro exports memory) ∧
      (memory.phase = .rolling → effective = spec.pin → spec.pin ≠ "" →
        Rolls spec ro exports memory) := by
  cases h with
  | idle hidle =>
    refine ⟨rfl, .inl rfl, fun hphase _ hpin => ?_⟩
    rcases hidle with h | h | h
    · exact absurd h hpin
    · exact absurd h hd
    · exact .left hphase h
  | rolls hmove hasked hphase e he hname hready time =>
    have hrolls : Rolls spec ro exports { ro with phase := .rolling, startedAt := some time } :=
      .begins hmove hasked hphase e he hname hready time
    exact ⟨rfl, .inr hrolls, fun _ _ _ => hrolls⟩
  | rolling hmove hasked hphase =>
    exact ⟨rfl, .inl rfl, fun _ _ _ => .found hmove hasked hphase⟩
  | stays hmove hasked hphase => exact ⟨rfl, .inl rfl, fun hrolling => absurd hrolling hphase⟩

/-- Rolling out changes the phase alone. -/
theorem Rolls.same {ro1 : RolloutStatus} (h : Rolls spec ro exports ro1) :
    ro1.digest = ro.digest ∧ ro1.target = ro.target ∧ ro1.previous = ro.previous ∧
      ro1.exportName = ro.exportName ∧ ro1.phase = .rolling := by
  cases h with
  | begins => exact ⟨rfl, rfl, rfl, rfl, rfl⟩
  | found _ _ hphase | left hphase => exact ⟨rfl, rfl, rfl, rfl, hphase⟩

/-- What the end of a pass can record. -/
theorem finishMove_cases {memory : Option RolloutStatus} (hd : ro.digest ≠ "")
    (h : finishMove spec (some ro) effective ready time i = .ok memory) :
    memory = some ro ∨ (ro.phase = .rolling ∧ effective = spec.pin ∧ spec.pin ≠ "" ∧
      ((∃ reason, memory = some (rollBack ro reason time)) ∨
        memory = some (doneWith spec ro time))) := by
  unfold finishMove at h
  dsimp only at h
  by_cases hpin : spec.pin = ""
  · rw [if_pos hpin] at h
    cases h
    exact .inl rfl
  rw [if_neg hpin, if_neg hd] at h
  split_ifs at h with hrolling
  · obtain ⟨ro', hro', rfl⟩ := GoErrors.map_eq_ok.1 h
    rcases finishRolling_cases hro' with rfl | ⟨reason, rfl⟩ | rfl
    · exact .inl rfl
    · exact .inr ⟨hrolling.1, hrolling.2, hpin, .inl ⟨reason, rfl⟩⟩
    · exact .inr ⟨hrolling.1, hrolling.2, hpin, .inr rfl⟩
  · cases h
    exact .inl rfl

variable (component requestHash) in
/-- **What a pass can make of a record.** -/
theorem passRecord_cases (i : PassInput) (hro : s.rollout = some ro)
    (hd : ro.digest ≠ "") : ∃ ro', passRecord component requestHash s i = some ro' ∧
      PassesTo component requestHash s.spec ro s.exports ro' := by
  obtain ⟨memory, saved, hmemory, hsaved, hbegins⟩ :
      (beginMove component requestHash s.spec s.rollout s.exports s.clock i.time i.begins).Fits
        component requestHash s.spec ro s.exports := hro ▸ beginMove_fits
  unfold passRecord
  dsimp only
  revert hbegins hmemory hsaved
  generalize beginMove component requestHash s.spec s.rollout s.exports s.clock i.time i.begins = b
  obtain ⟨outcome, -, -, -⟩ := b
  rintro rfl rfl hbegins
  cases outcome with
  | failed =>
    refine ⟨saved, rfl, ?_⟩
    cases hbegins
    exact .keeps
  | stopped =>
    refine ⟨saved, rfl, ?_⟩
    cases hbegins with
    | begins hmove hasked => exact .begins hmove hasked
    | waits => exact .keeps
    | ends hphase time => exact .ends hphase time
  | renders _ =>
    obtain ⟨rfl, hmemory, hrolling⟩ := hbegins.renders hd
    have hpasses : PassesTo component requestHash s.spec ro s.exports memory := by
      rcases hmemory with rfl | h
      · exact .keeps
      · exact .rolls _ h
    have hdigest : memory.digest ≠ "" := by
      rcases hmemory with rfl | h
      · exact hd
      · rwa [h.same.1]
    dsimp only
    cases i.middle with
    | failed => exact ⟨memory, rfl, hpasses⟩
    | stopped => exact ⟨memory, ite_self _, hpasses⟩
    | reached _ =>
      dsimp only
      split
      · exact ⟨memory, rfl, hpasses⟩
      · next _ hfinish =>
          cases i.saved with
          | false => exact ⟨memory, rfl, hpasses⟩
          | true =>
            rcases finishMove_cases hdigest hfinish with
              rfl | ⟨hphase, heff, hpin, ⟨reason, rfl⟩ | rfl⟩
            · exact ⟨memory, rfl, hpasses⟩
            · exact ⟨_, rfl, .rollsBack memory (hrolling hphase heff hpin) reason i.time⟩
            · exact ⟨_, rfl, .done memory (hrolling hphase heff hpin) i.time⟩

variable (component requestHash) in
/-- The first record of a component. -/
theorem passRecord_none (i : PassInput) (hro : s.rollout = none) :
    passRecord component requestHash s i = none ∨ s.spec.pin ≠ "" ∧
      passRecord component requestHash s i = some
        { digest := s.spec.pin, target := s.spec.pin, phase := .done, movedAt := s.spec.movedAt
          movedBy := s.spec.movedBy, finishedAt := some i.time } := by
  unfold passRecord
  rw [hro]
  dsimp only [beginMove]
  cases i.middle with
  | failed => exact .inl rfl
  | stopped => exact .inl (ite_self _)
  | reached ready =>
    unfold finishMove
    dsimp only
    by_cases hpin : s.spec.pin = ""
    · rw [if_pos hpin]
      exact .inl (ite_self _)
    · rw [if_neg hpin]
      cases ready <;> cases i.saved <;> simp [hpin]

end machine

end Gentian.Component
