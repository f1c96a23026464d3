/-
# Pausing the apps of an export

`internal/controller/tenantexport_quiesce.go` and the passes of
`internal/controller/tenantexport_controller.go` as far as they pause and resume apps.
An export captures its apps one after another, each paused meanwhile:

| mode | pause | resume |
| --- | --- | --- |
| `command` | the profile's `pre` command | its `post` command, or else as below |
| `scaleDown` | every workload to zero, with its size as a memo | every workload with a memo to it |
| `none` | nothing | as above |

`status.quiesced` names the apps that are paused: a pass of an export that has ended, or is
being deleted, resumes what it names, and any other pass what it names beside the app it
captures.  A call ends well or fails, and an update may also be carried out with an error for
an answer; so may a command, whose process outlives the call that runs out of time.
-/

import Gentian.Base.GoStrings
import Gentian.Base.Passes
import Gentian.Export.Turns

namespace Gentian.Export

open GoStrings Threads

/-! ### Profiles and workloads -/

/-- `BackupQuiesceMode`. -/
inductive QuiesceMode where
  | scaleDown
  | command
  | none
deriving DecidableEq

/-- `BackupSpec`, of its quiesce block. -/
structure BackupSpec where
  mode : Option QuiesceMode
  pre : List String
  post : List String
deriving DecidableEq

/-- `QuiesceMode`, of a profile that may have no backup block. -/
def quiesceMode (spec : Option BackupSpec) : QuiesceMode :=
  (spec.bind BackupSpec.mode).getD .scaleDown

/-- `QuiesceCommands`: empty unless the mode is `command`. -/
def quiesceCommands (spec : Option BackupSpec) : List String × List String :=
  match spec with
  | some b => if b.mode = some .command then (b.pre, b.post) else ([], [])
  | none => ([], [])

/-- The labels `gentianos.io/app`, `app.kubernetes.io/instance` and
`app.kubernetes.io/name`. -/
structure Labels where
  app : Option String
  inst : Option String
  name : Option String
deriving DecidableEq

/-- The kinds of workloads. -/
inductive WorkloadKind where
  | deployment
  | statefulSet
deriving DecidableEq

/-- A `Deployment` or `StatefulSet`: its name and labels, those of its pods, its replicas
and the memo of its replicas.  `before` is no part of the object: its replicas before
the export. -/
structure Workload where
  kind : WorkloadKind
  name : String
  labels : Labels
  podLabels : Labels
  replicas : Option ℕ
  memo : Option ℕ
  before : ℕ
deriving DecidableEq

/-- `workloadBelongsToApp`. -/
def workloadBelongsToApp (labels : Labels) (objectName app : String) : Bool :=
  labels.app.getD "" = app || labels.inst.any (fun i => hasPrefix i app) ||
    labels.name = some app || objectName = app

/-- Whether a workload is an app's, by its labels or those of its pods. -/
def workloadOfApp (w : Workload) (app : String) : Bool :=
  workloadBelongsToApp w.labels w.name app || workloadBelongsToApp w.podLabels "" app

/-- The replicas of a workload; one unless it states them. -/
def replicasOf (replicas : Option ℕ) : ℕ := replicas.getD 1

/-! ### The status of an export -/

/-- `AppExportStatus`, of the pause. -/
structure AppEntry where
  phase : Phase
  quiesceStart : Bool
  quiesceEnd : Bool
  quiesceMode : Option QuiesceMode
deriving DecidableEq

/-- `TenantExportStatus`: the entry of each app, which is pending when there is none. -/
structure ExportStatus where
  phase : Phase
  started : Bool
  quiesced : List String
  apps : String → AppEntry

namespace ExportStatus

/-- The status of a new export. -/
def fresh : ExportStatus := ⟨.unset, false, [], fun _ => ⟨.pending, false, false, none⟩⟩

/-- An export that has ended. -/
def isTerminal (st : ExportStatus) : Bool := st.phase = .ready || st.phase = .failed

/-- The status with the entry of one app changed. -/
def setEntry (st : ExportStatus) (app : String) (f : AppEntry → AppEntry) : ExportStatus :=
  { st with apps := Function.update st.apps app (f (st.apps app)) }

/-- `markQuiesced`. -/
def mark (st : ExportStatus) (app : String) : ExportStatus :=
  { st with quiesced := if st.quiesced.contains app then st.quiesced else st.quiesced ++ [app] }

/-- `unmarkQuiesced`. -/
def unmark (st : ExportStatus) (app : String) : ExportStatus :=
  { st with quiesced := st.quiesced.filter fun a => a ≠ app }

/-- The first app that has not been captured. -/
def nextPendingApp (st : ExportStatus) (want : List String) : Option String :=
  want.find? fun app => (st.apps app).phase ≠ .ready

/-- The status once an app is paused. -/
def paused (st : ExportStatus) (app : String) (mode : QuiesceMode) : ExportStatus :=
  (st.setEntry app fun e =>
    { e with quiesceStart := true, quiesceMode := some mode, phase := .running }).mark app

end ExportStatus

/-! ### Calls -/

/-- The commands a profile can have around a capture. -/
inductive Hook where
  | pre
  | post
deriving DecidableEq

/-- What objects outside the model say: an error, a reason to fail the export, to wait,
or to go on, with the apps to capture and those among them that are uninstalled. -/
inductive Verdict where
  | error
  | fail
  | wait
  | go (apps retained : List String)
deriving DecidableEq

/-- The calls of a pass: the export is read; objects outside the model are asked; the
profile of an app is looked for; workloads are listed, to be paused or resumed, and
updated; a command is run; the status is written; and the finalizer is set or
removed. -/
inductive Call where
  | get
  | ask
  | spec (app : String)
  | list (kind : WorkloadKind) (pausing : Bool)
  | update (index : ℕ) (w : Workload)
  | exec (app : String) (hook : Hook)
  | putStatus (st : ExportStatus)
  | putFinalizer (present : Bool)

/-- The answer to a call.  An export is read with whether it has the finalizer and is
being deleted. -/
@[reducible] def Call.Answer : Call → Type
  | .get => Option (ExportStatus × Bool × Bool)
  | .ask => Verdict
  | .spec _ => Option (Option BackupSpec)
  | .list _ _ => Option (List (Workload × ℕ))
  | .update _ _ | .exec _ _ | .putStatus _ | .putFinalizer _ => Bool

/-- A pass of the reconciler. -/
abbrev PassOf := Act Call Call.Answer Unit

/-- One call of the API. -/
def call (i : Call) : PassOf i.Answer := Act.call i

/-- `Get` of the export. -/
def getExport : PassOf (Option (ExportStatus × Bool × Bool)) := call .get

/-- What the run is told to do next. -/
def ask : PassOf Verdict := call .ask

/-- `resolveProfile` and `profileBackupSpec`, `none` when the profile is not found. -/
def resolveSpec (app : String) : PassOf (Option (Option BackupSpec)) := call (.spec app)

/-- `List` of the workloads of a kind. -/
def listWorkloads (kind : WorkloadKind) (pausing : Bool) : PassOf (Option (List (Workload × ℕ))) :=
  call (.list kind pausing)

/-- `Update` of a workload. -/
def updateWorkload (index : ℕ) (w : Workload) : PassOf Bool := call (.update index w)

/-- `execAppCommand`, with whether the command succeeded. -/
def execAppCommand (app : String) (hook : Hook) : PassOf Bool := call (.exec app hook)

/-- A call that the pass cannot go on without. -/
def must (x : PassOf Bool) : PassOf Unit := do
  if ← x then pure () else throw ()

/-! ### Scaling -/

/-- `scaleOne`, to a size or, for `none`, to the memo. -/
def scaleOne (target : Option ℕ) (entry : Workload × ℕ) : PassOf Unit :=
  let (w, index) := entry
  match target with
  | some n => must (updateWorkload index
      { w with replicas := some n, memo := some (w.memo.getD (replicasOf w.replicas)) })
  | none =>
    match w.memo with
    | none => pure ()
    | some n => must (updateWorkload index { w with replicas := some n, memo := none })

/-- The workloads scaled one after the other. -/
def scaleEach (target : Option ℕ) : List (Workload × ℕ) → PassOf Unit
  | [] => pure ()
  | entry :: rest => do
    scaleOne target entry
    scaleEach target rest

/-- The workloads of one kind, and how many of them are the app's. -/
def scaleKind (app : String) (target : Option ℕ) (kind : WorkloadKind) : PassOf ℕ := do
  match ← listWorkloads kind target.isSome with
  | none => throw ()
  | some listed =>
    let mine := listed.filter fun entry => workloadOfApp entry.1 app
    scaleEach target mine
    return mine.length

/-- `scaleAppWorkloads`.  A pause that reached no workload is refused. -/
def scaleAppWorkloads (app : String) (target : Option ℕ) : PassOf Unit := do
  let deployments ← scaleKind app target .deployment
  let statefulSets ← scaleKind app target .statefulSet
  if target.isSome && deployments + statefulSets = 0 then throw () else pure ()

/-! ### Pausing and resuming -/

/-- The fallback of `quiesceApp`. -/
def scaleDown (app : String) : PassOf QuiesceMode := do
  scaleAppWorkloads app (some 0)
  return .scaleDown

/-- `quiesceApp`, of an operator that can run commands or cannot. -/
def quiesceApp (canExec : Bool) (app : String) (spec : Option BackupSpec) : PassOf QuiesceMode :=
  if quiesceMode spec = .none then pure .none
  else if (quiesceCommands spec).1 ≠ [] && canExec then do
    if ← execAppCommand app .pre then pure .command else scaleDown app
  else scaleDown app

/-- `unquiesceApp`. -/
def unquiesceApp (canExec : Bool) (app : String) (spec : Option BackupSpec) (used : QuiesceMode) :
    PassOf Unit :=
  if used = .command && (quiesceCommands spec).2 ≠ [] && canExec then do
    if ← execAppCommand app .post then pure () else scaleAppWorkloads app none
  else scaleAppWorkloads app none

/-- `resumeQuiescedApp`.  The mode is recorded with the pause; without one it is
`scaleDown`. -/
def resumeQuiescedApp (canExec : Bool) (app : String) (recorded : Option QuiesceMode) :
    PassOf Unit := do
  let spec ← resolveSpec app
  unquiesceApp canExec app spec.join (recorded.getD .scaleDown)

/-- The status written. -/
def persist (st : ExportStatus) : PassOf Unit := must (call (.putStatus st))

/-- The loop of `resumeAll` and `resumeStale` over apps. -/
def resumeEach (canExec : Bool) (st : ExportStatus) : List String → PassOf ExportStatus
  | [] => pure st
  | app :: rest => do
    resumeQuiescedApp canExec app (st.apps app).quiesceMode
    resumeEach canExec (st.unmark app) rest

/-- `resumeAll`. -/
def resumeAll (canExec : Bool) (st : ExportStatus) : PassOf Unit :=
  if st.quiesced = [] then pure ()
  else do
    let st ← resumeEach canExec st st.quiesced
    persist st

/-- `resumeStale`: what is paused is resumed, the app under way apart. -/
def resumeStale (canExec : Bool) (st : ExportStatus) (current : Option String) :
    PassOf ExportStatus :=
  let stale := st.quiesced.filter fun app => some app ≠ current
  if stale = [] then pure st
  else do
    let st ← resumeEach canExec st stale
    persist st
    return st

/-! ### The pass -/

/-- `fail`. -/
def failExport (st : ExportStatus) : PassOf Unit := persist { st with phase := .failed }

/-- `failApp`: the app is resumed before the failure is recorded. -/
def failApp (canExec : Bool) (st : ExportStatus) (app : String) : PassOf Unit := do
  resumeQuiescedApp canExec app (st.apps app).quiesceMode
  failExport ((st.unmark app).setEntry app fun e =>
    { e with quiesceEnd := e.quiesceEnd || e.quiesceStart, phase := .failed })

/-- `captureApp` once the Jobs of the app have ended: it is resumed, and its secrets are
put into the bundle. -/
def captureDone (canExec : Bool) (st : ExportStatus) (app : String) : PassOf Unit := do
  resumeQuiescedApp canExec app (st.apps app).quiesceMode
  let st := st.setEntry app fun e => { e with quiesceEnd := true, phase := .ready }
  match ← ask with
  | .fail => failApp canExec st app
  | .error | .wait => persist (st.setEntry app fun e => { e with phase := .running })
  | .go _ _ => persist (st.unmark app)

/-- `captureApp` once the app is paused. -/
def capturePaused (canExec : Bool) (st : ExportStatus) (app : String) : PassOf Unit := do
  match ← ask with
  | .error => throw ()
  | .fail => failApp canExec st app
  | .wait => persist st
  | .go _ _ => captureDone canExec st app

/-- `captureApp` of an app that is not paused yet. -/
def capturePause (canExec : Bool) (st : ExportStatus) (app : String) (spec : Option BackupSpec) :
    PassOf Unit := do
  match ← (quiesceApp canExec app spec).attempt with
  | .error _ => failApp canExec st app
  | .ok mode =>
    persist (st.paused app mode)
    capturePaused canExec (st.paused app mode) app

/-- `captureApp`. -/
def captureApp (canExec : Bool) (st : ExportStatus) (app : String) : PassOf Unit := do
  match ← resolveSpec app with
  | none => throw ()
  | some spec =>
    if (st.apps app).quiesceStart then capturePaused canExec st app
    else capturePause canExec st app spec

/-- `captureRetained`, which pauses nothing. -/
def captureRetained (st : ExportStatus) (app : String) : PassOf Unit := do
  match ← ask with
  | .error => throw ()
  | .fail => failExport (st.setEntry app fun e => { e with phase := .failed })
  | .wait => persist (st.setEntry app fun e => { e with phase := .running })
  | .go _ _ => persist (st.setEntry app fun e => { e with phase := .ready })

/-- `captureTenantWide` and `complete`. -/
def finishExport (st : ExportStatus) : PassOf Unit := do
  match ← ask with
  | .error => throw ()
  | .fail => failExport st
  | .wait => persist st
  | .go _ _ => persist { st with phase := .ready }

/-- `Reconcile` from the app set on. -/
def captureNext (canExec : Bool) (st : ExportStatus) (apps retained : List String) :
    PassOf Unit := do
  let current := st.nextPendingApp apps
  let st ← resumeStale canExec st current
  match current with
  | none => finishExport st
  | some app =>
    if retained.contains app then captureRetained st app else captureApp canExec st app

/-- `Reconcile` once the export holds the tenant: it is started, unless it has been, and
what it needs is resolved. -/
def capture (canExec : Bool) (st : ExportStatus) : PassOf Unit := do
  match ← ask with
  | .error | .wait => throw ()
  | .fail => failExport st
  | .go apps retained => captureNext canExec st apps retained

/-- `Reconcile` of an export that has not ended: the tenant is looked for, and another
run may hold it. -/
def reconcileRunning (canExec : Bool) (st : ExportStatus) : PassOf Unit := do
  match ← ask with
  | .error => throw ()
  | .fail => failExport st
  | .wait => persist { st with phase := .pending }
  | .go _ _ =>
    if st.started then capture canExec st
    else do
      persist { st with phase := .running, started := true }
      capture canExec { st with phase := .running, started := true }

/-- What follows the resume of an ended or deleted export: Jobs are stopped, and Secrets
and bundles removed. -/
def cleanUp : PassOf Unit := do
  match ← ask with
  | .go _ _ => pure ()
  | .error | .fail | .wait => throw ()

/-- The finalizer: all is resumed before the object goes. -/
def finalize (canExec : Bool) (st : ExportStatus) : PassOf Unit := do
  resumeAll canExec st
  cleanUp
  must (call (.putFinalizer false))

/-- `Reconcile`, with whether it was of an export that had ended. -/
def reconcile (canExec : Bool) : PassOf Bool := do
  match ← getExport with
  | none => return false
  | some (st, finalizer, deleting) =>
    if deleting then do
      if finalizer then finalize canExec st else pure ()
      return false
    else do
      if finalizer then pure () else must (call (.putFinalizer true))
      if st.isTerminal then do
        resumeAll canExec st
        cleanUp
        return true
      else do
        reconcileRunning canExec st
        return false

/-! ### The machine -/

/-- The workloads, the export, and what the results are about: the apps whose `pre`
command succeeded and that have not come out of maintenance since, those of them whose
`post` command failed, and whether the export was finalized or reconciled without an
error after it had ended. -/
structure Scene where
  workloads : List Workload
  status : ExportStatus
  finalizer : Bool
  gone : Bool
  owing : List String
  refused : List String
  closed : Bool

/-- The workloads before any export. -/
def Scene.start (workloads : List Workload) : Scene :=
  { workloads := workloads.map fun w => { w with memo := none, before := replicasOf w.replicas }
    status := .fresh
    finalizer := false
    gone := false
    owing := []
    refused := []
    closed := false }

/-- Whether an update of a workload scales the app back up. -/
def Scene.raises (s : Scene) (index : ℕ) (w : Workload) (app : String) : Bool :=
  s.workloads[index]?.any fun old => old.memo.isSome && w.memo.isNone && workloadOfApp old app

/-- A workload is updated.  An app whose `post` command failed comes out of maintenance
when it is scaled back up. -/
def Scene.write (s : Scene) (index : ℕ) (w : Workload) : Scene :=
  { s with
    workloads := s.workloads.modify index fun old =>
      { old with replicas := w.replicas, memo := w.memo }
    owing := s.owing.filter fun app => !(s.refused.contains app && s.raises index w app) }

/-- The scene when a hook has run. -/
def Scene.ran (s : Scene) (app : String) : Hook → Scene
  | .pre => { s with
      owing := app :: s.owing
      refused := s.refused.filter fun a => a ≠ app }
  | .post => { s with owing := s.owing.filter fun a => a ≠ app }

/-- The scene when a hook has failed. -/
def Scene.failed (s : Scene) (app : String) : Hook → Scene
  | .pre => s
  | .post => { s with refused := app :: s.refused }

/-- How a call ends: well, not at all, or carried out with an error for an answer; or with
what objects outside the model say. -/
inductive Fate where
  | ok
  | fails
  | lost
  | spec (found : Option (Option BackupSpec))
  | verdict (v : Verdict)
deriving DecidableEq

/-- One call, of an export that is being deleted or is not.  An object that is deleted
without a finalizer is gone. -/
def execCall (i : Call) (f : Fate) (s : Scene) (deleting : Bool) : Option (i.Answer × Scene) :=
  match i, f with
  | .get, .ok =>
    if s.gone || (deleting && !s.finalizer) then some (none, { s with gone := true })
    else some (some (s.status, s.finalizer, deleting), s)
  | .get, .fails => some (none, s)
  | .ask, .verdict v => some (v, s)
  | .spec _, .spec found => some (found, s)
  | .list kind _, .ok => some (some (s.workloads.zipIdx.filter fun e => e.1.kind = kind), s)
  | .list _ _, .fails => some (none, s)
  | .update index w, .ok => some (true, s.write index w)
  | .update index w, .lost => some (false, s.write index w)
  | .update _ _, .fails => some (false, s)
  | .exec app hook, .ok => some (true, s.ran app hook)
  | .exec app hook, .lost => some (false, s.ran app hook)
  | .exec app hook, .fails => some (false, s.failed app hook)
  | .putStatus st, .ok => if s.gone then some (false, s) else some (true, { s with status := st })
  | .putStatus st, .lost => if s.gone then some (false, s) else some (false, { s with status := st })
  | .putStatus _, .fails => some (false, s)
  | .putFinalizer true, .ok =>
    if s.gone || deleting then some (false, s) else some (true, { s with finalizer := true })
  | .putFinalizer false, .ok =>
    some (true, { s with finalizer := false, gone := true, closed := true })
  | .putFinalizer false, .lost =>
    some (false, { s with finalizer := false, gone := true, closed := true })
  | .putFinalizer _, .fails => some (false, s)
  | _, _ => none

/-- The passes of the export.  It can be deleted at any time. -/
def exportLoop (canExec : Bool) :
    Passes.Loop Scene Bool Call Call.Answer (Except Unit Bool) Fate Unit where
  pass := (reconcile canExec).run
  exec := execCall
  finish := fun r s => if r = .ok true then { s with closed := true } else s
  env := fun _ _ => some true

/-- An export that no pass has seen yet. -/
def exportStart (workloads : List Workload) :
    Passes.State Scene Bool Call Call.Answer (Except Unit Bool) :=
  ⟨.start workloads, false, none⟩

/-- Every workload has the replicas it had before the export and no memo, and every app
has come out of maintenance. -/
structure AllResumed (s : Scene) : Prop where
  scaled : ∀ w ∈ s.workloads, w.memo = none ∧ replicasOf w.replicas = w.before
  hooked : s.owing = []

/-- **No app is left paused** by an export that is over. -/
def NoneLeftPaused (s : Scene) : Prop := s.closed = true → AllResumed s

/-- The status names what is paused: an app of every workload with a memo that was not
paused by a command, and every app in maintenance as paused by a command. -/
structure RecordedIn (st : ExportStatus) (s : Scene) : Prop where
  scaled : ∀ w ∈ s.workloads, w.memo ≠ none → ∃ app ∈ st.quiesced,
    workloadOfApp w app = true ∧ (st.apps app).quiesceMode ≠ some .command
  hooked : ∀ app ∈ s.owing, app ∈ st.quiesced ∧ (st.apps app).quiesceMode = some .command

/-- What is considered of a call: it fails only while the status that is stored names what
is paused, unless it is itself a call of a pause; a `pre` command that is reported as failed
was not carried out; and an app in maintenance has a `post` command, which is carried out. -/
def pauseRecorded (i : Call) (f : Fate) (s : Scene) : Prop :=
  match i, f with
  | .list _ true, _ => True
  | .update _ w, .fails => w.memo ≠ none ∨ RecordedIn s.status s
  | .update _ w, .lost => w.memo ≠ none ∨ RecordedIn s.status s
  | .exec _ .pre, .lost => False
  | .exec _ .pre, _ => True
  | .exec _ .post, .lost => True
  | .exec app .post, .fails => app ∉ s.owing
  | .spec app, .spec found => app ∈ s.owing → (quiesceCommands found.join).2 ≠ []
  | _, .fails | _, .lost => RecordedIn s.status s
  | _, _ => True

end Gentian.Export
