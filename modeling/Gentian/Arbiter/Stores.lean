/-
# The arbiter's stores and the record of them

`internal/arbiter/stores.go` (`Stores.lock`, `load`, `Resolve`, `platformTuples`,
`tupleDiff`, `Restore`, `Export`, `Purge`), `recorder.go` (`ConfigMapRecorder.change`,
`Claim`, `Save`, `Forget`), `table.go` (`Entry.StoreName`, `recordKey`) and `openfga.go`
(`createStore`, `deleteStore`, `writeModel`, `writeTuples`, `readAll`, `readModel`), over any
number of processes, one ConfigMap and one OpenFGA instance.

A call to either server is one step and can fail, or take effect and fail (`Fate`).  Each
process holds the record as it loaded it once, and a lock per entry.
-/

import Gentian.Api.Names
import Gentian.Base.Collections
import Gentian.Base.Threads
import Gentian.OpenFGA.Store

namespace Gentian.Arbiter

open Threads OpenFGA Api GoStrings

/-- A tenant's component: what `ParseTable` and `storeRef` admit. -/
structure Ref where
  tenant : String
  component : String
  tenant_label : dnsLabel tenant = true
  component_label : dnsLabel component = true
deriving DecidableEq

/-- `recordKey`: the key a component's store is recorded under. -/
def Ref.recordKey (r : Ref) : String := r.tenant ++ "." ++ r.component

/-- **No two components share a key**: a dot is in neither name. -/
theorem Ref.recordKey_inj {r r' : Ref} (h : r.recordKey = r'.recordKey) : r = r' := by
  obtain ⟨t, c, ht, hc⟩ := r
  obtain ⟨t', c', ht', hc'⟩ := r'
  obtain ⟨rfl, rfl⟩ := append_inj (show ".".toList = ['.'] by decide)
    (not_mem_of_dnsLabel ht (by decide)) (not_mem_of_dnsLabel ht' (by decide))
    (by simpa only [Ref.recordKey, String.append_assoc] using h)
  rfl

/-- `Entry`: a store of the table.  `StoreName` is the component's name. -/
structure Entry where
  ref : Ref
  /-- the compiled model -/
  model : String
  realm : String
  mirrorGroups : Bool
  tuples : List Tuple
deriving DecidableEq

/-- `StoreIDs`: a store by the order it was made in, and a model of it by the order it was
written in. -/
structure StoreIDs where
  store : ℕ
  model : Option ℕ
  digest : String
  /-- the starting tuples the platform wrote -/
  written : List Tuple
  /-- the store holds the realm's group memberships -/
  mirrored : Bool
deriving DecidableEq

/-- A store that has no model yet and nothing written to it. -/
def StoreIDs.ofStore (store : ℕ) : StoreIDs := ⟨store, none, "", [], false⟩

/-- The data of `StoresConfigMap`. -/
abbrev Record := AList fun _ : String => StoreIDs

/-- A store that was made, whom for, and what is in it until it is deleted. -/
structure Made where
  ref : Ref
  /-- the call that made it -/
  maker : Option ℕ
  models : List String
  /-- its tuples, until it is deleted -/
  content : Option Store
deriving DecidableEq

/-- `Stores`: what one process holds. -/
structure Process where
  loaded : Bool
  ids : Record
  /-- the entries that are locked -/
  locked : List String

/-- The stores, in the order they were made, the ConfigMap with its version, and the
processes. -/
structure World where
  made : List Made
  version : ℕ
  record : Record
  procs : ℕ → Process
  /-- what each component wrote itself and did not delete: no call asks -/
  own : Ref → List Tuple

/-- What becomes of a call of OpenFGA or of the record. -/
inductive Outcome where
  | done
  /-- it fails and changes nothing -/
  | failed
  /-- it takes effect and fails -/
  | lost
deriving DecidableEq

/-- What an update of the record answers. -/
inductive Updated where
  | done
  | conflict
  | failed
deriving DecidableEq

/-- What a call does, one operation at a time. -/
inductive Op where
  /-- `Stores.load` -/
  | load
  | lock (key : String)
  | unlock (key : String)
  | get (key : String)
  | set (key : String) (ids : StoreIDs)
  /-- `delete(s.ids, key)` -/
  | drop (key : String)
  | createStore (ref : Ref)
  | deleteStore (id : ℕ)
  | writeModel (id : ℕ) (model : String)
  | readModel (id : ℕ) (model : Option ℕ)
  /-- a request of the platform -/
  | request (id : ℕ) (r : Request)
  /-- a request of the component -/
  | exchange (ref : Ref) (id : ℕ) (writes deletes : List Tuple)
  | read (id : ℕ) (filter : Tuple)
  | readRecord
  | updateRecord (version : ℕ) (data : Record)

/-- What an operation answers. -/
@[reducible] def Op.Ans : Op → Type
  | .load | .deleteStore _ | .request _ _ | .exchange _ _ _ _ => Bool
  | .lock _ | .unlock _ | .set _ _ | .drop _ => Unit
  | .get _ => Option StoreIDs
  | .createStore _ | .writeModel _ _ => Option ℕ
  | .readModel _ _ => Option String
  | .read _ _ => Option (List Tuple)
  | .readRecord => Option (ℕ × Record)
  | .updateRecord _ _ => Updated

/-- Where a call failed. -/
inductive Err where
  /-- `read the recorded stores` -/
  | load
  /-- `create the store` -/
  | create
  /-- `record the store`, `record the model`, `record the starting tuples`, or `Forget` -/
  | record
  /-- `delete the store` -/
  | delete
  /-- `write the model`, or the model could not be read -/
  | model
  /-- the tuples could not be written or read -/
  | tuples
  /-- a refusal, with its status and message -/
  | refused (status : ℕ) (message : String)
deriving DecidableEq

/-! ### What a step does -/

/-- The answer and the state after a step that leads to `w'` if it takes effect. -/
def Outcome.apply {α : Type} (f : Outcome) (ok bad : α) (w w' : World) : α × World :=
  match f with
  | .done => (ok, w')
  | .failed => (bad, w)
  | .lost => (bad, w')

/-- The world with one store changed. -/
def World.onStore (w : World) (id : ℕ) (g : Made → Made) : World :=
  { w with made := w.made.modify id g }

/-- The world with one process changed. -/
def World.onProc (w : World) (p : ℕ) (g : Process → Process) : World :=
  { w with procs := fun q => if q = p then g (w.procs q) else w.procs q }

/-- The record replaced, under a new version. -/
def World.update (w : World) (data : Record) : World :=
  { w with version := w.version + 1, record := data }

/-- The state after a component wrote and deleted tuples of its own. -/
def World.credit (w : World) (ref : Ref) (ts : List Tuple) : World :=
  { w with own := fun r => if r = ref then ts else w.own r }

/-- A store that has not been deleted, with its tuples. -/
def World.live (w : World) (id : ℕ) : Option (Made × Store) :=
  w.made[id]?.bind fun m => m.content.map fun s => (m, s)

/-- A component's request: writes and deletes in one, and OpenFGA refuses what does not
fit. -/
def exchanged (s : Store) (writes deletes : List Tuple) : Option Store :=
  if deletes.Nodup ∧ (∀ t ∈ deletes, t ∈ s) ∧ ∀ t ∈ writes, t ∉ s then
    (s.without deletes).serve (.writes writes)
  else none

/-- A step of the call that began as the `j`-th, in process `p`. -/
def exec (p j : ℕ) : (i : Op) → Outcome → World → Option (i.Ans × World)
  | .load, f, w =>
    if (w.procs p).loaded then some (true, w)
    else match f with
      | .done => some (true, w.onProc p fun q => { q with loaded := true, ids := w.record })
      | _ => some (false, w)
  | .lock key, _, w =>
    if key ∈ (w.procs p).locked then none
    else some ((), w.onProc p fun q => { q with locked := key :: q.locked })
  | .unlock key, _, w => some ((), w.onProc p fun q => { q with locked := q.locked.erase key })
  | .set key ids, _, w => some ((), w.onProc p fun q => { q with ids := q.ids.insert key ids })
  | .drop key, _, w => some ((), w.onProc p fun q => { q with ids := q.ids.erase key })
  | .get key, _, w => some ((w.procs p).ids.lookup key, w)
  | .createStore ref, f, w =>
    let w' := { w with made := w.made ++ [⟨ref, some j, [], some .empty⟩] }
    some (f.apply (some w.made.length) none w w')
  | .deleteStore id, f, w =>
    some (f.apply true false w (w.onStore id fun m => { m with content := none }))
  | .writeModel id model, f, w =>
    match w.live id with
    | some (m, _) => some (f.apply (some m.models.length) none w
        (w.onStore id fun m => { m with models := m.models ++ [model] }))
    | none => some (none, w)
  | .readModel id model, f, w =>
    some (if f = .done then (w.live id).bind fun m => model.bind fun n => m.1.models[n]?
      else none, w)
  | .request id r, f, w =>
    match (w.live id).bind fun m => m.2.serveIgnoring r with
    | some s => some (f.apply true false w (w.onStore id fun m => { m with content := some s }))
    | none => some (false, w)
  | .exchange ref id writes deletes, f, w =>
    match (w.live id).bind fun m => exchanged m.2 writes deletes with
    | some s => some (f.apply true false w
        ((w.onStore id fun m => { m with content := some s }).credit ref
          ((w.own ref).filter (fun t => decide (t ∉ deletes)) ++ writes)))
    | none => some (false, w)
  | .read id filter, f, w =>
    some (if f = .done then (w.live id).map fun m => m.2.read filter else none, w)
  | .readRecord, f, w => some (if f = .done then some (w.version, w.record) else none, w)
  | .updateRecord version data, f, w =>
    if f = .failed then some (.failed, w)
    else if version = w.version then
      some (if f = .done then .done else .failed, w.update data)
    else some (if f = .done then .conflict else .failed, w)

/-! ### The programs -/

/-- A call on the stores. -/
abbrev Run := Act Op Op.Ans Err

/-- One operation. -/
def call (i : Op) : Run i.Ans := Act.call i

/-- `if err := …; err != nil { return err }`. -/
def must (i : Run Bool) (e : Err) : Run Unit := do
  if ← i then pure () else throw e

/-- An answer, or the error where there is none. -/
def need {α : Type} (x : Run (Option α)) (e : Err) : Run α := do
  match ← x with
  | some a => pure a
  | none => throw e

/-- `Stores.lock`, with the deferred unlock. -/
def locked {α : Type} (key : String) (x : Run α) : Run α := do
  must (call .load) .load
  call (.lock key)
  let r ← x.attempt
  call (.unlock key)
  match r with
  | .ok a => pure a
  | .error e => throw e

/-- `ConfigMapRecorder.change`, for so many attempts: `retry.DefaultRetry` allows five.
`edit` answers with what there is to write, if anything. -/
def change {β : Type} (edit : Record → β × Option Record) : ℕ → Run β
  | 0 => throw .record
  | n + 1 => do
    let (version, data) ← need (call .readRecord) .record
    match edit data with
    | (b, none) => pure b
    | (b, some data) =>
      match ← call (.updateRecord version data) with
      | .done => pure b
      | .conflict => change edit n
      | .failed => throw .record

/-- `retry.DefaultRetry`. -/
def retrySteps : ℕ := 5

/-- The edit of `Claim`. -/
def claimEdit (key : String) (ids : StoreIDs) (data : Record) : StoreIDs × Option Record :=
  match data.lookup key with
  | some existing => (existing, none)
  | none => (ids, some (data.insert key ids))

/-- `Claim`. -/
def claim (key : String) (ids : StoreIDs) : Run StoreIDs := change (claimEdit key ids) retrySteps

/-- The edit of `Save`. -/
def saveEdit (key : String) (ids : StoreIDs) (data : Record) : Unit × Option Record :=
  ((), if data.lookup key = some ids then none else some (data.insert key ids))

/-- `Save`. -/
def save (key : String) (ids : StoreIDs) : Run Unit := change (saveEdit key ids) retrySteps

/-- The edit of `Forget`. -/
def forgetEdit (key : String) (data : Record) : Unit × Option Record :=
  ((), if data.lookup key = none then none else some (data.erase key))

/-- `Forget`. -/
def forget (key : String) : Run Unit := change (forgetEdit key) retrySteps

/-- The requests of a `Write`, until one fails. -/
def sendAll (id : ℕ) : List Request → Run Unit
  | [] => pure ()
  | r :: rs => do
    must (call (.request id r)) .tuples
    sendAll id rs

/-- `writeTuples`: the deletes and the writes, in requests of the limit's size. -/
def writeTuples (id : ℕ) (writes deletes : List Tuple) : Run Unit :=
  sendAll id (requests writes deletes)

/-- `tupleDiff`: what turns `had` into `want`. -/
def tupleDiff (had want : List Tuple) : List Tuple × List Tuple :=
  (want.filter fun t => decide (t ∉ had), had.filter fun t => decide (t ∉ want))

/-- The filter that every membership answers. -/
def everyMember : Tuple := ⟨"", "member", "group:"⟩

/-- The part of `platformTuples` that takes the memberships out of a store. -/
def unmirror (id : ℕ) : Run Unit := do
  let members ← need (call (.read id everyMember)) .tuples
  writeTuples id [] members

/-- `platformTuples`: the tuples of the platform brought up to those of the table. -/
def platformTuples (e : Entry) (ids : StoreIDs) : Run StoreIDs :=
  let diff := tupleDiff ids.written e.tuples
  let leaves := ids.mirrored && !e.mirrorGroups
  if diff.1 = [] ∧ diff.2 = [] ∧ leaves = false ∧ ids.mirrored = e.mirrorGroups then pure ids
  else do
    writeTuples ids.store diff.1 diff.2
    if leaves then unmirror ids.store else pure ()
    let ids := { ids with written := e.tuples, mirrored := e.mirrorGroups }
    save e.ref.recordKey ids
    call (.set e.ref.recordKey ids)
    pure ids

/-- `_ = s.fga.deleteStore(ctx, id)`. -/
def discard (id : ℕ) : Run Unit := do
  let _ ← call (.deleteStore id)
  pure ()

/-- The part of `Resolve` that makes a store for an entry that has none. -/
def createFor (e : Entry) : Run StoreIDs := do
  let created ← need (call (.createStore e.ref)) .create
  match ← (claim e.ref.recordKey (.ofStore created)).attempt with
  | .error err => do
    discard created
    throw err
  | .ok ids => do
    if ids.store = created then pure () else discard created
    call (.set e.ref.recordKey ids)
    pure ids

/-- The part of `Resolve` that writes the entry's model when it is another than the last
one; `sum` is `ModelDigest`. -/
def writeModelOf (sum : String → String) (e : Entry) (ids : StoreIDs) : Run StoreIDs :=
  if ids.model = none ∨ ids.digest ≠ sum e.model then do
    let model ← need (call (.writeModel ids.store e.model)) .model
    let ids := { ids with model := some model, digest := sum e.model }
    save e.ref.recordKey ids
    call (.set e.ref.recordKey ids)
    pure ids
  else pure ids

/-- The part of `Resolve` that finds or makes the entry's store. -/
def storeFor (e : Entry) : Run StoreIDs := do
  match ← call (.get e.ref.recordKey) with
  | some ids => pure ids
  | none => createFor e

/-- `Stores.Resolve` under its lock. -/
def resolveLocked (sum : String → String) (e : Entry) : Run StoreIDs := do
  let ids ← storeFor e
  let ids ← writeModelOf sum e ids
  platformTuples e ids

/-- `Stores.Resolve`. -/
def resolve (sum : String → String) (e : Entry) : Run StoreIDs :=
  locked e.ref.recordKey (resolveLocked sum e)

/-- The part of `Restore` and `Purge` that deletes a store with its record. -/
def removeStore (key : String) (id : ℕ) : Run Unit := do
  must (call (.deleteStore id)) .delete
  forget key
  call (.drop key)

/-- `Stores.Purge` under its lock, which is how `Restore` begins. -/
def purgeLocked (ref : Ref) : Run Unit := do
  match ← call (.get ref.recordKey) with
  | some ids => removeStore ref.recordKey ids.store
  | none => pure ()

/-- `Stores.Purge`. -/
def purge (ref : Ref) : Run Unit := locked ref.recordKey (purgeLocked ref)

/-- The part of `Restore` that fills the new store. -/
def fill (sum : String → String) (created : ℕ) (model : String) (tuples : List Tuple) :
    Run StoreIDs := do
  let written ← need (call (.writeModel created model)) .model
  writeTuples created tuples []
  pure { StoreIDs.ofStore created with model := some written, digest := sum model }

/-- The part of `Restore` that makes the new store: it is deleted again when it cannot be
filled, and not when it cannot be recorded. -/
def refill (sum : String → String) (ref : Ref) (model : String) (tuples : List Tuple) :
    Run Unit := do
  let created ← need (call (.createStore ref)) .create
  match ← (fill sum created model tuples).attempt with
  | .error e => do
    discard created
    throw e
  | .ok ids => do
    save ref.recordKey ids
    call (.set ref.recordKey ids)

/-- `Stores.Restore`: the store is purged and filled again. -/
def restore (sum : String → String) (ref : Ref) (model : String) (tuples : List Tuple) :
    Run Unit := locked ref.recordKey do
  purgeLocked ref
  refill sum ref model tuples

/-- `Stores.Export` under its lock: the model and every tuple, if there is a store. -/
def exportLocked (ref : Ref) : Run (Option (String × List Tuple)) := do
  match ← call (.get ref.recordKey) with
  | none => pure none
  | some ids => do
    let model ← need (call (.readModel ids.store ids.model)) .model
    let all ← need (call (.read ids.store ⟨"", "", ""⟩)) .tuples
    pure (some (model, all))

/-- `Stores.Export`. -/
def exportStore (ref : Ref) : Run (Option (String × List Tuple)) :=
  locked ref.recordKey (exportLocked ref)

end Gentian.Arbiter
