/-
# One run at a time

`blockedByAnotherExport` of `internal/controller/tenantexport_controller.go`, `tenantBusy`
of `internal/controller/tenantrestore_controller.go`, and the part of the two `Reconcile`s
that asks them and starts a run.  Both order the runs of a tenant by the time of their
creation, in seconds, and then by name:

| a run of | waits for |
| --- | --- |
| `TenantExport` | an older export that has not ended |
| `TenantRestore` | an export that is under way, or an older restore that has not ended |

A pass asks and then starts, and passes of other runs can come between.  An export does not
ask about restores, and a run under way does not hold back one that is created in the same
second with a smaller name (`two_under_way`).
-/

import Gentian.Base.Runs

namespace Gentian.Export

open List

/-! ### Runs and what they wait for -/

/-- An export or a restore. -/
inductive RunKind where
  | tenantExport
  | tenantRestore
deriving DecidableEq

/-- `TenantExportPhase`, which a restore has too.  `unset` is the phase of a new object. -/
inductive Phase where
  | unset
  | pending
  | running
  | ready
  | failed
deriving DecidableEq

/-- The status of a run: its phase, whether `startedAt` is set, and the message of the
condition that says what it waits for.  `passed` is no part of the object: a pass has
asked, has not been told to wait, and has not ended. -/
structure RunStatus where
  phase : Phase
  started : Bool
  waits : String
  passed : Bool
deriving DecidableEq

/-- A `TenantExport` or `TenantRestore` of the tenant, created at this second. -/
structure TenantRun where
  kind : RunKind
  name : String
  created : ℕ
  status : RunStatus
deriving DecidableEq

/-- What a run is known by. -/
def TenantRun.key (r : TenantRun) : RunKind × String := (r.kind, r.name)

/-- A run that has ended. -/
def TenantRun.isTerminal (r : TenantRun) : Bool :=
  r.status.phase = .ready || r.status.phase = .failed

/-- Whether a run is the older one, by its name where they are of one time. -/
def TenantRun.before (r other : TenantRun) : Bool :=
  r.created < other.created || (r.created = other.created && r.name < other.name)

/-- An older run of a kind that has not ended. -/
def olderUnfinished (kind : RunKind) (runs : List TenantRun) (run : TenantRun) :
    Option TenantRun :=
  runs.find? fun other =>
    other.kind = kind && other.name ≠ run.name && !other.isTerminal && other.before run

/-- `blockedByAnotherExport`. -/
def blockedByAnotherExport (runs : List TenantRun) (run : TenantRun) : Option String :=
  (olderUnfinished .tenantExport runs run).map TenantRun.name

/-- `tenantBusy`: what a restore waits for. -/
def tenantBusy (runs : List TenantRun) (run : TenantRun) : Option String :=
  match runs.find? fun e => e.kind = .tenantExport && !e.isTerminal && e.status.started with
  | some e => some ("export " ++ e.name)
  | none => (olderUnfinished .tenantRestore runs run).map fun other => "restore " ++ other.name

/-- What a run waits for. -/
def waitsFor (runs : List TenantRun) (run : TenantRun) : Option String :=
  match run.kind with
  | .tenantExport => (blockedByAnotherExport runs run).map fun holder =>
    "waiting for export \"" ++ holder ++ "\" to finish"
  | .tenantRestore => (tenantBusy runs run).map fun holder =>
    "waiting for " ++ holder ++ " to finish"

/-! ### The objects of a tenant -/

/-- The exports and restores of a tenant, no two of one kind and name. -/
structure Board where
  runs : List TenantRun
  named : (runs.map TenantRun.key).Nodup

/-- No runs. -/
def Board.empty : Board := ⟨[], nodup_nil⟩

/-- A run with its status replaced, when it is the one that is meant. -/
def TenantRun.updated (key : RunKind × String) (f : RunStatus → RunStatus) (r : TenantRun) :
    TenantRun :=
  if r.key = key then { r with status := f r.status } else r

theorem key_updated (key : RunKind × String) (f : RunStatus → RunStatus) (r : TenantRun) :
    (r.updated key f).key = r.key := by
  rw [TenantRun.updated]
  split_ifs <;> rfl

/-- The status of one run changed. -/
def Board.update (b : Board) (key : RunKind × String) (f : RunStatus → RunStatus) : Board where
  runs := b.runs.map (TenantRun.updated key f)
  named := by
    have hkeys : (b.runs.map (TenantRun.updated key f)).map TenantRun.key =
        b.runs.map TenantRun.key := by
      rw [map_map]
      exact map_congr_left fun r _ => key_updated key f r
    rw [hkeys]
    exact b.named

/-- The run of a key. -/
def Board.get (b : Board) (key : RunKind × String) : Option TenantRun :=
  b.runs.find? fun r => r.key = key

/-- A new object, unless there is one of its kind and name. -/
def Board.create (b : Board) (kind : RunKind) (name : String) (created : ℕ) : Option Board :=
  if h : (kind, name) ∈ b.runs.map TenantRun.key then none
  else some ⟨b.runs ++ [⟨kind, name, created, ⟨.unset, false, "", false⟩⟩], by
    rw [map_append, map_singleton, ← concat_eq_append]
    exact List.Nodup.concat h b.named⟩

/-- The runs without one. -/
def Board.remove (b : Board) (key : RunKind × String) : Board :=
  ⟨b.runs.filter fun r => r.key ≠ key, b.named.sublist (filter_sublist.map _)⟩

/-! ### Passes -/

/-- What happens to the runs of a tenant: one is created; a pass of one asks; a pass that
was not told to wait starts the run, or fails to write that; a pass ends; a run ends; and
one is removed. -/
inductive TurnMove where
  | create (kind : RunKind) (name : String) (created : ℕ)
  | check (key : RunKind × String)
  | start (key : RunKind × String) (written : Bool)
  | leave (key : RunKind × String)
  | finish (key : RunKind × String) (ok : Bool)
  | remove (key : RunKind × String)
deriving DecidableEq

/-- What a pass writes that was told to wait, or was not. -/
def checked (waits : Option String) (st : RunStatus) : RunStatus :=
  match waits with
  | some message => { st with phase := .pending, waits := message, passed := false }
  | none => { st with waits := "", passed := true }

/-- What a pass leaves that starts a run, unless the run has started before: the write may
fail, which ends the pass. -/
def begun (written : Bool) (st : RunStatus) : RunStatus :=
  if !written then { st with passed := false }
  else if st.started then st
  else { st with phase := .running, started := true }

/-- The status of a run that has ended. -/
def ended (ok : Bool) (st : RunStatus) : RunStatus :=
  { st with phase := if ok then .ready else .failed, passed := false }

/-- One step of a run, or of those who make and delete them. -/
def turnStep (b : Board) : TurnMove → Option Board
  | .create kind name created => b.create kind name created
  | .check key =>
    match b.get key with
    | none => none
    | some r => if r.isTerminal || r.status.passed then none
        else some (b.update key (checked (waitsFor b.runs r)))
  | .start key written =>
    match b.get key with
    | none => none
    | some r => if r.isTerminal || !r.status.passed then none
        else some (b.update key (begun written))
  | .leave key => some (b.update key fun st => { st with passed := false })
  | .finish key ok =>
    match b.get key with
    | none => none
    | some r => if r.isTerminal || (ok && !r.status.started) then none
        else some (b.update key (ended ok))
  | .remove key => some (b.remove key)

/-- A run that has started and not ended. -/
def TenantRun.underWay (r : TenantRun) : Bool := r.status.started && !r.isTerminal

/-- **At most one run is under way.** -/
def OneAtATime (b : Board) : Prop :=
  ∀ r ∈ b.runs, ∀ other ∈ b.runs, r.underWay = true → other.underWay = true → r = other
deriving Decidable

/-- A run that has passed its check and not ended. -/
def TenantRun.active (r : TenantRun) : Bool :=
  !r.isTerminal && (r.status.passed || r.status.started)

/-- A run is created after the unfinished ones of its kind; an export asks when no restore
is under way or about to be; and a restore asks when no export is about to be. -/
def turnsKept (b : Board) : TurnMove → Prop
  | .create kind name created => ∀ r ∈ b.runs, r.kind = kind → r.isTerminal = false →
      r.before ⟨kind, name, created, ⟨.unset, false, "", false⟩⟩ = true
  | .check (.tenantExport, _) => ∀ r ∈ b.runs, r.kind = .tenantRestore → r.active = false
  | .check (.tenantRestore, _) => ∀ r ∈ b.runs, r.kind = .tenantExport →
      r.isTerminal = true ∨ r.status.passed = false ∨ r.status.started = true
  | .start _ _ | .leave _ | .finish _ _ | .remove _ => True

instance turnsKept.decidable (b : Board) : ∀ m, Decidable (turnsKept b m)
  | .create _ _ _ => inferInstanceAs (Decidable (∀ r ∈ b.runs, _))
  | .check (.tenantExport, _) => inferInstanceAs (Decidable (∀ r ∈ b.runs, _))
  | .check (.tenantRestore, _) => inferInstanceAs (Decidable (∀ r ∈ b.runs, _))
  | .start _ _ | .leave _ | .finish _ _ | .remove _ => inferInstanceAs (Decidable True)

/-! ### What a move keeps -/

variable {b b' : Board} {r other : TenantRun} {key : RunKind × String}
  {f : RunStatus → RunStatus} {m : TurnMove}

/-- It is the run's turn: it is before the unfinished runs of its kind, and no run of the
other kind is active. -/
structure Turn (b : Board) (r : TenantRun) : Prop where
  first : ∀ other ∈ b.runs, other.kind = r.kind → other.isTerminal = false → other.key ≠ r.key →
    r.before other = true
  alone : ∀ other ∈ b.runs, other.active = true → other.kind = r.kind

/-- Every active run has its turn. -/
def InTurn (b : Board) : Prop := ∀ r ∈ b.runs, r.active = true → Turn b r

/-- A key names one run. -/
theorem eq_of_key_eq (hr : r ∈ b.runs) (hother : other ∈ b.runs) (h : r.key = other.key) :
    r = other :=
  inj_on_of_nodup_map b.named hr hother h

/-- Of two runs not both are the older. -/
theorem not_before_of_before (h : r.before other) : other.before r = false := by
  simp only [TenantRun.before, Bool.or_eq_true, Bool.and_eq_true, decide_eq_true_eq] at h
  simp only [TenantRun.before, Bool.or_eq_false_iff, Bool.and_eq_false_iff, decide_eq_false_iff_not]
  rcases h with hlt | ⟨heq, hname⟩
  · exact ⟨by omega, .inl (by omega)⟩
  · exact ⟨by omega, .inr (lt_asymm hname)⟩

/-- One of them is. -/
theorem before_of_not_before (hname : r.name ≠ other.name) (h : other.before r = false) :
    r.before other := by
  simp only [TenantRun.before, Bool.or_eq_false_iff, Bool.and_eq_false_iff,
    decide_eq_false_iff_not] at h
  simp only [TenantRun.before, Bool.or_eq_true, Bool.and_eq_true, decide_eq_true_eq]
  rcases Nat.lt_or_ge r.created other.created with hlt | hge
  · exact .inl hlt
  · have heq : r.created = other.created := by omega
    refine .inr ⟨heq, lt_of_le_of_ne ?_ hname⟩
    rcases h.2 with hne | hle
    · exact absurd heq.symm hne
    · exact not_lt.1 hle

/-- **At most one run is under way** when an active run has its turn. -/
theorem oneAtATime_of_inTurn (h : InTurn b) : OneAtATime b := by
  have hactive : ∀ r : TenantRun, r.underWay → r.active := by
    intro r hr
    rw [TenantRun.underWay, Bool.and_eq_true] at hr
    simp [TenantRun.active, hr.1, hr.2]
  have hunfinished : ∀ r : TenantRun, r.underWay → r.isTerminal = false := by
    intro r hr
    rw [TenantRun.underWay, Bool.and_eq_true] at hr
    simpa using hr.2
  intro r hr other hother hrun hotherRun
  have hturn := h r hr (hactive r hrun)
  have hturn' := h other hother (hactive other hotherRun)
  have hkind := hturn.alone other hother (hactive other hotherRun)
  by_contra hne
  have hkey : other.key ≠ r.key := fun heq => hne (eq_of_key_eq hr hother heq.symm)
  have hfirst := hturn.first other hother hkind (hunfinished other hotherRun) hkey
  have hfirst' := hturn'.first r hr hkind.symm (hunfinished r hrun) hkey.symm
  rw [not_before_of_before hfirst] at hfirst'
  cases hfirst'

theorem before_updated : r.before (other.updated key f) = r.before other ∧
    (r.updated key f).before other = r.before other := by
  simp only [TenantRun.updated]
  constructor <;> split_ifs <;> rfl

theorem updated_of_ne (hne : r.key ≠ key) : r.updated key f = r := if_neg hne

theorem updated_of_eq (heq : r.key = key) : r.updated key f = { r with status := f r.status } :=
  if_pos heq

section

variable (h : InTurn b)
  (hended : ∀ r ∈ b.runs, r.key = key → r.isTerminal →
    ({ r with status := f r.status } : TenantRun).isTerminal)

include h hended

/-- **A write that lets no run become active out of turn**, and takes no end back. -/
theorem inTurn_update
    (hturn : ∀ r ∈ b.runs, r.key = key → ({ r with status := f r.status } : TenantRun).active →
      Turn b r) : InTurn (b.update key f) := by
  have hkind : ∀ r : TenantRun, (r.updated key f).kind = r.kind := fun r =>
    congrArg Prod.fst (key_updated key f r)
  have hunended : ∀ r ∈ b.runs, (r.updated key f).isTerminal = false → r.isTerminal = false := by
    intro r hr hunfinished
    by_cases hkey : r.key = key
    · rw [updated_of_eq hkey] at hunfinished
      by_contra hterminal
      exact absurd (hended r hr hkey (by simpa using hterminal)) (by simp [hunfinished])
    · rwa [updated_of_ne hkey] at hunfinished
  have hturn' : ∀ r ∈ b.runs, (r.updated key f).active → Turn b r := by
    intro r hr hactive
    by_cases hkey : r.key = key
    · rw [updated_of_eq hkey] at hactive
      exact hturn r hr hkey hactive
    · rw [updated_of_ne hkey] at hactive
      exact h r hr hactive
  intro _ hr' hactive
  obtain ⟨r, hr, rfl⟩ := mem_map.1 hr'
  refine ⟨fun other' hother' hsame hunfinished hne => ?_, fun other' hother' hactive' => ?_⟩
  · obtain ⟨other, hother, rfl⟩ := mem_map.1 hother'
    rw [hkind, hkind] at hsame
    rw [key_updated, key_updated] at hne
    rw [before_updated.1, before_updated.2]
    exact (hturn' r hr hactive).first other hother hsame (hunended other hother hunfinished) hne
  · obtain ⟨other, hother, rfl⟩ := mem_map.1 hother'
    rw [hkind, hkind]
    -- at most one of the two was not active before, since the write is to one run
    by_cases hkey : other.key = key
    · by_cases hkey' : r.key = key
      · rw [eq_of_key_eq hother hr (hkey.trans hkey'.symm)]
      · rw [updated_of_ne hkey'] at hactive
        exact ((hturn' other hother hactive').alone r hr hactive).symm
    · rw [updated_of_ne hkey] at hactive'
      exact (hturn' r hr hactive).alone other hother hactive'

theorem inTurn_update_of_active (hactive : ∀ r ∈ b.runs, r.key = key →
      ({ r with status := f r.status } : TenantRun).active → r.active) : InTurn (b.update key f) :=
  inTurn_update h hended fun r hr hkey hact => h r hr (hactive r hr hkey hact)

end

theorem of_get (h : b.get key = some r) : r ∈ b.runs ∧ r.key = key :=
  ⟨mem_of_find?_eq_some h, by simpa using find?_some h⟩

/-- A run that waits for nothing is the oldest of its kind. -/
theorem first_of_waitsFor (h : waitsFor b.runs r = none) (hother : other ∈ b.runs)
    (hkind : other.kind = r.kind) (hunfinished : other.isTerminal = false)
    (hne : other.key ≠ r.key) : r.before other := by
  have hname : other.name ≠ r.name := fun heq => hne (Prod.ext hkind heq)
  have hnone : olderUnfinished r.kind b.runs r = none := by
    rw [waitsFor] at h
    split at h
    next hexport =>
      rw [hexport]
      simpa [blockedByAnotherExport] using h
    next hrestore =>
      rw [hrestore]
      rw [Option.map_eq_none_iff, tenantBusy] at h
      split at h
      · cases h
      · exact Option.map_eq_none_iff.1 h
  have hnot := find?_eq_none.1 hnone other hother
  refine before_of_not_before hname.symm ?_
  simpa [hkind, hname, hunfinished] using hnot

/-- **No deadlock.**  While a run is unfinished, one of the unfinished runs waits for nothing:
the first export, or the first restore when every export has ended. -/
theorem some_run_waits_for_nothing (b : Board) : (∀ r ∈ b.runs, r.isTerminal) ∨
    ∃ r ∈ b.runs, r.isTerminal = false ∧ waitsFor b.runs r = none := by
  by_cases h : ∃ r ∈ b.runs, r.isTerminal = false
  · obtain ⟨r, ⟨hr, hopen⟩, hmin⟩ := Set.exists_min_image {r | r ∈ b.runs ∧ r.isTerminal = false}
      (fun r => toLex (decide (r.kind = .tenantRestore), toLex (r.created, r.name)))
      (b.runs.finite_toSet.subset fun _ h => h.1) h
    have hfirst : olderUnfinished r.kind b.runs r = none := by
      refine find?_eq_none.2 fun other hother h => ?_
      simp only [TenantRun.before, Bool.and_eq_true, Bool.or_eq_true, Bool.not_eq_true',
        decide_eq_true_eq] at h
      refine (hmin other ⟨hother, h.1.2⟩).not_gt (Prod.Lex.toLex_lt_toLex.2 (.inr ⟨?_, ?_⟩))
      · rw [h.1.1.1]
      · exact Prod.Lex.toLex_lt_toLex.2 h.2
    refine .inr ⟨r, hr, hopen, ?_⟩
    cases hkind : r.kind with
    | tenantExport => simp [waitsFor, hkind, blockedByAnotherExport, hkind ▸ hfirst]
    | tenantRestore =>
      have hnone : b.runs.find? (fun e =>
          e.kind = .tenantExport && !e.isTerminal && e.status.started) = none := by
        refine find?_eq_none.2 fun e he h => ?_
        simp only [Bool.and_eq_true, Bool.not_eq_true', decide_eq_true_eq] at h
        refine (hmin e ⟨he, h.1.2⟩).not_gt (Prod.Lex.toLex_lt_toLex.2 (.inl ?_))
        simp [h.1.1, hkind]
      simp [waitsFor, hkind, tenantBusy, hnone, hkind ▸ hfirst]
  · exact .inl (by simpa using h)

/-- A restore that waits for nothing finds no export started. -/
theorem no_export_of_waitsFor (h : waitsFor b.runs r = none) (hrestore : r.kind = .tenantRestore)
    (hother : other ∈ b.runs) (hexport : other.kind = .tenantExport)
    (hunfinished : other.isTerminal = false) : other.status.started = false := by
  simp only [waitsFor, hrestore, tenantBusy] at h
  split at h
  · cases h
  next hnone =>
    have hnot := find?_eq_none.1 hnone other hother
    simpa [hexport, hunfinished] using hnot

/-- **A run that is told to wait for nothing has its turn.** -/
theorem turn_of_check (hkept : turnsKept b (.check r.key)) (h : waitsFor b.runs r = none) :
    Turn b r := by
  refine ⟨fun other hother => first_of_waitsFor h hother, fun other hother hact => ?_⟩
  by_contra hkind
  have hactive := hact
  rw [TenantRun.active, Bool.and_eq_true] at hactive
  have hunfinished : other.isTerminal = false := by simpa using hactive.1
  cases hk : r.kind with
  | tenantExport =>
    have hother' : other.kind = .tenantRestore := by
      cases ho : other.kind with
      | tenantExport => exact absurd (ho.trans hk.symm) hkind
      | tenantRestore => rfl
    rw [TenantRun.key, hk] at hkept
    exact absurd hact (by simp [hkept other hother hother'])
  | tenantRestore =>
    have hother' : other.kind = .tenantExport := by
      cases ho : other.kind with
      | tenantExport => rfl
      | tenantRestore => exact absurd (ho.trans hk.symm) hkind
    rw [TenantRun.key, hk] at hkept
    have hstarted := no_export_of_waitsFor h hk hother hother' hunfinished
    rcases hkept other hother hother' with hterminal | hpassed | hbegun
    · exact absurd hterminal (by simp [hunfinished])
    · simp [hpassed, hstarted] at hactive
    · exact absurd hbegun (by simp [hstarted])

/-- A new run takes nobody's turn. -/
theorem inTurn_create {kind : RunKind} {name : String} {created : ℕ} (h : InTurn b)
    (hkept : turnsKept b (.create kind name created)) (hstep : b.create kind name created = some b') :
    InTurn b' := by
  rw [Board.create] at hstep
  split_ifs at hstep
  cases hstep
  intro r hr hactive
  rcases mem_append.1 hr with hr | hnew
  · have hturn := h r hr hactive
    refine ⟨fun other hother hkind hunfinished hne => ?_, fun other hother hact => ?_⟩
    · rcases mem_append.1 hother with hother | hnew
      · exact hturn.first other hother hkind hunfinished hne
      · obtain rfl := mem_singleton.1 hnew
        refine hkept r hr hkind.symm ?_
        rw [TenantRun.active, Bool.and_eq_true] at hactive
        simpa using hactive.1
    · rcases mem_append.1 hother with hother | hnew
      · exact hturn.alone other hother hact
      · obtain rfl := mem_singleton.1 hnew
        cases hact
  · obtain rfl := mem_singleton.1 hnew
    cases hactive

/-- **One move keeps the turns.** -/
theorem inTurn_turnStep (h : InTurn b) (hkept : turnsKept b m) (hstep : turnStep b m = some b') :
    InTurn b' := by
  cases m with
  | create _ _ _ => exact inTurn_create h hkept hstep
  | check key =>
    rw [turnStep] at hstep
    split at hstep
    · cases hstep
    next r hget =>
      obtain ⟨hr, rfl⟩ := of_get hget
      split_ifs at hstep with hbusy
      cases hstep
      rw [Bool.or_eq_true, not_or] at hbusy
      refine inTurn_update h (fun other hother hkey hterminal => ?_)
        fun other hother hkey hactive => ?_
      · rw [eq_of_key_eq hother hr hkey] at hterminal
        exact absurd hterminal hbusy.1
      · obtain rfl := eq_of_key_eq hother hr hkey
        cases hwaits : waitsFor b.runs other with
        | none => exact turn_of_check hkept hwaits
        | some _ =>
          refine h other hother ?_
          simp only [hwaits, checked, TenantRun.active, TenantRun.isTerminal] at hactive
          simp [TenantRun.active, hbusy.1, show other.status.started = true by simpa using hactive]
  | start key _ =>
    rw [turnStep] at hstep
    split at hstep
    · cases hstep
    next r hget =>
      obtain ⟨hr, rfl⟩ := of_get hget
      split_ifs at hstep with hbusy
      cases hstep
      rw [Bool.or_eq_true, Bool.not_eq_true', not_or] at hbusy
      refine inTurn_update h (fun other hother hkey hterminal => ?_) fun other hother hkey _ => ?_
      · rw [eq_of_key_eq hother hr hkey] at hterminal
        exact absurd hterminal hbusy.1
      · obtain rfl := eq_of_key_eq hother hr hkey
        exact h other hother (by simp [TenantRun.active, hbusy])
  | leave key =>
    cases hstep
    refine inTurn_update_of_active h (fun r _ _ hterminal => hterminal) fun r _ _ hactive => ?_
    simp only [TenantRun.active, TenantRun.isTerminal, Bool.false_or, Bool.and_eq_true] at hactive
    simp [TenantRun.active, TenantRun.isTerminal, hactive]
  | finish key ok =>
    rw [turnStep] at hstep
    split at hstep
    · cases hstep
    · split_ifs at hstep
      cases hstep
      have hends : ∀ r : TenantRun,
          ({ r with status := ended ok r.status } : TenantRun).isTerminal := by
        intro r
        cases ok <;> rfl
      refine inTurn_update_of_active h (fun r _ _ _ => hends r) fun r _ _ hactive => ?_
      rw [TenantRun.active, hends] at hactive
      cases hactive
  | remove key =>
    cases hstep
    intro r hr hactive
    have hturn := h r (mem_filter.1 hr).1 hactive
    exact ⟨fun other hother => hturn.first other (mem_filter.1 hother).1,
      fun other hother => hturn.alone other (mem_filter.1 hother).1⟩

/-- **One run at a time per tenant**, in every state that is reached by moves that keep the
turns. -/
theorem one_at_a_time {ms : List TurnMove} (hm : Runs.Meets turnStep turnsKept .empty ms)
    (hr : Runs.run turnStep .empty ms = some b) : OneAtATime b := by
  have h0 : InTurn .empty := fun r hr => absurd hr not_mem_nil
  exact oneAtATime_of_inTurn
    (Runs.invariant (fun _ _ _ h hkept hstep => inTurn_turnStep h hkept hstep) h0 hm hr)

/-- Two exports, the younger of which waits, and then a restore. -/
def inOrder : List TurnMove :=
  [.create .tenantExport "nightly" 10, .create .tenantExport "weekly" 12,
    .check (.tenantExport, "weekly"), .check (.tenantExport, "nightly"),
    .start (.tenantExport, "nightly") true, .create .tenantRestore "monday" 12,
    .check (.tenantExport, "weekly"), .finish (.tenantExport, "nightly") true,
    .check (.tenantExport, "weekly"), .start (.tenantExport, "weekly") true,
    .check (.tenantRestore, "monday"), .finish (.tenantExport, "weekly") false,
    .check (.tenantRestore, "monday"), .start (.tenantRestore, "monday") true]

theorem in_order_one_at_a_time : ∃ b, Runs.run turnStep .empty inOrder = some b ∧ OneAtATime b ∧
    b.runs.map TenantRun.underWay = [false, false, true] := by
  have hr : Runs.run turnStep .empty inOrder = some _ :=
    (Option.some_get (by decide +kernel)).symm
  exact ⟨_, hr, one_at_a_time (by decide +kernel) hr, by decide +kernel⟩

/-- **Two runs of a tenant are under way.**  An export starts while a restore runs; and an
export starts beside one that was created in the same second and has a greater name. -/
theorem two_under_way : (∃ b, Runs.run turnStep .empty
        [.create .tenantRestore "monday" 10, .check (.tenantRestore, "monday"),
          .start (.tenantRestore, "monday") true, .create .tenantExport "nightly" 20,
          .check (.tenantExport, "nightly"), .start (.tenantExport, "nightly") true] = some b ∧
      ¬OneAtATime b) ∧
    ∃ b, Runs.run turnStep .empty [.create .tenantExport "b" 10, .check (.tenantExport, "b"),
          .start (.tenantExport, "b") true, .create .tenantExport "a" 10,
          .check (.tenantExport, "a"), .start (.tenantExport, "a") true] = some b ∧
      ¬OneAtATime b :=
  ⟨⟨_, (Option.some_get (by decide +kernel)).symm, by decide +kernel⟩,
    ⟨_, (Option.some_get (by decide +kernel)).symm, by decide +kernel⟩⟩

end Gentian.Export
