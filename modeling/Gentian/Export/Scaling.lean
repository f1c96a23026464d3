/-
# What pausing and resuming do to workloads

The programs of `Export.Quiesce` that scale an app's workloads:

| program | what it does | lemma |
| --- | --- | --- |
| `scaleAppWorkloads app none` | `Shrinks`, and no workload of the app has a memo | `goes_scale_memo` |
| `scaleDown app` | `Pauses app`, also when it fails | `goes_scaleDown` |
| `quiesceApp` | the app is in maintenance, or `Pauses app` | `goes_quiesceApp` |

`Orderly` holds at any time: a workload without a memo has the size it had before the
export, and a memo is that size.
-/

import Gentian.Backup.Volumes
import Gentian.Export.Quiesce

namespace Gentian.Export

open Threads Passes List

/-! ### What is kept -/

/-- The entries of a status: an app is named as paused only with the time of its pause,
and has a mode only then. -/
structure ExportStatus.Marked (st : ExportStatus) : Prop where
  start : ∀ app ∈ st.quiesced, (st.apps app).quiesceStart = true
  mode : ∀ app, (st.apps app).quiesceStart = false → (st.apps app).quiesceMode = none

/-- The invariant of a run: what is scaled down is remembered, and what owes a command is recorded.
-/
structure Orderly (canExec : Bool) (s : Scene) : Prop where
  size : ∀ w ∈ s.workloads, w.memo = none → replicasOf w.replicas = w.before
  memo : ∀ w ∈ s.workloads, ∀ n, w.memo = some n → n = w.before
  marked : s.status.Marked
  hooks : canExec = false → s.owing = []
  closed : s.closed = true → AllResumed s ∧ (s.gone = true ∨ s.status.isTerminal = true)

/-- What the passes keep, and the calls that are considered. -/
def pauseTerms (canExec : Bool) : Terms Scene Call Fate where
  always := Orderly canExec
  between := fun s => RecordedIn s.status s
  cond := pauseRecorded

variable {canExec : Bool} {s s' : Scene} {st st' : ExportStatus} {app : String} {w w' : Workload}
  {index : ℕ} {β : Type}

/-- All that the scene owes is in the status. -/
abbrev Stored (s : Scene) : Prop := RecordedIn s.status s

/-- A part of a pass that keeps the invariant. -/
abbrev Goes (canExec : Bool) (Q : β → Scene → Prop) (E : Scene → Prop) (x : PassOf β)
    (s : Scene) : Prop :=
  AlongE (exportLoop canExec) (pauseTerms canExec) Q E x s

theorem goes_must {x : PassOf Bool} {Q : Unit → Scene → Prop} {E : Scene → Prop}
    (h : Goes canExec (fun b s => if b = true then Q () s else E s) E x s) :
    Goes canExec Q E (must x) s := by
  refine .bind (.mono h (fun b s hb => ?_) fun _ hE => hE)
  cases b with
  | true => exact hb
  | false => exact hb

/-! ### Calls -/

section calls

variable {E : Scene → Prop}

theorem goes_ask {Q : Verdict → Scene → Prop} (h : Orderly canExec s) (hQ : ∀ v, Q v s) :
    Goes canExec Q E ask s := by
  refine .call fun d f r _ _ hexec => ?_
  cases f with
  | verdict v =>
    obtain ⟨rfl, rfl⟩ := Prod.mk.inj (Option.some.inj hexec)
    exact ⟨h, hQ v⟩
  | ok | fails | lost | spec found => cases hexec

theorem goes_resolveSpec {Q : Option (Option BackupSpec) → Scene → Prop} (h : Orderly canExec s)
    (hQ : ∀ found, (app ∈ s.owing → (quiesceCommands found.join).2 ≠ []) → Q found s) :
    Goes canExec Q E (resolveSpec app) s := by
  refine .call fun d f r _ hcond hexec => ?_
  cases f with
  | spec found =>
    obtain ⟨rfl, rfl⟩ := Prod.mk.inj (Option.some.inj hexec)
    exact ⟨h, hQ found hcond⟩
  | ok | fails | lost | verdict v => cases hexec

theorem goes_listWorkloads {Q : Option (List (Workload × ℕ)) → Scene → Prop} {kind : WorkloadKind}
    {pausing : Bool} (h : Orderly canExec s)
    (hok : Q (some (s.workloads.zipIdx.filter fun e => e.1.kind = kind)) s)
    (hfails : pausing ∨ Stored s → Q none s) : Goes canExec Q E (listWorkloads kind pausing) s := by
  refine .call fun d f r _ hcond hexec => ?_
  cases f with
  | ok =>
    cases hexec
    exact ⟨h, hok⟩
  | fails =>
    cases hexec
    cases pausing with
    | true => exact ⟨h, hfails (.inl rfl)⟩
    | false => exact ⟨h, hfails (.inr hcond)⟩
  | lost | spec found | verdict v => cases hexec

variable {Q : Bool → Scene → Prop}

/-- The rule of an update of a workload. -/
theorem goes_updateWorkload (h : Orderly canExec s)
    (hwrite : Orderly canExec (s.write index w)) (hok : Q true (s.write index w))
    (hlost : w.memo ≠ none ∨ Stored s → Q false (s.write index w))
    (hfails : w.memo ≠ none ∨ Stored s → Q false s) :
    Goes canExec Q E (updateWorkload index w) s := by
  refine .call fun d f r _ hcond hexec => ?_
  cases f with
  | ok =>
    cases hexec
    exact ⟨hwrite, hok⟩
  | lost =>
    cases hexec
    exact ⟨hwrite, hlost hcond⟩
  | fails =>
    cases hexec
    exact ⟨h, hfails hcond⟩
  | spec found | verdict v => cases hexec

/-- The rule of a command. -/
theorem goes_execAppCommand {hook : Hook}
    (hran : Orderly canExec (s.ran app hook)) (hfailed : Orderly canExec (s.failed app hook))
    (hok : Q true (s.ran app hook)) (hlost : hook = .post → Q false (s.ran app hook))
    (hfails : hook = .pre ∨ app ∉ s.owing → Q false (s.failed app hook)) :
    Goes canExec Q E (execAppCommand app hook) s := by
  refine .call fun d f r _ hcond hexec => ?_
  cases f with
  | ok =>
    cases hexec
    exact ⟨hran, hok⟩
  | fails =>
    cases hexec
    cases hook with
    | pre => exact ⟨hfailed, hfails (.inl rfl)⟩
    | post => exact ⟨hfailed, hfails (.inr hcond)⟩
  | lost =>
    cases hexec
    cases hook with
    | pre => exact absurd hcond id
    | post => exact ⟨hran, hlost rfl⟩
  | spec found | verdict v => cases hexec

end calls

/-! ### Updates of workloads -/

theorem getElem?_write (s : Scene) (index k : ℕ) (w : Workload) :
    (s.write index w).workloads[k]? = s.workloads[k]?.map fun old =>
      if index = k then { old with replicas := w.replicas, memo := w.memo } else old := by
  rw [Scene.write, getElem?_modify]
  rfl

theorem getElem?_write_of_ne (s : Scene) (w : Workload) {k : ℕ} (hne : k ≠ index) :
    (s.write index w).workloads[k]? = s.workloads[k]? := by
  rw [getElem?_write]
  simp [Ne.symm hne]

theorem mem_write (hw : s.workloads[index]? = some w) {n m : Option ℕ}
    (hw' : w' ∈ (s.write index { w with replicas := n, memo := m }).workloads) :
    w' ∈ s.workloads ∨ w' = { w with replicas := n, memo := m } := by
  obtain ⟨k, hk⟩ := mem_iff_getElem?.1 hw'
  rw [getElem?_write, Option.map_eq_some_iff] at hk
  obtain ⟨old, hold, rfl⟩ := hk
  split_ifs with heq
  · subst heq
    cases hw.symm.trans hold
    exact .inr rfl
  · exact .inl (mem_of_getElem? hold)

/-! ### Resuming -/

/-- What resuming does: the status stays, no app comes into maintenance, and a workload
that has a memo afterwards is as it was. -/
structure Shrinks (s s' : Scene) : Prop where
  status : s'.status = s.status
  gone : s'.gone = s.gone
  closed : s'.closed = s.closed
  owing : ∀ app ∈ s'.owing, app ∈ s.owing
  each : ∀ (k : ℕ) (w' : Workload), s'.workloads[k]? = some w' → ∃ w, s.workloads[k]? = some w ∧
    w'.kind = w.kind ∧ (∀ app, workloadOfApp w' app = workloadOfApp w app) ∧ (w'.memo ≠ none → w' = w)

theorem Shrinks.refl (s : Scene) : Shrinks s s where
  status := rfl
  gone := rfl
  closed := rfl
  owing := fun _ h => h
  each := fun _ w' h => ⟨w', h, rfl, fun _ => rfl, fun _ => rfl⟩

theorem Shrinks.trans {s1 s2 s3 : Scene} (h : Shrinks s1 s2) (h' : Shrinks s2 s3) :
    Shrinks s1 s3 where
  status := h'.status.trans h.status
  gone := h'.gone.trans h.gone
  closed := h'.closed.trans h.closed
  owing := fun app happ => h.owing app (h'.owing app happ)
  each := fun k w3 hw3 => by
    obtain ⟨w2, hw2, hkind, hof, hsame⟩ := h'.each k w3 hw3
    obtain ⟨w1, hw1, hkind', hof', hsame'⟩ := h.each k w2 hw2
    refine ⟨w1, hw1, hkind.trans hkind', fun app => (hof app).trans (hof' app), fun hmemo => ?_⟩
    have heq := hsame hmemo
    rw [heq] at hmemo ⊢
    exact hsame' hmemo

/-- **What is recorded stays recorded while apps are resumed.** -/
theorem RecordedIn.shrinks (h : RecordedIn st s) (hs : Shrinks s s') : RecordedIn st s' := by
  refine ⟨fun w' hw' hmemo => ?_, fun app happ => h.hooked app (hs.owing app happ)⟩
  obtain ⟨k, hk⟩ := mem_iff_getElem?.1 hw'
  obtain ⟨w, hw, -, -, hsame⟩ := hs.each k w' hk
  obtain rfl := hsame hmemo
  exact h.scaled w' (mem_of_getElem? hw) hmemo

/-- What is on record stays so while apps are resumed. -/
theorem Stored.shrinks (h : Stored s) (hs : Shrinks s s') : Stored s' := by
  have := RecordedIn.shrinks h hs
  rwa [← hs.status] at this

theorem shrinks_write (s : Scene) (index : ℕ) (w : Workload) (n : Option ℕ) :
    Shrinks s (s.write index { w with replicas := n, memo := none }) where
  status := rfl
  gone := rfl
  closed := rfl
  owing := fun app happ => (mem_filter.1 happ).1
  each := fun k _ hw' => by
    rw [getElem?_write, Option.map_eq_some_iff] at hw'
    obtain ⟨old, hold, rfl⟩ := hw'
    refine ⟨old, hold, ?_, fun app => ?_, fun hmemo => ?_⟩
    · split_ifs <;> rfl
    · split_ifs <;> rfl
    · split_ifs with heq
      · subst heq
        simp at hmemo
      · rfl

section

variable (h : Orderly canExec s) (hw : s.workloads[index]? = some w)

include h hw

/-- To resume a workload keeps the order. -/
theorem orderly_resume {n : ℕ}
    (hmemo : w.memo = some n) :
    Orderly canExec (s.write index { w with replicas := some n, memo := none }) := by
  have hmem := mem_of_getElem? hw
  have hover : s.closed = false := by
    by_contra hover
    have := ((h.closed (by simpa using hover)).1.scaled w hmem).1
    rw [hmemo] at this
    cases this
  refine ⟨fun w' hw' hnone => ?_, fun w' hw' m hm => ?_, h.marked, fun hexec => ?_, fun hover' => ?_⟩
  · rcases mem_write hw hw' with hold | rfl
    · exact h.size w' hold hnone
    · exact h.memo w hmem n hmemo
  · rcases mem_write hw hw' with hold | rfl
    · exact h.memo w' hold m hm
    · cases hm
  · simp [Scene.write, h.hooks hexec]
  · exact absurd hover' (by simp [Scene.write, hover])

/-- **`scaleOne` to the memo.** -/
theorem goes_scaleOne_memo :
    Goes canExec (fun _ s' => Shrinks s s' ∧
        (∀ w', s'.workloads[index]? = some w' → w'.memo = none) ∧
        ∀ k, k ≠ index → s'.workloads[k]? = s.workloads[k]?)
      (fun s' => Shrinks s s' ∧ Stored s') (scaleOne none (w, index)) s := by
  cases hmemo : w.memo with
  | none =>
    rw [scaleOne, hmemo]
    refine .pure ⟨.refl s, fun w' hw' => ?_, fun _ _ => rfl⟩
    cases hw.symm.trans hw'
    exact hmemo
  | some n =>
    rw [scaleOne, hmemo]
    have hshrinks := shrinks_write s index w (some n)
    refine goes_must (goes_updateWorkload h (orderly_resume h hw hmemo) ?_ ?_ ?_)
    · refine ⟨hshrinks, fun w' hw' => ?_, fun k hne => getElem?_write_of_ne s _ hne⟩
      rw [getElem?_write, hw] at hw'
      cases hw'
      simp
    · exact fun hcond => ⟨hshrinks, (hcond.resolve_left fun hne => hne rfl).shrinks hshrinks⟩
    · exact fun hcond => ⟨.refl s, hcond.resolve_left fun hne => hne rfl⟩

end

/-- Entries of a listing that are still as they were listed. -/
structure Current (s : Scene) (entries : List (Workload × ℕ)) : Prop where
  here : ∀ e ∈ entries, s.workloads[e.2]? = some e.1
  once : (entries.map Prod.snd).Nodup

theorem current_filter (s : Scene) (p : Workload × ℕ → Bool) :
    Current s (s.workloads.zipIdx.filter p) where
  here := fun e he => mk_mem_zipIdx_iff_getElem?.1 (mem_filter.1 he).1
  once := by
    refine List.Nodup.sublist (filter_sublist.map _) ?_
    rw [zipIdx_map_snd]
    exact nodup_range'

variable {entries : List (Workload × ℕ)}

/-- A write to one entry leaves the others current. -/
theorem Current.tail {e : Workload × ℕ} (h : Current s (e :: entries))
    (hothers : ∀ k, k ≠ e.2 → s'.workloads[k]? = s.workloads[k]?) : Current s' entries := by
  obtain ⟨hnotin, honce⟩ := nodup_cons.1 h.once
  refine ⟨fun e' he' => ?_, honce⟩
  rw [hothers e'.2 fun heq => hnotin (heq ▸ mem_map_of_mem he')]
  exact h.here e' (mem_cons_of_mem _ he')

/-- To resume workloads leaves none of them with a memo. -/
theorem goes_scaleEach_memo (h : Orderly canExec s) (hcurrent : Current s entries) :
    Goes canExec (fun _ s' => Shrinks s s' ∧
        ∀ e ∈ entries, ∀ w', s'.workloads[e.2]? = some w' → w'.memo = none)
      (fun s' => Shrinks s s' ∧ Stored s') (scaleEach none entries) s := by
  induction entries generalizing s with
  | nil => exact .pure ⟨.refl s, fun e he => absurd he not_mem_nil⟩
  | cons e entries ih =>
    have hone := goes_scaleOne_memo h (hcurrent.here e mem_cons_self)
    refine .seq h hone fun _ _ h1 hs1 => ?_
    obtain ⟨hshrinks, hnone, hothers⟩ := hs1
    refine .mono (ih h1 (hcurrent.tail hothers)) ?_ fun s2 hs2 => ⟨hshrinks.trans hs2.1, hs2.2⟩
    rintro - s2 ⟨hshrinks2, hnone2⟩
    refine ⟨hshrinks.trans hshrinks2, fun e' he' w' hw' => ?_⟩
    rcases mem_cons.1 he' with rfl | he'
    · -- the rest of the loop gives no workload a memo
      by_contra hmemo
      obtain ⟨w1, hw1, -, -, hsame⟩ := hshrinks2.each e'.2 w' hw'
      obtain rfl := hsame hmemo
      exact hmemo (hnone w' hw1)
    · exact hnone2 e' he' w' hw'

theorem goes_scaleKind_memo (h : Orderly canExec s) (kind : WorkloadKind) :
    Goes canExec (fun _ s' => Shrinks s s' ∧ ∀ w' ∈ s'.workloads, w'.kind = kind →
        workloadOfApp w' app → w'.memo = none)
      (fun s' => Shrinks s s' ∧ Stored s') (scaleKind app none kind) s := by
  refine .bind (goes_listWorkloads h ?_ fun hcond => ?_)
  · simp only [filter_filter]
    refine .seq h (goes_scaleEach_memo h (current_filter s _)) fun _ _ _ hs1 => ?_
    obtain ⟨hshrinks, hnone⟩ := hs1
    refine .pure ⟨hshrinks, fun w' hw' hkind happ => ?_⟩
    obtain ⟨k, hk⟩ := mem_iff_getElem?.1 hw'
    obtain ⟨w, hw, hkind', hof, -⟩ := hshrinks.each k w' hk
    refine hnone (w, k) (mem_filter.2 ⟨mk_mem_zipIdx_iff_getElem?.2 hw, ?_⟩) w' hk
    simp [← hkind', hkind, ← hof, happ]
  · exact .throw ⟨.refl s, hcond.resolve_left (by simp)⟩

/-- **`scaleAppWorkloads` to the memos leaves no workload of the app with one.** -/
theorem goes_scale_memo (h : Orderly canExec s) :
    Goes canExec (fun _ s' => Shrinks s s' ∧ ∀ w' ∈ s'.workloads, workloadOfApp w' app →
        w'.memo = none)
      (fun s' => Shrinks s s' ∧ Stored s') (scaleAppWorkloads app none) s := by
  refine .seq h (goes_scaleKind_memo h .deployment) fun n _ h1 hs1 => ?_
  obtain ⟨hshrinks1, hnone1⟩ := hs1
  refine .seq h1 (.mono (goes_scaleKind_memo h1 .statefulSet) (fun _ _ h => h)
    fun s2 hs2 => ⟨hshrinks1.trans hs2.1, hs2.2⟩) fun m s2 _ hs2 => ?_
  obtain ⟨hshrinks2, hnone2⟩ := hs2
  refine .pure ⟨hshrinks1.trans hshrinks2, fun w' hw' happ => ?_⟩
  cases hkind : w'.kind with
  | statefulSet => exact hnone2 w' hw' hkind happ
  | deployment =>
    by_contra hmemo
    obtain ⟨k, hk⟩ := mem_iff_getElem?.1 hw'
    obtain ⟨w1, hw1, -, -, hsame⟩ := hshrinks2.each k w' hk
    obtain rfl := hsame hmemo
    exact hmemo (hnone1 w' (mem_of_getElem? hw1) hkind happ)

/-! ### Pausing -/

/-- What scaling an app down does: nothing but its workloads changes. -/
structure Pauses (app : String) (s s' : Scene) : Prop where
  status : s'.status = s.status
  gone : s'.gone = s.gone
  closed : s'.closed = s.closed
  owing : s'.owing = s.owing
  each : ∀ (k : ℕ) (w' : Workload), s'.workloads[k]? = some w' → ∃ w, s.workloads[k]? = some w ∧
    (∀ a, workloadOfApp w' a = workloadOfApp w a) ∧ (w' = w ∨ workloadOfApp w' app = true)

theorem Pauses.refl (s : Scene) : Pauses app s s where
  status := rfl
  gone := rfl
  closed := rfl
  owing := rfl
  each := fun _ w' h => ⟨w', h, fun _ => rfl, .inl rfl⟩

theorem Pauses.trans {s1 s2 s3 : Scene} (h : Pauses app s1 s2) (h' : Pauses app s2 s3) :
    Pauses app s1 s3 where
  status := h'.status.trans h.status
  gone := h'.gone.trans h.gone
  closed := h'.closed.trans h.closed
  owing := h'.owing.trans h.owing
  each := fun k w3 hw3 => by
    obtain ⟨w2, hw2, hof, hcase⟩ := h'.each k w3 hw3
    obtain ⟨w1, hw1, hof', hcase'⟩ := h.each k w2 hw2
    refine ⟨w1, hw1, fun a => (hof a).trans (hof' a), ?_⟩
    rcases hcase with rfl | hmine
    · exact hcase'
    · exact .inr hmine

/-- To pause a workload of an app pauses no other app. -/
theorem pauses_write (hw : s.workloads[index]? = some w) (happ : workloadOfApp w app)
    (n : Option ℕ) (m : ℕ) :
    Pauses app s (s.write index { w with replicas := n, memo := some m }) where
  status := rfl
  gone := rfl
  closed := rfl
  owing := filter_eq_self.2 fun a _ => by simp [Scene.raises]
  each := fun k _ hw' => by
    rw [getElem?_write, Option.map_eq_some_iff] at hw'
    obtain ⟨old, hold, rfl⟩ := hw'
    refine ⟨old, hold, fun a => ?_, ?_⟩
    · split_ifs <;> rfl
    · split_ifs with heq
      · subst heq
        cases hw.symm.trans hold
        exact .inr happ
      · exact .inl rfl

section

variable (h : Orderly canExec s) (hover : s.closed = false)

include h hover

/-- A workload is scaled down.  Its memo is its size before the export, also when it has
been scaled down before. -/
theorem orderly_pause (hw : s.workloads[index]? = some w) : Orderly canExec (s.write index
      { w with replicas := some 0, memo := some (w.memo.getD (replicasOf w.replicas)) }) := by
  have hmem := mem_of_getElem? hw
  have hsize : w.memo.getD (replicasOf w.replicas) = w.before := by
    cases hmemo : w.memo with
    | none => exact h.size w hmem hmemo
    | some n => exact h.memo w hmem n hmemo
  refine ⟨fun w' hw' hnone => ?_, fun w' hw' m hm => ?_, h.marked, fun hexec => ?_, fun hover' => ?_⟩
  · rcases mem_write hw hw' with hold | rfl
    · exact h.size w' hold hnone
    · cases hnone
  · rcases mem_write hw hw' with hold | rfl
    · exact h.memo w' hold m hm
    · rw [← Option.some.inj hm, hsize]
  · simp [Scene.write, h.hooks hexec]
  · exact absurd hover' (by simp [Scene.write, hover])

/-- **`scaleOne` to zero.** -/
theorem goes_scaleOne_zero (hw : s.workloads[index]? = some w) (happ : workloadOfApp w app) :
    Goes canExec (fun _ s' => Pauses app s s' ∧ ∀ k, k ≠ index → s'.workloads[k]? = s.workloads[k]?)
      (Pauses app s) (scaleOne (some 0) (w, index)) s := by
  have hpauses := pauses_write hw happ (some 0) (w.memo.getD (replicasOf w.replicas))
  refine goes_must (goes_updateWorkload h (orderly_pause h hover hw) ?_ ?_ ?_)
  · exact ⟨hpauses, fun k hne => getElem?_write_of_ne s _ hne⟩
  · exact fun _ => hpauses
  · exact fun _ => .refl s

/-- To pause workloads pauses the app alone. -/
theorem goes_scaleEach_zero
    (hcurrent : Current s entries) (hmine : ∀ e ∈ entries, workloadOfApp e.1 app) :
    Goes canExec (fun _ => Pauses app s) (Pauses app s) (scaleEach (some 0) entries) s := by
  induction entries generalizing s with
  | nil => exact .pure (.refl s)
  | cons e entries ih =>
    have hone := goes_scaleOne_zero h hover (hcurrent.here e mem_cons_self) (hmine e mem_cons_self)
    refine .seq h hone fun _ _ h1 hs1 => ?_
    obtain ⟨hpauses, hothers⟩ := hs1
    exact .mono (ih h1 (hpauses.closed.trans hover) (hcurrent.tail hothers)
        fun e' he' => hmine e' (mem_cons_of_mem _ he'))
      (fun _ _ hs2 => hpauses.trans hs2) fun _ hs2 => hpauses.trans hs2

theorem goes_scaleKind_zero (kind : WorkloadKind) :
    Goes canExec (fun _ => Pauses app s) (Pauses app s) (scaleKind app (some 0) kind) s := by
  refine .bind (goes_listWorkloads h ?_ fun _ => .throw (.refl s))
  simp only [filter_filter]
  refine .seq h (goes_scaleEach_zero h hover (current_filter s _) fun e he => ?_)
    fun _ _ _ hs1 => .pure hs1
  exact (Bool.and_eq_true_iff.1 (mem_filter.1 he).2).1

/-- **`scaleAppWorkloads` to zero**, also when it fails. -/
theorem goes_scaleDown :
    Goes canExec (fun mode s' => mode = .scaleDown ∧ Pauses app s s') (Pauses app s)
      (scaleDown app) s := by
  refine .seq h (.seq h (goes_scaleKind_zero h hover .deployment) fun n s1 h1 hs1 => ?_)
    fun _ s2 _ hs2 => .pure ⟨rfl, hs2⟩
  have hstate : Goes canExec (fun _ => Pauses app s1) (Pauses app s1) _ s1 :=
    goes_scaleKind_zero h1 (hs1.closed.trans hover) .statefulSet
  refine .seq h1 (.mono hstate (fun _ _ hs2 => hs1.trans hs2)
    fun _ hs2 => hs1.trans hs2) fun m s2 _ hs2 => ?_
  split_ifs
  · exact .throw hs2
  · exact .pure hs2

/-- **`quiesceApp`**: by the command the app comes into maintenance, otherwise it is at
most scaled down. -/
theorem goes_quiesceApp (spec : Option BackupSpec) :
    Goes canExec (fun mode s' => mode = .command ∧ s' = s.ran app .pre ∨
        mode ≠ .command ∧ Pauses app s s')
      (Pauses app s) (quiesceApp canExec app spec) s := by
  have hdown : Goes canExec (fun mode s' => mode = .command ∧ s' = s.ran app .pre ∨
      mode ≠ .command ∧ Pauses app s s') (Pauses app s) (scaleDown app) s := by
    refine .mono (goes_scaleDown h hover) ?_ fun _ hs' => hs'
    rintro mode s' ⟨rfl, hs'⟩
    exact .inr ⟨by simp, hs'⟩
  unfold quiesceApp
  split_ifs with hnone hexec
  · exact .pure (.inr ⟨by simp, .refl s⟩)
  · have hran : Orderly canExec (s.ran app .pre) := by
      refine ⟨h.size, h.memo, h.marked, fun hcan => ?_, fun hover' => ?_⟩
      · exact absurd (hcan ▸ (Bool.and_eq_true_iff.1 hexec).2) (by simp)
      · exact absurd (hover.symm.trans hover') (by simp)
    exact .bind (goes_execAppCommand hran h (.pure (.inl ⟨rfl, rfl⟩)) nofun fun _ => hdown)
  · exact hdown

end

/-! ### The neighbours of an app that is paused -/

/-- Pausing one app over and over, wherever calls fail and whenever the operator stops. -/
def pauseLoop (app : String) :
    Loop Scene Bool Call Call.Answer (Except Unit Unit) Fate Unit where
  pass := (scaleAppWorkloads app (some 0)).run
  exec := execCall
  finish := fun _ s => s
  env := fun _ _ => some true

/-- Every workload of a scene that is not the app's is still as it was. -/
def Spared (app : String) (s₀ s : Scene) : Prop :=
  ∀ (k : ℕ) (w : Workload), s₀.workloads[k]? = some w → workloadOfApp w app = false →
    s.workloads[k]? = some w

/-- A workload with the instance label of the app that made it, and no other's. -/
structure Workload.MadeBy (w : Workload) (ns app : String) : Prop where
  carries : w.labels.inst ≠ none ∨ w.podLabels.inst ≠ none
  own : ∀ ls ∈ [w.labels, w.podLabels], ∀ l ∈ ls.inst,
    l = Backup.appRelease app ∨ l = Backup.directRelease ns app

/-- Nothing on a workload of `other` is `app`, nor begins with it where that is looked at. -/
structure Workload.Apart (w : Workload) (ns app other : String) : Prop where
  release : GoStrings.hasPrefix (Backup.appRelease other) app = false
  direct : GoStrings.hasPrefix (Backup.directRelease ns other) app = false
  name : w.name ≠ app
  labels : ∀ ls ∈ [w.labels, w.podLabels], ls.app ≠ some app ∧ ls.name ≠ some app

/-- A workload of another app is not taken for the app's. -/
theorem workloadOfApp_of_apart {ns other : String} (hmade : w.MadeBy ns other)
    (hapart : w.Apart ns app other) : workloadOfApp w app = false := by
  have hempty : app ≠ "" := by
    rintro rfl
    exact absurd hapart.release (by simp [GoStrings.hasPrefix])
  have hlabels : ∀ ls ∈ [w.labels, w.podLabels], ∀ name, name ≠ app →
      workloadBelongsToApp ls name app = false := by
    intro ls hls name hname
    obtain ⟨happ, hlabel⟩ := hapart.labels ls hls
    have hown : ls.app.getD "" ≠ app := by
      cases hl : ls.app with
      | none => exact hempty.symm
      | some l => simpa [hl] using happ
    have hinst : ls.inst.any (fun i => GoStrings.hasPrefix i app) = false := by
      cases hl : ls.inst with
      | none => rfl
      | some l =>
        rcases hmade.own ls hls l hl with rfl | rfl
        · exact hapart.release
        · exact hapart.direct
    simp [workloadBelongsToApp, hown, hinst, hlabel, hname]
  rw [workloadOfApp, hlabels _ (by simp) _ hapart.name, hlabels _ (by simp) "" hempty.symm]
  rfl

section sparing

variable {s₀ : Scene}

/-- A part of a pass that leaves the workloads of other apps alone. -/
abbrev Spares (app : String) (s₀ : Scene) (x : PassOf β) (s : Scene) : Prop :=
  AlongE (pauseLoop app) ⟨Spared app s₀, fun _ => True, fun _ _ _ => True⟩ (fun _ _ => True)
    (fun _ => True) x s

/-- Other apps' workloads are spared. -/
theorem spares_scaleEach (h : Spared app s₀ s) (hmine : ∀ e ∈ entries, ∀ w,
      s₀.workloads[e.2]? = some w → workloadOfApp w app) :
    Spares app s₀ (scaleEach (some 0) entries) s := by
  induction entries generalizing s with
  | nil => exact .pure trivial
  | cons e entries ih =>
    obtain ⟨w, index⟩ := e
    have hwrite : ∀ w', Spared app s₀ (s.write index w') := by
      intro w' k v hv hnot
      have hne : k ≠ index := by
        rintro rfl
        exact absurd (hmine (w, k) mem_cons_self v hv) (by simp [hnot])
      exact (getElem?_write_of_ne s w' hne).trans (h k v hv hnot)
    have hone : Spares app s₀ (scaleOne (some 0) (w, index)) s := by
      refine .bind (.call fun d f r _ _ hexec => ?_)
      cases f with
      | ok | lost =>
        cases hexec
        exact ⟨hwrite _, trivial⟩
      | fails =>
        cases hexec
        exact ⟨h, trivial⟩
      | spec found | verdict v => cases hexec
    exact .seq h hone fun _ _ h1 _ => ih h1 fun e he => hmine e (mem_cons_of_mem _ he)

theorem spares_scaleKind (h : Spared app s₀ s) (kind : WorkloadKind) :
    Spares app s₀ (scaleKind app (some 0) kind) s := by
  refine .bind (.call fun d f r _ _ hexec => ?_)
  cases f with
  | ok =>
    cases hexec
    -- an entry that is listed as the app's was the app's from the start
    have hmine : ∀ e ∈ (s.workloads.zipIdx.filter fun e => e.1.kind = kind).filter
        fun e => workloadOfApp e.1 app, ∀ w, s₀.workloads[e.2]? = some w →
        workloadOfApp w app := by
      intro e he w hw
      obtain ⟨hlisted, hmine⟩ := mem_filter.1 he
      by_contra hnot
      have hstill := h e.2 w hw (by simpa using hnot)
      cases hstill.symm.trans ((current_filter s _).here e hlisted)
      exact hnot hmine
    exact ⟨h, .seq h (spares_scaleEach h hmine) fun _ _ _ _ => .pure trivial⟩
  | fails =>
    cases hexec
    exact ⟨h, .throw trivial⟩
  | lost | spec found | verdict v => cases hexec

/-- The workload of an app as the platform's release makes it. -/
def madeFor (app : String) : Workload where
  kind := .deployment
  name := app
  labels := ⟨none, some (Backup.appRelease app), none⟩
  podLabels := ⟨none, none, none⟩
  replicas := some 2
  memo := none
  before := 2

theorem madeFor_madeBy (ns app : String) : (madeFor app).MadeBy ns app :=
  ⟨.inl nofun, by simp [madeFor]⟩

/-- A pass in which every call is answered, with so many workloads to scale. -/
def answered (writes : ℕ) : List (Move Fate Unit) :=
  .begin :: replicate (writes + 2) (.run .ok) ++ [.finish]

end sparing

end Gentian.Export
