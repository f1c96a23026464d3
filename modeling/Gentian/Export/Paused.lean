/-
# No app is left paused

Between the passes of an export the stored status names what is paused (`RecordedIn`), so that
a pass after a crash can resume it; an export that is over has then nothing paused.

The one window is between a pause and the status update that records it: what follows resumes
what the status names and nothing else.  And a `post` command that fails leaves the app in
maintenance: scaling to the memo does nothing to workloads that have none (`app_left_paused`).
-/

import Gentian.Export.Scaling

namespace Gentian.Export

open Threads Passes List

variable {canExec : Bool} {s s' : Scene} {st st' : ExportStatus} {app : String}

/-! ### What a status records -/

/-- Two statuses that say the same of what is paused. -/
structure ExportStatus.SamePauses (st st' : ExportStatus) : Prop where
  quiesced : st'.quiesced = st.quiesced
  start : ∀ a, (st'.apps a).quiesceStart = (st.apps a).quiesceStart
  mode : ∀ a, (st'.apps a).quiesceMode = (st.apps a).quiesceMode

theorem samePauses_setEntry (st : ExportStatus) (app : String) (f : AppEntry → AppEntry)
    (hstart : ∀ e, (f e).quiesceStart = e.quiesceStart)
    (hmode : ∀ e, (f e).quiesceMode = e.quiesceMode) : st.SamePauses (st.setEntry app f) where
  quiesced := rfl
  start := fun a => by
    by_cases heq : a = app
    · subst heq
      simp [ExportStatus.setEntry, hstart]
    · simp [ExportStatus.setEntry, heq]
  mode := fun a => by
    by_cases heq : a = app
    · subst heq
      simp [ExportStatus.setEntry, hmode]
    · simp [ExportStatus.setEntry, heq]

namespace ExportStatus

theorem SamePauses.unmark (h : st.SamePauses st') (app : String) :
    (st.unmark app).SamePauses (st'.unmark app) :=
  ⟨by simp [ExportStatus.unmark, h.quiesced], h.start, h.mode⟩

/-- Marks depend on what is paused alone. -/
theorem Marked.same (hm : st.Marked) (h : st.SamePauses st') : st'.Marked where
  start := fun a ha => by
    rw [h.start]
    exact hm.start a (h.quiesced ▸ ha)
  mode := fun a ha => by
    rw [h.mode]
    exact hm.mode a (h.start a ▸ ha)

theorem Marked.unmark (hm : st.Marked) (app : String) : (st.unmark app).Marked :=
  ⟨fun a ha => hm.start a (mem_filter.1 ha).1, hm.mode⟩

variable {a : String}

/-- What is marked. -/
theorem mem_mark : a ∈ (st.mark app).quiesced ↔ a ∈ st.quiesced ∨ a = app := by
  rw [mark]
  split_ifs with hmem
  · refine ⟨.inl, fun h => h.elim (fun h => h) ?_⟩
    rintro rfl
    simpa using hmem
  · simp

/-- What is marked no more. -/
theorem mem_unmark : a ∈ (st.unmark app).quiesced ↔ a ∈ st.quiesced ∧ a ≠ app := by
  simp [unmark]

/-- What is paused. -/
theorem mem_paused {mode : QuiesceMode} :
    a ∈ (st.paused app mode).quiesced ↔ a ∈ st.quiesced ∨ a = app :=
  mem_mark

theorem apps_paused_self (st : ExportStatus) (app : String) (mode : QuiesceMode) :
    (st.paused app mode).apps app =
      { st.apps app with quiesceStart := true, quiesceMode := some mode, phase := .running } := by
  simp [paused, mark, setEntry]

theorem apps_paused_of_ne (st : ExportStatus) (mode : QuiesceMode) (hne : a ≠ app) :
    (st.paused app mode).apps a = st.apps a := by
  simp [paused, mark, setEntry, hne]

theorem Marked.paused (hm : st.Marked) (app : String) (mode : QuiesceMode) :
    (st.paused app mode).Marked where
  start := fun a ha => by
    by_cases heq : a = app
    · rw [heq, apps_paused_self]
    · rw [apps_paused_of_ne st mode heq]
      exact hm.start a ((mem_paused.1 ha).resolve_right heq)
  mode := fun a ha => by
    by_cases heq : a = app
    · rw [heq, apps_paused_self] at ha
      cases ha
    · rw [apps_paused_of_ne st mode heq] at ha ⊢
      exact hm.mode a ha

end ExportStatus

open ExportStatus

theorem RecordedIn.same (h : RecordedIn st s) (hst : st.SamePauses st') : RecordedIn st' s where
  scaled := fun w hw hmemo => by
    obtain ⟨a, ha, hof, hmode⟩ := h.scaled w hw hmemo
    exact ⟨a, hst.quiesced ▸ ha, hof, by rwa [hst.mode]⟩
  hooked := fun a ha => by
    rw [hst.quiesced, hst.mode]
    exact h.hooked a ha

theorem RecordedIn.mark (h : RecordedIn st s) (app : String) : RecordedIn (st.mark app) s where
  scaled := fun w hw hmemo => by
    obtain ⟨a, ha, hof, hmode⟩ := h.scaled w hw hmemo
    exact ⟨a, mem_mark.2 (.inl ha), hof, hmode⟩
  hooked := fun a ha => ⟨mem_mark.2 (.inl (h.hooked a ha).1), (h.hooked a ha).2⟩

/-- A resumed app may be unmarked. -/
theorem RecordedIn.unmark (h : RecordedIn (st.mark app) s)
    (hscaled : (st.apps app).quiesceMode = some .command ∨
      ∀ w ∈ s.workloads, workloadOfApp w app → w.memo = none)
    (howing : app ∉ s.owing) : RecordedIn (st.unmark app) s where
  scaled := fun w hw hmemo => by
    obtain ⟨a, ha, hof, hmode⟩ := h.scaled w hw hmemo
    have hne : a ≠ app := by
      rintro rfl
      exact hscaled.elim (hmode) fun hnone => hmemo (hnone w hw hof)
    exact ⟨a, mem_unmark.2 ⟨(mem_mark.1 ha).resolve_right hne, hne⟩, hof, hmode⟩
  hooked := fun a ha => by
    have hne : a ≠ app := fun heq => howing (heq ▸ ha)
    obtain ⟨hmem, hmode⟩ := h.hooked a ha
    exact ⟨mem_unmark.2 ⟨(mem_mark.1 hmem).resolve_right hne, hne⟩, hmode⟩

section

variable (h : RecordedIn st s) (hm : st.Marked) (hstart : (st.apps app).quiesceStart = false)

include h hm hstart

/-- A command that has run is on record. -/
theorem RecordedIn.ran :
    RecordedIn (st.paused app .command) (s.ran app .pre) where
  scaled := fun w hw hmemo => by
    obtain ⟨a, ha, hof, hmode⟩ := h.scaled w hw hmemo
    have hne : a ≠ app := fun heq => by simp [← heq, hm.start a ha] at hstart
    exact ⟨a, mem_paused.2 (.inl ha), hof, by rwa [apps_paused_of_ne st _ hne]⟩
  hooked := fun a ha => by
    by_cases heq : a = app
    · rw [heq, apps_paused_self]
      exact ⟨mem_paused.2 (.inr rfl), rfl⟩
    · obtain ⟨hmem, hmode⟩ := h.hooked a ((mem_cons.1 ha).resolve_left heq)
      rw [apps_paused_of_ne st _ heq]
      exact ⟨mem_paused.2 (.inl hmem), hmode⟩

/-- A workload that was scaled is on record. -/
theorem RecordedIn.pauses {mode : QuiesceMode} (hmode : mode ≠ .command)
    (hs : Pauses app s s') : RecordedIn (st.paused app mode) s' where
  scaled := fun w' hw' hmemo => by
    obtain ⟨k, hk⟩ := mem_iff_getElem?.1 hw'
    obtain ⟨w, hw, -, rfl | hmine⟩ := hs.each k w' hk
    · obtain ⟨a, ha, hof, hother⟩ := h.scaled w' (mem_of_getElem? hw) hmemo
      have hne : a ≠ app := fun heq => by simp [← heq, hm.start a ha] at hstart
      exact ⟨a, mem_paused.2 (.inl ha), hof, by rwa [apps_paused_of_ne st _ hne]⟩
    · refine ⟨app, mem_paused.2 (.inr rfl), hmine, ?_⟩
      rw [apps_paused_self]
      simpa using hmode
  hooked := fun a ha => by
    obtain ⟨hmem, hcmd⟩ := h.hooked a (hs.owing ▸ ha)
    have hne : a ≠ app := fun heq => by simp [← heq, hm.start a hmem] at hstart
    rw [apps_paused_of_ne st _ hne]
    exact ⟨mem_paused.2 (.inl hmem), hcmd⟩

theorem RecordedIn.pauses_mark (hs : Pauses app s s') :
    RecordedIn (st.mark app) s' where
  scaled := fun w' hw' hmemo => by
    obtain ⟨k, hk⟩ := mem_iff_getElem?.1 hw'
    obtain ⟨w, hw, -, rfl | hmine⟩ := hs.each k w' hk
    · exact (h.mark app).scaled w' (mem_of_getElem? hw) hmemo
    · refine ⟨app, mem_mark.2 (.inr rfl), hmine, ?_⟩
      change (st.apps app).quiesceMode ≠ _
      rw [hm.mode app hstart]
      simp
  hooked := fun a ha => (h.mark app).hooked a (hs.owing ▸ ha)

end

/-- **When the status names no app, none is paused.** -/
theorem RecordedIn.allResumed (h : RecordedIn st s) (hs : Orderly canExec s)
    (hnone : st.quiesced = []) : AllResumed s where
  scaled := fun w hw => by
    have hmemo : w.memo = none := by
      by_contra hmemo
      obtain ⟨a, ha, -⟩ := h.scaled w hw hmemo
      simp [hnone] at ha
    exact ⟨hmemo, hs.size w hw hmemo⟩
  hooked := eq_nil_iff_forall_not_mem.2 fun a ha => by
    have := (h.hooked a ha).1
    simp [hnone] at this

/-! ### Programs of the pass -/

theorem Shrinks.ran_post (s : Scene) (app : String) : Shrinks s (s.ran app .post) where
  status := rfl
  gone := rfl
  closed := rfl
  owing := fun _ ha => (mem_filter.1 ha).1
  each := fun _ w' h => ⟨w', h, rfl, fun _ => rfl, fun _ => rfl⟩

/-- The command that ends a pause keeps the order. -/
theorem Orderly.ran_post (h : Orderly canExec s) (app : String) :
    Orderly canExec (s.ran app .post) where
  size := h.size
  memo := h.memo
  marked := h.marked
  hooks := fun hcan => by simp [Scene.ran, h.hooks hcan]
  closed := fun hover => by
    obtain ⟨hall, hends⟩ := h.closed hover
    exact ⟨⟨hall.scaled, by simp [Scene.ran, hall.hooked]⟩, hends⟩

theorem Shrinks.failed_post (s : Scene) (app : String) : Shrinks s (s.failed app .post) where
  status := rfl
  gone := rfl
  closed := rfl
  owing := fun _ ha => ha
  each := fun _ w' h => ⟨w', h, rfl, fun _ => rfl, fun _ => rfl⟩

theorem Orderly.failed_post (h : Orderly canExec s) (app : String) :
    Orderly canExec (s.failed app .post) :=
  ⟨h.size, h.memo, h.marked, h.hooks, fun hover =>
    ⟨⟨(h.closed hover).1.scaled, (h.closed hover).1.hooked⟩, (h.closed hover).2⟩⟩

/-- **`resumeQuiescedApp` with the mode that is recorded**: what is paused is then recorded
without the app. -/
theorem goes_resumeQuiescedApp (h : Orderly canExec s) (hrec : RecordedIn (st.mark app) s) :
    Goes canExec (fun _ s' => Shrinks s s' ∧ RecordedIn (st.unmark app) s') Stored
      (resumeQuiescedApp canExec app (st.apps app).quiesceMode) s := by
  have hscale : ∀ {s1}, Orderly canExec s1 → Shrinks s s1 → app ∉ s1.owing →
      Goes canExec (fun _ s' => Shrinks s s' ∧ RecordedIn (st.unmark app) s') Stored
        (scaleAppWorkloads app none) s1 := by
    intro s1 h1 hs1 howing
    refine .mono (goes_scale_memo h1) ?_ fun _ hs' => hs'.2
    rintro - s' ⟨hs', hnone⟩
    have hshrinks := hs1.trans hs'
    exact ⟨hshrinks, (hrec.shrinks hshrinks).unmark (.inr hnone) fun ha => howing (hs'.owing _ ha)⟩
  refine .bind (goes_resolveSpec h fun _ hpost => ?_)
  unfold unquiesceApp
  split_ifs with hcmd
  · have hmode : (st.apps app).quiesceMode = some .command := by
      cases hq : (st.apps app).quiesceMode <;> simp_all
    refine .bind (goes_execAppCommand (h.ran_post app) (h.failed_post app) ?_ (fun _ => ?_)
      fun hnot => ?_)
    · refine .pure ⟨.ran_post s app, ?_⟩
      refine (hrec.shrinks (.ran_post s app)).unmark (.inl hmode) ?_
      simp [Scene.ran]
    · exact hscale (h.ran_post app) (.ran_post s app) (by simp [Scene.ran])
    · exact hscale (h.failed_post app) (.failed_post s app) (hnot.resolve_left (by simp))
  · refine hscale h (.refl s) fun howing => hcmd ?_
    -- an app in maintenance is recorded with its mode, and has a `post` command
    have hmode : (st.apps app).quiesceMode = some .command := (hrec.hooked app howing).2
    have hcan : canExec := by
      by_contra hcan
      simp [h.hooks (by simpa using hcan)] at howing
    simp [hmode, hpost howing, hcan]

/-- **`persist`** of a status that records what is paused. -/
theorem goes_persist (h : Orderly canExec s) (hrec : RecordedIn st s) (hm : st.Marked)
    (hgone : s.gone = false) (hends : s.closed → st.isTerminal) :
    Goes canExec (fun _ s' => s' = { s with status := st }) Stored (persist st) s := by
  have hput : Orderly canExec { s with status := st } :=
    ⟨h.size, h.memo, hm, h.hooks, fun hover =>
      ⟨⟨(h.closed hover).1.scaled, (h.closed hover).1.hooked⟩, .inr (hends hover)⟩⟩
  refine goes_must (.call fun d f r s' hcond hexec => ?_)
  simp only [exportLoop] at hexec
  cases f with
  | ok =>
    rw [execCall, if_neg (by simp [hgone])] at hexec
    cases hexec
    exact ⟨hput, rfl⟩
  | lost =>
    rw [execCall, if_neg (by simp [hgone])] at hexec
    cases hexec
    exact ⟨hput, hrec.scaled, hrec.hooked⟩
  | fails =>
    cases hexec
    exact ⟨h, hcond⟩
  | spec found | verdict v => cases hexec

/-- What is paused stays recorded, also when the pass ends with an error. -/
abbrev Stores {β : Type} (canExec : Bool) (x : PassOf β) (s : Scene) : Prop :=
  Goes canExec (fun _ => Stored) Stored x s

/-- The last status of a run may be written. -/
theorem goes_persist_last (h : Orderly canExec s) (hrec : RecordedIn st s) (hm : st.Marked)
    (hgone : s.gone = false) (hends : s.closed → st.isTerminal) :
    Stores canExec (persist st) s := by
  refine .mono (goes_persist h hrec hm hgone hends) ?_ fun _ hs' => hs'
  rintro - s' rfl
  exact ⟨hrec.scaled, hrec.hooked⟩

/-- The pass holds a status that records what is paused, and so does the one stored. -/
structure Held (st : ExportStatus) (s : Scene) : Prop where
  own : RecordedIn st s
  marked : st.Marked
  stored : Stored s
  there : s.gone = false

theorem Held.same (h : Held st s) (hst : st.SamePauses st') : Held st' s :=
  ⟨h.own.same hst, h.marked.same hst, h.stored, h.there⟩

theorem Held.shrinks (h : Held st s) (hs : Shrinks s s') : Held st s' :=
  ⟨h.own.shrinks hs, h.marked, .shrinks h.stored hs, hs.gone.trans h.there⟩

/-- A status that was written is held. -/
theorem held_persisted (hrec : RecordedIn st s) (hm : st.Marked) (hgone : s.gone = false) :
    Held st { s with status := st } :=
  ⟨⟨hrec.scaled, hrec.hooked⟩, hm, ⟨hrec.scaled, hrec.hooked⟩, hgone⟩

section

variable (h : Orderly canExec s)

include h

/-- What is held may be written again. -/
theorem goes_persist_held (hheld : Held st s) (hover : s.closed = false) :
    Stores canExec (persist st) s :=
  goes_persist_last h hheld.own hheld.marked hheld.there fun h => by simp [hover] at h

/-- **The loop of `resumeAll` and `resumeStale`.** -/
theorem goes_resumeEach (hheld : Held st s) (apps : List String) :
    Goes canExec (fun st' s' => Held st' s' ∧ Shrinks s s' ∧ st'.phase = st.phase ∧
        ∀ a ∈ st'.quiesced, a ∈ st.quiesced ∧ a ∉ apps)
      Stored (resumeEach canExec st apps) s := by
  induction apps generalizing st s with
  | nil => exact .pure ⟨hheld, .refl s, rfl, fun a ha => ⟨ha, not_mem_nil⟩⟩
  | cons app apps ih =>
    refine .seq h (goes_resumeQuiescedApp h (hheld.own.mark app)) fun _ s1 h1 hs1 => ?_
    obtain ⟨hshrinks, hrec⟩ := hs1
    have hheld1 : Held (st.unmark app) s1 :=
      ⟨hrec, hheld.marked.unmark app, .shrinks hheld.stored hshrinks,
        hshrinks.gone.trans hheld.there⟩
    refine .mono (ih h1 hheld1) ?_ fun _ hs' => hs'
    rintro st' s' ⟨hheld', hshrinks', hphase, hleft⟩
    refine ⟨hheld', hshrinks.trans hshrinks', hphase, fun a ha => ?_⟩
    obtain ⟨hmem, hrest⟩ := hleft a ha
    obtain ⟨hmem, hne⟩ := mem_unmark.1 hmem
    exact ⟨hmem, by simp [hne, hrest]⟩

/-- **`resumeAll`.** -/
theorem goes_resumeAll (hheld : Held s.status s)
    (hends : s.closed → s.status.isTerminal) :
    Goes canExec (fun _ s' => Stored s' ∧ s'.status.quiesced = [] ∧
        s'.status.isTerminal = s.status.isTerminal)
      Stored (resumeAll canExec s.status) s := by
  unfold resumeAll
  split_ifs with hnone
  · exact .pure ⟨hheld.stored, hnone, rfl⟩
  · refine .seq h (goes_resumeEach h hheld s.status.quiesced) fun st' _ h1 hs1 => ?_
    obtain ⟨hheld1, hshrinks, hphase, hleft⟩ := hs1
    have hterm : st'.isTerminal = s.status.isTerminal := by simp [isTerminal, hphase]
    refine .mono (goes_persist h1 hheld1.own hheld1.marked hheld1.there fun hover => ?_) ?_
      fun _ hs' => hs'
    · rw [hterm]
      exact hends (hshrinks.closed ▸ hover)
    · rintro - s' rfl
      refine ⟨⟨hheld1.own.scaled, hheld1.own.hooked⟩, ?_, hterm⟩
      exact eq_nil_iff_forall_not_mem.2 fun a ha => (hleft a ha).2 (hleft a ha).1

/-- **`resumeStale`.** -/
theorem goes_resumeStale (hheld : Held st s) (hover : s.closed = false)
    (current : Option String) : Goes canExec (fun st' s' => Held st' s' ∧ s'.closed = false) Stored
      (resumeStale canExec st current) s := by
  rw [resumeStale]
  split_ifs
  · exact .pure ⟨hheld, hover⟩
  · refine .seq h (goes_resumeEach h hheld _) fun st' _ h1 hs1 => ?_
    obtain ⟨hheld1, hshrinks, -, -⟩ := hs1
    have hover1 := hshrinks.closed.trans hover
    refine .seq h1 (goes_persist h1 hheld1.own hheld1.marked hheld1.there
      fun h => by simp [hover1] at h) fun _ _ _ hs2 => ?_
    subst hs2
    exact .pure ⟨held_persisted hheld1.own hheld1.marked hheld1.there, hover1⟩

/-- An export that fails leaves nothing unrecorded. -/
theorem goes_failExport (hrec : RecordedIn st s) (hm : st.Marked)
    (hgone : s.gone = false) : Stores canExec (failExport st) s := by
  have hsame : st.SamePauses { st with phase := .failed } := ⟨rfl, fun _ => rfl, fun _ => rfl⟩
  exact goes_persist_last h (hrec.same hsame) (hm.same hsame) hgone fun _ => rfl

/-- **`failApp`**, also of an app whose pause has just failed. -/
theorem goes_failApp (hrec : RecordedIn (st.mark app) s)
    (hm : st.Marked) (hgone : s.gone = false) : Stores canExec (failApp canExec st app) s := by
  refine .seq h (goes_resumeQuiescedApp h hrec) fun _ _ h1 hs1 => ?_
  obtain ⟨hshrinks, hrec1⟩ := hs1
  have hsame := samePauses_setEntry (st.unmark app) app (fun e =>
    { e with quiesceEnd := e.quiesceEnd || e.quiesceStart, phase := .failed })
    (fun _ => rfl) fun _ => rfl
  exact goes_failExport h1 (hrec1.same hsame) ((hm.unmark app).same hsame)
    (hshrinks.gone.trans hgone)

end

section

variable (h : Orderly canExec s) (hheld : Held st s) (hover : s.closed = false)

include h hheld hover

/-- An app that was captured is resumed. -/
theorem goes_captureDone :
    Stores canExec (captureDone canExec st app) s := by
  refine .seq h (goes_resumeQuiescedApp h (hheld.own.mark app)) fun _ _ h1 hs1 => ?_
  obtain ⟨hshrinks, hrec1⟩ := hs1
  have hover1 := hshrinks.closed.trans hover
  have hsame := samePauses_setEntry st app (fun e => { e with quiesceEnd := true, phase := .ready })
    (fun _ => rfl) fun _ => rfl
  have hheld1 := (hheld.shrinks hshrinks).same hsame
  refine .bind (goes_ask h1 fun v => ?_)
  cases v with
  | fail => exact goes_failApp h1 (hheld1.own.mark app) hheld1.marked hheld1.there
  | error | wait =>
    exact goes_persist_held h1
      (hheld1.same (samePauses_setEntry _ app _ (fun _ => rfl) fun _ => rfl)) hover1
  | go _ _ =>
    exact goes_persist_last h1 (hrec1.same (hsame.unmark app)) (hheld1.marked.unmark app)
      hheld1.there fun h => by simp [hover1] at h

/-- An app that is paused is captured. -/
theorem goes_capturePaused :
    Stores canExec (capturePaused canExec st app) s := by
  refine .bind (goes_ask h fun v => ?_)
  cases v with
  | error => exact .throw hheld.stored
  | fail => exact goes_failApp h (hheld.own.mark app) hheld.marked hheld.there
  | wait => exact goes_persist_held h hheld hover
  | go _ _ => exact goes_captureDone h hheld hover

/-- **The pause, and the status update that records it.**  Between the two the stored
status does not name the app. -/
theorem goes_capturePause (hstart : (st.apps app).quiesceStart = false) (spec : Option BackupSpec) :
    Stores canExec (capturePause canExec st app spec) s := by
  have hpause : Goes canExec (fun r s' => s'.gone = false ∧ s'.closed = false ∧
      match r with
      | .ok mode => RecordedIn (st.paused app mode) s'
      | .error _ => RecordedIn (st.mark app) s')
      Stored (quiesceApp canExec app spec).attempt s := by
    refine .attempt (.mono (goes_quiesceApp h hover spec) ?_ ?_)
    · rintro mode s' (⟨rfl, rfl⟩ | ⟨hmode, hs'⟩)
      · exact ⟨hheld.there, hover, hheld.own.ran hheld.marked hstart⟩
      · exact ⟨hs'.gone.trans hheld.there, hs'.closed.trans hover,
          hheld.own.pauses hheld.marked hstart hmode hs'⟩
    · intro s' hs' _
      exact ⟨hs'.gone.trans hheld.there, hs'.closed.trans hover,
        hheld.own.pauses_mark hheld.marked hstart hs'⟩
  refine .seq h hpause fun r _ h1 hs1 => ?_
  obtain ⟨hgone, hover1, hrec⟩ := hs1
  cases r with
  | error e => exact goes_failApp h1 hrec hheld.marked hgone
  | ok mode =>
    have hm := hheld.marked.paused app mode
    refine .seq h1 (goes_persist h1 hrec hm hgone fun h => by simp [hover1] at h)
      fun _ _ h2 hs2 => ?_
    subst hs2
    exact goes_capturePaused h2 (held_persisted hrec hm hgone) hover1

/-- An app is paused before it is captured. -/
theorem goes_captureApp :
    Stores canExec (captureApp canExec st app) s := by
  refine .bind (goes_resolveSpec h fun found _ => ?_)
  cases found with
  | none => exact .throw hheld.stored
  | some spec =>
    split_ifs with hstart
    · exact goes_capturePaused h hheld hover
    · exact goes_capturePause h hheld hover (by simpa using hstart) spec

theorem goes_captureRetained : Stores canExec (captureRetained st app) s := by
  have hset : ∀ p, Held (st.setEntry app fun e => { e with phase := p }) s := fun p =>
    hheld.same (samePauses_setEntry st app _ (fun _ => rfl) fun _ => rfl)
  refine .bind (goes_ask h fun v => ?_)
  cases v with
  | error => exact .throw hheld.stored
  | fail => exact goes_failExport h (hset .failed).own (hset .failed).marked hheld.there
  | wait => exact goes_persist_held h (hset .running) hover
  | go _ _ => exact goes_persist_held h (hset .ready) hover

end

theorem Held.phase (h : Held st s) (p : Phase) : Held { st with phase := p } s :=
  h.same ⟨rfl, fun _ => rfl, fun _ => rfl⟩

section

variable (h : Orderly canExec s) (hheld : Held st s) (hover : s.closed = false)

include h hheld hover

/-- The end of an export. -/
theorem goes_finishExport :
    Stores canExec (finishExport st) s := by
  refine .bind (goes_ask h fun v => ?_)
  cases v with
  | error => exact .throw hheld.stored
  | fail => exact goes_failExport h hheld.own hheld.marked hheld.there
  | wait => exact goes_persist_held h hheld hover
  | go _ _ => exact goes_persist_held h (hheld.phase .ready) hover

/-- The next app of an export. -/
theorem goes_captureNext
    (apps retained : List String) : Stores canExec (captureNext canExec st apps retained) s := by
  refine .seq h (goes_resumeStale h hheld hover _) fun _ _ h1 hs1 => ?_
  obtain ⟨hheld1, hover1⟩ := hs1
  cases st.nextPendingApp apps with
  | none => exact goes_finishExport h1 hheld1 hover1
  | some _ =>
    simp only []
    split_ifs
    · exact goes_captureRetained h1 hheld1 hover1
    · exact goes_captureApp h1 hheld1 hover1

theorem goes_capture :
    Stores canExec (capture canExec st) s := by
  refine .bind (goes_ask h fun v => ?_)
  cases v with
  | error | wait => exact .throw hheld.stored
  | fail => exact goes_failExport h hheld.own hheld.marked hheld.there
  | go apps retained => exact goes_captureNext h hheld hover apps retained

/-- **A pass of an export that has not ended.** -/
theorem goes_reconcileRunning : Stores canExec (reconcileRunning canExec st) s := by
  refine .bind (goes_ask h fun v => ?_)
  cases v with
  | error => exact .throw hheld.stored
  | fail => exact goes_failExport h hheld.own hheld.marked hheld.there
  | wait => exact goes_persist_held h (hheld.phase .pending) hover
  | go _ _ =>
    split_ifs
    · exact goes_capture h hheld hover
    · have hheld' : Held { st with phase := .running, started := true } s :=
        hheld.same ⟨rfl, fun _ => rfl, fun _ => rfl⟩
      refine .seq h (goes_persist h hheld'.own hheld'.marked hheld.there
        fun h => by simp [hover] at h) fun _ _ h1 hs1 => ?_
      subst hs1
      exact goes_capture h1 (held_persisted hheld'.own hheld'.marked hheld.there) hover

end

section

variable (h : Orderly canExec s)

include h

theorem goes_cleanUp (hstored : Stored s) :
    Goes canExec (fun _ s' => s' = s) Stored cleanUp s := by
  refine .bind (goes_ask h fun v => ?_)
  cases v with
  | go _ _ => exact .pure rfl
  | error | fail | wait => exact .throw hstored

/-- **`finalize`**: the export is gone once nothing is paused. -/
theorem goes_finalize (hheld : Held s.status s)
    (hends : s.closed → s.status.isTerminal) : Stores canExec (finalize canExec s.status) s := by
  refine .seq h (goes_resumeAll h hheld hends) fun _ _ h1 hs1 => ?_
  obtain ⟨hstored, hnone, -⟩ := hs1
  refine .seq h1 (goes_cleanUp h1 hstored) fun _ s2 _ hs2 => ?_
  subst hs2
  have hall := hstored.allResumed h1 hnone
  have hgone : Orderly canExec { s2 with finalizer := false, gone := true, closed := true } :=
    ⟨h1.size, h1.memo, h1.marked, h1.hooks, fun _ => ⟨⟨hall.scaled, hall.hooked⟩, .inl rfl⟩⟩
  refine goes_must (.call fun d f r _ hcond hexec => ?_)
  cases f with
  | ok | lost =>
    cases hexec
    exact ⟨hgone, hstored.scaled, hstored.hooked⟩
  | fails =>
    cases hexec
    exact ⟨h1, hcond⟩
  | spec found | verdict v => cases hexec

theorem goes_putFinalizer (hstored : Stored s) :
    Goes canExec (fun _ s' => ∃ b, s' = { s with finalizer := b }) Stored
      (must (call (.putFinalizer true))) s := by
  refine goes_must (.call fun d f r s' hcond hexec => ?_)
  simp only [exportLoop] at hexec
  cases f with
  | ok =>
    rw [execCall] at hexec
    split_ifs at hexec
    · cases hexec
      exact ⟨h, hstored⟩
    · cases hexec
      refine ⟨⟨h.size, h.memo, h.marked, h.hooks, fun hover => ?_⟩, true, rfl⟩
      exact ⟨⟨(h.closed hover).1.scaled, (h.closed hover).1.hooked⟩, (h.closed hover).2⟩
  | fails =>
    cases hexec
    exact ⟨h, hcond⟩
  | lost | spec found | verdict v => cases hexec

theorem goes_getExport {Q : Option (ExportStatus × Bool × Bool) → Scene → Prop} {E : Scene → Prop}
    (hgone : ∀ b, Q none { s with gone := b })
    (hthere : s.gone = false → ∀ deleting, Q (some (s.status, s.finalizer, deleting)) s) :
    Goes canExec Q E getExport s := by
  refine .call fun d f r _ _ hexec => ?_
  simp only [exportLoop] at hexec
  cases f with
  | ok =>
    rw [execCall] at hexec
    split_ifs at hexec with hg
    · cases hexec
      refine ⟨⟨h.size, h.memo, h.marked, h.hooks, fun hover => ⟨?_, .inl rfl⟩⟩, hgone true⟩
      exact ⟨(h.closed hover).1.scaled, (h.closed hover).1.hooked⟩
    · cases hexec
      exact ⟨h, hthere (by simp at hg; exact hg.1) d⟩
  | fails =>
    cases hexec
    exact ⟨h, hgone s.gone⟩
  | lost | spec found | verdict v => cases hexec

end

/-- How a pass ends: with a status that names what is paused and, when the export had
ended, with nothing paused. -/
def PassEnd (ended : Bool) (s : Scene) : Prop :=
  Stored s ∧ (ended = true → AllResumed s ∧ s.status.isTerminal = true)

/-- A pass over an export that has ended. -/
theorem goes_reconcile_ended (h : Orderly canExec s) (hheld : Held s.status s)
    (hterm : s.status.isTerminal) :
    Goes canExec PassEnd Stored (do resumeAll canExec s.status; cleanUp; return true) s := by
  refine .seq h (goes_resumeAll h hheld fun _ => hterm) fun _ _ h1 hs1 => ?_
  obtain ⟨hstored, hnone, hsame⟩ := hs1
  refine .seq h1 (goes_cleanUp h1 hstored) fun _ _ _ hs2 => ?_
  subst hs2
  exact .pure ⟨hstored, fun _ => ⟨hstored.allResumed h1 hnone, hsame.trans hterm⟩⟩

/-- A pass over one that has not. -/
theorem goes_reconcile_running (h : Orderly canExec s) (hheld : Held s.status s)
    (hends : s.closed → s.status.isTerminal) (hterm : ¬s.status.isTerminal) :
    Goes canExec PassEnd Stored (do reconcileRunning canExec s.status; return false) s := by
  have hover : s.closed = false := by
    by_contra hover
    exact hterm (hends (by simpa using hover))
  exact .seq h (goes_reconcileRunning h hheld hover) fun _ _ _ hs1 =>
    .pure ⟨hs1, by simp⟩

/-- **`Reconcile`** ends with a status that names what is paused; a pass of an ended export
that ends without an error leaves nothing paused. -/
theorem goes_reconcile (h : Orderly canExec s) (hstored : Stored s) :
    Goes canExec PassEnd Stored (reconcile canExec) s := by
  refine .bind (goes_getExport h (fun b => ?_) fun hgone _ => ?_)
  · exact .pure ⟨⟨hstored.scaled, hstored.hooked⟩, by simp⟩
  have hheld : Held s.status s := ⟨hstored, h.marked, hstored, hgone⟩
  have hends : s.closed → s.status.isTerminal := fun hover =>
    (h.closed hover).2.resolve_left (by simp [hgone])
  have hwith : ∀ b, Held s.status { s with finalizer := b } := fun b =>
    ⟨⟨hstored.scaled, hstored.hooked⟩, h.marked, ⟨hstored.scaled, hstored.hooked⟩, hgone⟩
  simp only []
  split_ifs with hdel hfin hfin hterm hterm
  · exact .seq h (goes_finalize h hheld hends) fun _ s1 _ hs1 => .pure ⟨hs1, by simp⟩
  · exact .pure ⟨hstored, by simp⟩
  · exact goes_reconcile_ended h hheld hterm
  · exact goes_reconcile_running h hheld hends hterm
  · refine .seq h (goes_putFinalizer h hstored) ?_
    rintro - s1 h1 ⟨b, rfl⟩
    exact goes_reconcile_ended h1 (hwith b) hterm
  · refine .seq h (goes_putFinalizer h hstored) ?_
    rintro - s1 h1 ⟨b, rfl⟩
    exact goes_reconcile_running h1 (hwith b) hends hterm

/-! ### Runs -/

/-- Nothing has been scaled yet. -/
theorem orderly_start (workloads : List Workload) : Orderly canExec (.start workloads) where
  size := fun w hw _ => by
    obtain ⟨w0, -, rfl⟩ := mem_map.1 hw
    rfl
  memo := fun w hw n hn => by
    obtain ⟨w0, -, rfl⟩ := mem_map.1 hw
    cases hn
  marked := ⟨nofun, fun _ _ => rfl⟩
  hooks := fun _ => rfl
  closed := nofun

theorem stored_start (workloads : List Workload) : Stored (.start workloads) where
  scaled := fun w hw hmemo => by
    obtain ⟨w0, -, rfl⟩ := mem_map.1 hw
    exact absurd rfl hmemo
  hooked := nofun

/-- **A pass keeps the order and ends with all on record.** -/
theorem along_pass (h : Orderly canExec s) (hstored : Stored s) :
    Along (exportLoop canExec) (pauseTerms canExec) (fun r s =>
        Orderly canExec ((exportLoop canExec).finish r s) ∧ Stored ((exportLoop canExec).finish r s))
      (exportLoop canExec).pass s := by
  refine .mono ?_ (.always h (goes_reconcile h hstored))
  rintro (e | ended) s' ⟨h', hend⟩
  · exact ⟨h', hend⟩
  · obtain ⟨hstored', hall⟩ := hend
    cases ended with
    | false => exact ⟨h', hstored'⟩
    | true =>
      obtain ⟨hall, hterm⟩ := hall rfl
      refine ⟨⟨h'.size, h'.memo, h'.marked, h'.hooks, fun _ => ?_⟩,
        hstored'.scaled, hstored'.hooked⟩
      exact ⟨⟨hall.scaled, hall.hooked⟩, .inr hterm⟩

/-- **No app is left paused** by an export that is over, in every run in which a call
fails or the operator stops only while the stored status names what is paused, the calls
of a pause apart, a `pre` command that is reported as failed was not carried out, and the
`post` command of an app in maintenance is there and is carried out. -/
theorem none_left_paused {canExec : Bool} {workloads : List Workload}
    {p : Passes.State Scene Bool Call Call.Answer (Except Unit Bool)} {ms : List (Move Fate Unit)}
    (hm : Runs.Meets (exportLoop canExec).step (pauseTerms canExec).Allows (exportStart workloads) ms)
    (hr : Runs.run (exportLoop canExec).step (exportStart workloads) ms = some p) :
    NoneLeftPaused p.shared := by
  have h : Orderly canExec p.shared :=
    Loop.kept (fun _ hs hstored => along_pass hs hstored) (orderly_start workloads)
      (stored_start workloads) hm hr
  exact fun hover => (h.closed hover).1

/-! ### Runs on one app -/

instance (st : ExportStatus) (s : Scene) : Decidable (RecordedIn st s) :=
  decidable_of_iff ((∀ w ∈ s.workloads, w.memo ≠ none → ∃ app ∈ st.quiesced,
      workloadOfApp w app = true ∧ (st.apps app).quiesceMode ≠ some .command) ∧
      ∀ app ∈ s.owing, app ∈ st.quiesced ∧ (st.apps app).quiesceMode = some .command)
    ⟨fun h => ⟨h.1, h.2⟩, fun h => ⟨h.scaled, h.hooked⟩⟩

instance (i : Call) (f : Fate) (s : Scene) : Decidable (pauseRecorded i f s) := by
  unfold pauseRecorded
  split <;> infer_instance

instance (canExec : Bool) (s : Scene) : Decidable ((pauseTerms canExec).between s) :=
  inferInstanceAs (Decidable (RecordedIn s.status s))

instance (canExec : Bool) (i : Call) (f : Fate) (s : Scene) :
    Decidable ((pauseTerms canExec).cond i f s) :=
  inferInstanceAs (Decidable (pauseRecorded i f s))

instance (s : Scene) : Decidable (NoneLeftPaused s) :=
  decidable_of_iff (s.closed = true →
      (∀ w ∈ s.workloads, w.memo = none ∧ replicasOf w.replicas = w.before) ∧ s.owing = [])
    ⟨fun h hover => ⟨(h hover).1, (h hover).2⟩, fun h hover => ⟨(h hover).scaled, (h hover).hooked⟩⟩

/-- A wiki of two replicas. -/
def wiki : Workload :=
  ⟨.deployment, "wiki", ⟨none, none, none⟩, ⟨none, none, none⟩, some 2, none, 0⟩

/-- A pass that pauses the wiki. -/
def firstPass : List (Move Fate Unit) :=
  [.begin, .run .ok, .run .ok, .run (.verdict (.go [] [])), .run .ok,
    .run (.verdict (.go ["wiki"] []))]

/-- The export is deleted and finalized, with the given calls to resume what its status
names. -/
def deletion (resume : List (Move Fate Unit)) : List (Move Fate Unit) :=
  [.env (), .begin, .run .ok] ++ resume ++ [.run (.verdict (.go [] [])), .run .ok, .finish]

/-- The operator stops after the pause was recorded; the pass after that cannot scale the app
up; and the export is deleted. -/
def pausedAndDeleted : List (Move Fate Unit) :=
  firstPass ++ [.run (.spec (some none)), .run .ok, .run .ok, .run .ok, .run .ok, .crash] ++
    [.begin, .run .ok, .run (.verdict (.go [] [])), .run (.verdict (.go ["wiki"] [])),
      .run (.spec (some none)), .run (.verdict (.go [] [])), .run (.spec (some none)), .run .ok,
      .run .fails, .finish] ++
    deletion [.run (.spec (some none)), .run .ok, .run .ok, .run .ok, .run .ok]

theorem none_left_paused_wiki :
    ∃ p, Runs.run (exportLoop true).step (exportStart [wiki]) pausedAndDeleted = some p ∧
      NoneLeftPaused p.shared ∧ p.shared.closed = true := by
  have hr : Runs.run (exportLoop true).step (exportStart [wiki]) pausedAndDeleted = some _ :=
    (Option.some_get (by decide +kernel)).symm
  exact ⟨_, hr, none_left_paused (by decide +kernel) hr, by decide +kernel⟩

/-- The operator stops before the pause is recorded, and the export is deleted. -/
def stoppedAndDeleted : List (Move Fate Unit) :=
  firstPass ++ [.run (.spec (some none)), .run .ok, .run .ok, .run .ok, .crash] ++ deletion []

/-- A profile that is paused by a command. -/
def maintenance : BackupSpec := ⟨some .command, ["occ", "on"], ["occ", "off"]⟩

/-- The app is paused by its command; the `post` command fails; the export completes. -/
def hookFails : List (Move Fate Unit) :=
  firstPass ++ [.run (.spec (some (some maintenance))), .run .ok, .run .ok,
      .run (.verdict (.go [] [])), .run (.spec (some (some maintenance))), .run .fails, .run .ok,
      .run .ok, .run (.verdict (.go [] [])), .run .ok, .finish] ++
    [.begin, .run .ok, .run (.verdict (.go [] [])), .run (.verdict (.go ["wiki"] [])),
      .run (.verdict (.go [] [])), .run .ok, .finish] ++
    [.begin, .run .ok, .run (.verdict (.go [] [])), .finish]

/-- The `pre` command runs out of time and is carried out; the app is scaled down and up again, and
the export completes. -/
def hookOutlives : List (Move Fate Unit) :=
  firstPass ++ [.run (.spec (some (some maintenance))), .run .lost, .run .ok, .run .ok, .run .ok,
      .run .ok, .run (.verdict (.go [] [])), .run (.spec (some (some maintenance))), .run .ok,
      .run .ok, .run .ok, .run (.verdict (.go [] [])), .run .ok, .finish] ++
    [.begin, .run .ok, .run (.verdict (.go [] [])), .run (.verdict (.go ["wiki"] [])),
      .run (.verdict (.go [] [])), .run .ok, .finish] ++
    [.begin, .run .ok, .run (.verdict (.go [] [])), .finish]

/-- **An app is left paused**: at zero replicas by an operator that stopped before the pause
was recorded, and in maintenance after a `post` command that failed, or after a `pre` command
that was carried out without an answer. -/
theorem app_left_paused :
    (∃ p, Runs.run (exportLoop true).step (exportStart [wiki]) stoppedAndDeleted = some p ∧
      ¬NoneLeftPaused p.shared ∧ p.shared.workloads.map Workload.replicas = [some 0]) ∧
    (∃ p, Runs.run (exportLoop true).step (exportStart [wiki]) hookFails = some p ∧
      ¬NoneLeftPaused p.shared ∧ p.shared.owing = ["wiki"]) ∧
    ∃ p, Runs.run (exportLoop true).step (exportStart [wiki]) hookOutlives = some p ∧
      ¬NoneLeftPaused p.shared ∧ p.shared.owing = ["wiki"] := by
  refine ⟨⟨_, (Option.some_get (by decide +kernel)).symm, ?_⟩,
    ⟨_, (Option.some_get (by decide +kernel)).symm, ?_⟩,
    ⟨_, (Option.some_get (by decide +kernel)).symm, ?_⟩⟩
  · decide +kernel
  · decide +kernel
  · decide +kernel

end Gentian.Export
