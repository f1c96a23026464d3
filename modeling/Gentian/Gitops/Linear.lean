/-
# Edits of the deployments repository are applied one after another

`applyTo` and `applyClaim` of `internal/director/gitops`, called by any number of processes at
once.  The remote's history should be a sequence of edits, each applied to the text the one
before it left, with one commit for each call that says it changed something and none for the
others.

The history is such a sequence.  What fails is the count: `landed` asks git for the id of the
commit it just pushed and answers an error when that question fails (`MaterialiseProfile`
answers success there); a push whose answer is lost is an error in the same way; and an edit
that reports a change and leaves the text as it was is answered as a commit that was never
made.
-/

import Gentian.Gitops.Repo

namespace Gentian.Gitops

open Threads Git

variable {γ : Type}

/-- The file an edit is of. -/
inductive Target where
  /-- `applyTo`: a tenant's manifest, or a file beside it -/
  | tenant (cluster tenant sibling : String)
  /-- `applyClaim`: the Cluster claim -/
  | claim (cluster : String)
deriving DecidableEq

/-- The file an edit finds in a tree. -/
def Target.find [Content γ] (t : Tree γ) : Target → Option (Path × γ)
  | .tenant cluster name sibling => tenantTarget t cluster name sibling
  | .claim cluster => (t.get (claimPath cluster)).map fun x => (claimPath cluster, x)

/-- A call of `applyTo` or `applyClaim` in one of the processes.  `attempts`
bounds its loop, as `pushContentionBudget` does by the clock. -/
structure EditCall (γ : Type) where
  proc : ℕ
  target : Target
  fn : Edit γ
  attempts : ℕ

/-- What a call runs. -/
def EditCall.code [Content γ] (k : EditCall γ) :
    Prog (Op Path γ) (Op.Ans Path γ) (Except Err Result) :=
  match k.target with
  | .tenant cluster tenant sibling => (applyTo cluster tenant sibling k.fn k.attempts).run
  | .claim cluster => (applyClaim cluster k.fn k.attempts).run

/-- The tree that a call makes of another. -/
def EditCall.Makes [Content γ] (k : EditCall γ) (before after : Tree γ) : Prop :=
  ∃ file content text status, k.target.find before = some (file, content) ∧
    k.fn content = .ok (text, status, true) ∧ after = before.set file text

/-- A history that continues `h₀` by edits of calls, each applied to the newest
commit before it. -/
inductive Applied [Content γ] (calls : List (EditCall γ)) (h₀ : List (Commit Path γ)) :
    List (Commit Path γ) → Prop where
  | start : Applied calls h₀ h₀
  | commit {h : List (Commit Path γ)} {j : ℕ} {k : EditCall γ} {t : Tree γ}
      (hh : Applied calls h₀ h) (hj : calls[j]? = some k) (ht : k.Makes (tip h) t) :
      Applied calls h₀ (⟨t, some j⟩ :: h)

/-- The directors, each with its checkout, and the calls they run. -/
abbrev directors (γ : Type) [DecidableEq γ] [Content γ] :
    System (World Path γ) (EditCall γ) (Op Path γ) (Op.Ans Path γ) (Except Err Result)
      (Fate Path γ) ℕ :=
  system EditCall.proc EditCall.code

/-- What a run's calls have done to the remote: the history is a sequence of
edits, a call that answered that it changed something has one commit, and one
that answered anything else has none. -/
structure Linearized [Content γ] (h₀ : List (Commit Path γ))
    (p : Pool (World Path γ) (EditCall γ) (Op Path γ) (Op.Ans Path γ) (Except Err Result)) :
    Prop where
  applied : Applied p.calls h₀ p.shared.remote
  changed : ∀ j res, p.answer j = some (.ok res) → res.changed = true →
    authored j p.shared.remote = 1
  unchanged : ∀ j res, p.answer j = some (.ok res) → res.changed = false →
    authored j p.shared.remote = 0
  failed : ∀ j e, p.answer j = some (.error e) → authored j p.shared.remote = 0

/-- A step that tells its call what it did: a push that landed is answered, the
question for the new commit succeeds, and a file that is written changes. -/
def tells (_ : ℕ) (k : EditCall γ) (o : Op Path γ) (f : Fate Path γ) (_ : List (EditCall γ))
    (w : World Path γ) : Prop :=
  match o, f with
  | .push, .lost => False
  | .on .revParse, .done => True
  | .on .revParse, _ => False
  | .on (.write file text), _ => (w.clones k.proc).work.get file ≠ some text
  | _, _ => True

instance [DecidableEq γ] (j : ℕ) (k : EditCall γ) (o : Op Path γ) (f : Fate Path γ)
    (calls : List (EditCall γ)) (w : World Path γ) : Decidable (tells j k o f calls w) := by
  refine Op.decidable (P := (tells j k · f calls w)) ?_ (fun c => ?_) ?_ o <;> unfold tells
  · infer_instance
  · cases c <;> cases f <;> infer_instance
  · cases f <;> infer_instance

theorem not_dull (j : ℕ) (k : EditCall γ) : ¬Dull tells k.proc j k := by
  rintro ⟨file, text, f, calls, w, hc, heq⟩
  exact hc heq

theorem not_lossy (j : ℕ) (k : EditCall γ) : ¬Lossy tells j k := by
  rintro (⟨calls, w, hc⟩ | ⟨calls, w, f, hf, hc⟩)
  · exact hc
  · cases f with
    | done => exact hf rfl
    | _ => exact hc

/-- A history stays one when a call begins. -/
theorem Applied.mono [Content γ] {calls : List (EditCall γ)} {h0 h : List (Commit Path γ)}
    (k : EditCall γ)
    (hh : Applied calls h0 h) : Applied (calls ++ [k]) h0 h := by
  induction hh with
  | start => exact .start
  | commit _ hj ht ih =>
    have hlt := (List.getElem?_eq_some_iff.1 hj).1
    exact .commit ih (by rwa [List.getElem?_append_left hlt]) ht

/-- Every commit is one call's edit of the tree before it. -/
def editsOf [Content γ] (h₀ : List (Commit Path γ)) : Keeps (EditCall γ) Path γ where
  history calls h := Applied calls h₀ h
  resting _ _ := True
  resting_mono _ _ := trivial

variable [DecidableEq γ] [Content γ]

/-- **Each call is safe**, and its answer counts its commits. -/
theorem editCall_safe (h0 : List (Commit Path γ)) (j : ℕ) (k : EditCall γ) (w : World Path γ)
    (hw : Has j 0 [] w) : Safe (directors γ) ((editsOf h0).spec EditCall.proc tells) j k
      (fun r w => ∃ m, Has j m [] w ∧ Counts False False r m) k.code w := by
  have hkeep : ∀ h file content text status, k.target.find (tip h) = some (file, content) →
      k.fn content = .ok (text, status, true) → ∀ calls w1 (f : Fate Path γ), w1.remote = h →
      (editsOf h0).Inv calls w1 → calls[j]? = some k → tells j k .push f calls w1 →
      (editsOf h0).history calls (⟨(tip h).set file text, some j⟩ :: h) := by
    intro h file content text status hfind hfn calls w1 f hrem hi hj _
    have hh : Applied calls h0 h := hrem ▸ hi.history
    exact .commit hh hj ⟨file, content, text, status, hfind, hfn, rfl⟩
  have hlocked : ∀ x, (∀ w', Locked j k.proc 0 w' →
        Counted (editsOf h0) EditCall.proc EditCall.code tells j 0 k
          (Counts (Dull tells k.proc j k) (Lossy tells j k)) x w') →
      Safe (directors γ) ((editsOf h0).spec EditCall.proc tells) j k
        (fun r w => ∃ m, Has j m [] w ∧ Counts False False r m) (locked x).run w :=
    fun x hx => (answered_safe (fun _ _ => trivial) (not_dull j k) (not_lossy j k) hw hx).safe
      (fun _ _ => id) fun _ _ => id
  rw [EditCall.code]
  split
  next cluster _ _ htarget =>
    refine hlocked _ (applyToLoop_safe (fun h file content text status hfind => ?_) _)
    exact hkeep h file content text status (by rw [htarget]; exact hfind)
  next cluster htarget =>
    refine hlocked _ (applyClaimLoop_safe (fun h content text status hget => ?_) _)
    exact hkeep h _ content text status (by rw [htarget, Target.find, hget]; rfl)

/-- **Every call keeps it and is counted for its answer.** -/
theorem editsOf_sound (h0 : List (Commit Path γ)) :
    Sound (directors γ) ((editsOf h0).spec EditCall.proc tells)
      (fun j _ r w => ∃ m, Has j m [] w ∧ Counts False False r m) :=
  sound (fun _ k _ hh => hh.mono k) (editCall_safe h0)

/-- **Edits are applied one after another.**  For any number of processes and any
calls of `applyTo` and `applyClaim`, interleaved in any way and failing anywhere,
as long as every step tells its call what it did. -/
theorem applied_in_order {w : World Path γ} {ms : List (Move (EditCall γ) (Fate Path γ) ℕ)}
    {p : Pool (World Path γ) (EditCall γ) (Op Path γ) (Op.Ans Path γ) (Except Err Result)}
    (hw : Known 0 w) (hm : Runs.Meets (directors γ).step
      ((editsOf w.remote).spec EditCall.proc tells).Allows (Pool.start w) ms)
    (hr : Runs.run (directors γ).step (Pool.start w) ms = some p) : Linearized w.remote p := by
  have hp := (editsOf_sound w.remote).run (holds_start ⟨hw, .start, fun _ _ => trivial⟩) hm hr
  have hcount : ∀ j r, p.answer j = some r → Counts False False r (authored j p.shared.remote) := by
    intro j r ha
    obtain ⟨k, hk⟩ := p.call_of_answer ha
    obtain ⟨w', hrely, m, hm, hc⟩ := hp.ended hk ha
    rwa [(hm.stable hrely).count]
  refine ⟨hp.inv.history, fun j res ha hc => ?_, fun j res ha hc => ?_, fun j e ha => ?_⟩
  · simpa [Counts, hc] using hcount j _ ha
  · simpa [Counts, hc] using hcount j _ ha
  · simpa [Counts] using hcount j _ ha

/-- Contents for the runs below: how often a file was edited. -/
local instance editCount : Content ℕ :=
  ⟨0, fun _ _ => false, fun _ => true, fun n _ _ => (n, false), fun n _ _ => (n, false)⟩

/-- A repository with one tenant. -/
def oneTenant : World Path ℕ :=
  .start [⟨FileTree.empty.set (tenantPath "one" "acme" "tenant.yaml") 0, none⟩]

/-- One edit of that manifest in process `p`. -/
def bump (p : ℕ) : EditCall ℕ :=
  ⟨p, .tenant "one" "acme" "", fun n => .ok (n + 1, "updated", true), 3⟩

/-- A call that synced, edited, committed and pushed, and then could not ask for the
commit it had made. -/
def unanswered : List (Move (EditCall ℕ) (Fate Path ℕ) ℕ) :=
  .begin (bump 0) :: List.replicate 14 (.run 0 .done) ++ [.run 0 .failed, .run 0 .done]

/-- **A commit is in the remote whose call answered an error.** -/
theorem landed_and_failed : ∃ w ms p, Known 0 w ∧
    Runs.run (directors ℕ).step (Pool.start w) ms = some p ∧ ¬Linearized w.remote p := by
  have hr : Runs.run (directors ℕ).step (.start oneTenant) unanswered = some _ :=
    (Option.some_get (by decide)).symm
  refine ⟨oneTenant, unanswered, _, known_start (by decide), hr, fun h => ?_⟩
  have hzero := h.failed 0 (.git "rev-parse") (by decide)
  cases hzero

/-- Two processes edit one manifest: the second one pushes first, and the first
one starts over on what it pushed. -/
def race : List (Move (EditCall ℕ) (Fate Path ℕ) ℕ) :=
  .begin (bump 0) :: .begin (bump 1) :: List.replicate 13 (.run 0 .done) ++
    List.replicate 16 (.run 1 .done) ++ List.replicate 18 (.run 0 .done)

theorem race_applied_in_order : ∃ p,
    Runs.run (directors ℕ).step (Pool.start oneTenant) race = some p ∧
    Linearized oneTenant.remote p ∧ p.answer 0 = some (.ok ⟨"updated", true, some 3, ""⟩) := by
  have hr : Runs.run (directors ℕ).step (.start oneTenant) race = some _ :=
    (Option.some_get (by decide)).symm
  exact ⟨_, hr, applied_in_order (known_start (by decide)) (by decide) hr, by decide⟩

end Gentian.Gitops
