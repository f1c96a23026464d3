/-
# Properties of the remote's newest commit

Most of what the director promises is a property of the files at the head of the remote's
branch.  It is kept by any number of directors when every commit that lands keeps it, and a
commit lands only on the history it was made on.  So each kind of write is asked one question,
about the state its push meets (`Kept`); `newest_run` is the result for whole runs.
-/

import Gentian.Gitops.Writes

namespace Gentian.Gitops

open Threads Git List

variable {γ α : Type}

/-- What the directors keep: a property of the files at the remote's head. -/
def newest (κ : Type) (P : Tree γ → Prop) : Keeps κ Path γ where
  history _ h := P (tip h)
  resting _ _ := True
  resting_mono _ _ := trivial

/-- The loop of a write of several files that starts over when its push is rejected:
sync the checkout, decide, carry it out, commit and push. -/
def commitLoop (plan : Run γ (Plan γ)) : ℕ → Run γ Result
  | 0 => throw .pushContended
  | n + 1 => do
    ensureRepo
    match ← plan with
    | .same status => pure (unchanged status)
    | .draft d => do
      runChanges d.changes
      match ← (commitPaths d.paths).attempt with
      | .ok () => landed d.status
      | .error .pushRejected => do
        retryPush
        commitLoop plan n
      | .error e => throw e

/-- What `createTenant` commits: these files in the tenant's directory. -/
def newTenantDraft (cluster name status : String) (fs : List (String × γ) × String) : Draft γ where
  changes := fs.1.map fun f => .write (tenantPath cluster name f.1) f.2
  paths := fun p => fs.1.any fun f => p = tenantPath cluster name f.1
  status := status
  warning := fs.2

variable {fs : List (Path × γ)} {p : Path} {status : String} {t : Tree γ} {x : γ}

theorem get_applyWrites (h : (applyChanges t (fs.map fun f => .write f.1 f.2)).get p = some x) :
    (p, x) ∈ fs ∨ ((∀ f ∈ fs, f.1 ≠ p) ∧ t.get p = some x) := by
  induction fs generalizing t with
  | nil => exact .inr ⟨by simp, h⟩
  | cons f fs ih =>
    rcases ih h with hmem | ⟨hne, hget⟩
    · exact .inl (mem_cons_of_mem _ hmem)
    · rw [Change.apply, FileTree.get_set] at hget
      split_ifs at hget with hpath
      · exact .inl (by simp [hpath, ← Option.some.inj hget])
      · exact .inr ⟨forall_mem_cons.2 ⟨Ne.symm hpath, hne⟩, hget⟩

/-- The files of a draft are the new tenant's, or were there. -/
theorem get_newTenantDraft {cluster name : String} {fs : List (String × γ) × String}
    (h : ((newTenantDraft cluster name status fs).tree t).get p = some x) :
    (∃ file, p = tenantPath cluster name file ∧ (file, x) ∈ fs.1) ∨ t.get p = some x := by
  have hcovers : (newTenantDraft cluster name status fs).Covers := by
    intro c hc p hp
    obtain ⟨f, hf, rfl⟩ := mem_map.1 hc
    exact any_eq_true.2 ⟨f, hf, hp⟩
  have hwrites : (newTenantDraft cluster name status fs).changes =
      (fs.1.map fun f => (tenantPath cluster name f.1, f.2)).map fun f => .write f.1 f.2 := by
    rw [map_map]
    rfl
  rw [Draft.tree_eq hcovers, hwrites] at h
  rcases get_applyWrites h with hmem | ⟨-, hget⟩
  · obtain ⟨f, hf, heq⟩ := mem_map.1 hmem
    cases heq
    exact .inl ⟨f.1, rfl, hf⟩
  · exact .inr hget

section specs

variable [DecidableEq γ] {κ β : Type} {proc : κ → ℕ} {P : Tree γ → Prop}
  {code : κ → Prog (Op Path γ) (Op.Ans Path γ) β}
  {cond : ℕ → κ → Op Path γ → Fate Path γ → List κ → World Path γ → Prop} {j n : ℕ} {k : κ}
  {h : List (Commit Path γ)} {t : Tree γ} {w : World Path γ}

/-- A commit with the files `t` on the history `h` keeps the property, if the push
may meet the remote at that history. -/
def Kept (P : Tree γ → Prop)
    (cond : ℕ → κ → Op Path γ → Fate Path γ → List κ → World Path γ → Prop) (j : ℕ) (k : κ)
    (h : List (Commit Path γ)) (t : Tree γ) : Prop :=
  ∀ calls w f, w.remote = h → P (tip h) → cond j k .push f calls w → P t

omit [DecidableEq γ] in
/-- What keeps the invariant may be pushed. -/
theorem Kept.takes (hk : Kept P cond j k h t) : (newest κ P).Takes cond j k h t :=
  fun calls w f hw hi _ hc => hk calls w f hw (hw ▸ hi.history) hc

/-- Call `j` is outside of the lock. -/
def Free (j : ℕ) (w : World Path γ) : Prop := ∃ n, Has j n [] w

/-- The program keeps the property and is outside of the lock in the end. -/
abbrev Frees (P : Tree γ → Prop) (proc : κ → ℕ) (code : κ → Prog (Op Path γ) (Op.Ans Path γ) β)
    (cond : ℕ → κ → Op Path γ → Fate Path γ → List κ → World Path γ → Prop) (j : ℕ) (k : κ)
    (x : Run γ α) (w : World Path γ) : Prop :=
  (newest κ P).SafeE proc code cond j k (fun _ => Free j) (fun _ => Free j) x w

/-- What goes on under the lock leaves it free. -/
theorem locked_newest {x : Run γ α} (hw : Free j w) (hx : ∀ n w', Locked j (proc k) n w' →
      (newest κ P).SafeE proc code cond j k
        (fun _ w => ∃ m, Locked j (proc k) (n + m) w) (fun _ w => ∃ m, Locked j (proc k) (n + m) w)
        x w') : Frees P proc code cond j k (locked x) w := by
  obtain ⟨n, hw⟩ := hw
  refine (locked_safe (C := fun _ _ => True) (fun _ _ => trivial) hw fun w' h' => ?_).mono ?_ ?_
  · exact (hx n w' h').mono (fun _ _ ⟨m, hm⟩ => ⟨m, hm, trivial⟩)
      fun _ _ ⟨m, hm⟩ => ⟨m, hm, trivial⟩
  · exact fun _ _ ⟨m, hm, _⟩ => ⟨n + m, hm⟩
  · exact fun _ _ ⟨m, hm, _⟩ => ⟨n + m, hm⟩

/-- A read under the lock finds what the clone has. -/
theorem lockedRead_newest (hw : Free j w) : (newest κ P).SafeE proc code cond j k
      (fun t w => Looked cond (proc k) j k t ∧ Free j w) (fun _ => Free j) (locked do
        ensureRepoRead
        readTree) w := by
  obtain ⟨n, hw⟩ := hw
  exact lockedRead_safe (fun _ _ => trivial) hw (fun _ _ hlooked h => ⟨hlooked, n, h⟩)
    fun _ _ h => ⟨n, h⟩

omit [DecidableEq γ] in
theorem Ends.locked {p : ℕ} {r : Except Err Result} (he : Ends cond p j n k r w) :
    ∃ m, Locked j p (n + m) w :=
  let ⟨m, hm, _⟩ := he
  ⟨m, hm⟩

variable {fn : Edit γ} {E : Err → World Path γ → Prop} {cluster tenant : String} {attempts : ℕ}

/-- An edit of the claim that keeps the invariant may be made. -/
theorem applyClaim_newest [Content γ]
    (hkeep : ∀ h content text status, (tip h).get (claimPath cluster) = some content →
      fn content = .ok (text, status, true) →
      Kept P cond j k h ((tip h).set (claimPath cluster) text))
    (hw : Free j w) : Frees P proc code cond j k (applyClaim cluster fn attempts) w := by
  refine locked_newest hw fun n w' h' => ?_
  exact (applyClaimLoop_safe (fun h content text status hget hfn =>
    (hkeep h content text status hget hfn).takes) attempts w' h').mono
    (fun _ _ => Ends.locked) fun _ _ => Ends.locked

theorem readLog_safe {K : Keeps κ Path γ} {Q : List (Commit Path γ) → World Path γ → Prop}
    (he : Edited j (proc k) n h t w)
    (hQ : ∀ w', Edited j (proc k) n h t w' → Q h w')
    (hE : ∀ w', Locked j (proc k) n w' → E (.git "log") w') :
    K.SafeE proc code cond j k Q E readLog w := by
  obtain ⟨c, ⟨ha, hn⟩, hup, hhead, hindex, hwork⟩ := he
  refine .bind (safe_on (by simp) ha fun _ w1 f ha1 _ _ _ hb => ?_)
  cases f with
  | done =>
    have hedit : Edited j (proc k) n h t (w1.setClone (proc k) c) :=
      ⟨c, ⟨hb.since ha1.grown, hn⟩, hup, hhead, hindex, hwork⟩
    have hlog := hQ _ hedit
    rw [← hhead] at hlog
    exact hlog
  | _ => exact .throw (hE _ (locked_of_at hb))

/-- **A new tenant lands on the state its checks were made on**, but for the check that is made
before, on what the call has looked at. -/
theorem createTenant_newest {name : String} {refuse : Tree γ → Except Err Unit}
    {files : Tree γ → List (Commit Path γ) → Except Err (List (String × γ) × String)}
    (hkeep : ∀ t h fs, Looked cond (proc k) j k t → refuse t = .ok () → files (tip h) h = .ok fs →
      Kept P cond j k h ((newTenantDraft cluster name status fs).tree (tip h)))
    (hw : Free j w) :
    Frees P proc code cond j k (createTenant cluster name status refuse files) w := by
  rw [createTenant]
  split_ifs
  · refine .next (fun t _ h1 => ?_) (lockedRead_newest hw)
    obtain ⟨hlooked, h1⟩ := h1
    split
    · exact .throw h1
    next hrefuse =>
      refine locked_newest h1 fun n _ h2 => ?_
      refine .bind (sync_safe h2 (fun h _ he => ?_) fun _ _ h => ⟨0, h⟩)
      refine .bind (readSynced_safe he (fun _ he => ?_) fun _ h => ⟨0, h⟩)
      refine .bind (readLog_safe he (fun _ he => ?_) fun _ h => ⟨0, h⟩)
      refine (finish_safe he fun d hd => ?_).mono
        (fun _ _ ⟨m, hm, _⟩ => ⟨m, hm⟩) fun _ _ ⟨m, hm, _⟩ => ⟨m, hm⟩
      cases hfiles : files (tip h) h with
      | error e => simp [hfiles, Except.map] at hd
      | ok fs =>
        rw [hfiles] at hd
        obtain rfl := Plan.draft.inj (Except.ok.inj hd)
        exact (hkeep t h fs hlooked hrefuse hfiles).takes
  · exact .throw hw

/-- **A write that starts over decides on the state it lands on.** -/
theorem commitLoop_newest {plan : Run γ (Plan γ)}
    (hplan : ∀ n h w, Edited j (proc k) n h (tip h) w → (newest κ P).SafeE proc code cond j k
        (fun r w => ∃ h, Edited j (proc k) n h (tip h) w ∧
          ∀ d, r = .draft d → Kept P cond j k h (d.tree (tip h)))
        (fun _ => Locked j (proc k) n) plan w) :
    ∀ attempts n w, Locked j (proc k) n w → (newest κ P).SafeE proc code cond j k
        (fun _ w => ∃ m, Locked j (proc k) (n + m) w) (fun _ w => ∃ m, Locked j (proc k) (n + m) w)
        (commitLoop plan attempts) w
  | 0, _, _, hw => .throw ⟨0, hw⟩
  | a + 1, n, w, hw => by
    have herror : ∀ (e : Err) (w : World Path γ), Locked j (proc k) n w →
        ∃ m, Locked j (proc k) (n + m) w := fun _ _ h => ⟨0, h⟩
    refine .bind (sync_safe hw (fun h w1 he => ?_) herror)
    refine .bind ((hplan n h w1 he).mono (fun r _ h2 => ?_) herror)
    obtain ⟨h, he, hkeep⟩ := h2
    cases r with
    | same _ => exact .pure ⟨0, he.locked⟩
    | draft d =>
      refine .bind ((runChanges_safe d.changes _ _ he).mono (fun _ _ h3 => ?_) herror)
      refine .bind (.attempt ((commitPaths_safe rfl h3 (hkeep d rfl).takes).mono
        (fun _ w4 h4 => ?_) fun e w4 h4 => ?_))
      · rcases h4 with ⟨-, h4⟩ | ⟨-, h4⟩
        · exact landed_safe h4 (fun _ _ h => ⟨0, h⟩) fun _ _ _ _ _ _ h => ⟨0, h⟩
        · exact landed_safe h4 (fun _ _ h => ⟨1, h⟩) fun _ _ _ _ _ _ h => ⟨1, h⟩
      · rcases h4 with h4 | ⟨hne, -, h4⟩
        · split
          · contradiction
          · obtain ⟨c, ha⟩ := h4
            refine .bind (ask_safe ha (fun w5 h5 => ?_) fun w5 h5 => ⟨0, _, h5⟩)
            exact commitLoop_newest hplan a n _ ⟨_, h5⟩
          · exact .throw ⟨0, h4⟩
        · split
          · contradiction
          next heq =>
            exact absurd (Except.error.inj heq) hne
          · exact .throw ⟨1, h4⟩

/-- **A property that every landing commit keeps holds in every state reached.** -/
theorem newest_run
    (hcode : ∀ j k w, Free j w → Safe (system proc code) ((newest κ P).spec proc cond) j k
      (fun _ => Free j) (code k) w) {ms : List (Move κ (Fate Path γ) ℕ)}
    {p : Pool (World Path γ) κ (Op Path γ) (Op.Ans Path γ) β} (hw : Known 0 w)
    (hP : P (tip w.remote))
    (hm : Runs.Meets (system proc code).step ((newest κ P).spec proc cond).Allows (Pool.start w) ms)
    (hr : Runs.run (system proc code).step (Pool.start w) ms = some p) :
    P (tip p.shared.remote) := by
  have hsound : Sound (system proc code) ((newest κ P).spec proc cond) (fun j _ _ => Free j) :=
    sound (fun _ _ _ hh => hh) fun j k w hw => hcode j k w ⟨0, hw⟩
  exact (hsound.run (holds_start ⟨hw, hP, fun _ _ => trivial⟩) hm hr).inv.history

end specs

end Gentian.Gitops
