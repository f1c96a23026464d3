/-
# What a failed write leaves in the checkout

A read of the director (`ensureRepoRead`) does not sync a checkout that was synced within
`readFreshness`.  A write that does not get through is to put the checkout back (`commitPaths`:
"a failed request leaves the checkout exactly where the remote is"), because nothing else will
before the window ends.

It does not always.  A write that fails before `commitPaths` discards nothing: `os.WriteFile`
leaves what it wrote, and `writePlansLocked` returns `ErrPlanNotFound` for the second plan with
the first one written.  `discardLocal` runs under the request's context, and when that is what
ended the write, its `git reset` does not run either.  And `git reset --hard` leaves a new file
that `git add` did not come to stage.
-/

import Gentian.Gitops.Writes

namespace Gentian.Gitops

open Threads Git List Option Except Bool

variable {γ α : Type}

/-- The files of one of the commits. -/
def Held (h : List (Commit Path γ)) (t : Tree γ) : Prop := ∃ c ∈ h, c.tree = t

instance [DecidableEq γ] (h : List (Commit Path γ)) (t : Tree γ) : Decidable (Held h t) :=
  inferInstanceAs (Decidable (∃ c ∈ h, c.tree = t))

variable {c : Clone Path γ} {h : List (Commit Path γ)}

/-- A held tree stays held. -/
theorem Held.mono {h' : List (Commit Path γ)} {t : Tree γ} (hh : h <:+ h') (ht : Held h t) :
    Held h' t :=
  let ⟨c, hc, heq⟩ := ht
  ⟨c, hh.subset hc, heq⟩

/-- The newest tree is held. -/
theorem held_tip (hh : h ≠ []) : Held h (tip h) := by
  cases h with
  | nil => exact absurd rfl hh
  | cons c h => exact ⟨c, mem_cons_self, rfl⟩

/-- A checkout a read may answer from: it was never synced, so the read will sync
it, or its working tree is what git has and the remote has held. -/
def Resting (h : List (Commit Path γ)) (c : Clone Path γ) : Prop :=
  c.syncedAt = none ∨ (c.index = c.work ∧ Held h c.work)

instance [DecidableEq γ] (h : List (Commit Path γ)) (c : Clone Path γ) :
    Decidable (Resting h c) :=
  inferInstanceAs (Decidable (_ ∨ _))

theorem Resting.mono {h' : List (Commit Path γ)} (hh : h <:+ h') (hc : Resting h c) :
    Resting h' c :=
  hc.imp id fun hc => ⟨hc.1, hc.2.mono hh⟩

/-- No file of the working tree is unknown both to the index and to the remote's
newest commit: a reset leaves none behind. -/
def NoStray (c : Clone Path γ) : Prop :=
  ∀ p, (c.work.get p).isSome → (c.index.get p).isSome ∨ ((tip c.upstream).get p).isSome

theorem noStray_of_index_eq (hc : c.index = c.work) : NoStray c :=
  fun p _ => .inl (by rwa [hc])

/-- A reset of a clone without stray files leaves the remote's. -/
theorem reset_work (hc : NoStray c) : c.reset.work = tip c.upstream := by
  ext1 p
  rw [Clone.reset, FileTree.get_overlay]
  split_ifs with h
  · rfl
  · rw [not_eq_true, or_eq_false_iff] at h
    have hwork : (c.work.get p).isSome = false := by
      by_contra hp
      rw [not_eq_false] at hp
      rcases hc p hp with h' | h'
      · exact absurd (h'.symm.trans h.1) Bool.noConfusion
      · exact absurd (h'.symm.trans h.2) Bool.noConfusion
    rw [isSome_eq_false_iff, isNone_iff_eq_none] at hwork
    have htip := h.2
    rw [isSome_eq_false_iff, isNone_iff_eq_none] at htip
    rw [hwork, htip]

/-- Such a clone rests. -/
theorem resting_reset (hc : NoStray c) (hne : c.upstream ≠ []) (hh : c.upstream <:+ h) :
    Resting h c.reset :=
  .inr ⟨(reset_work hc).symm, by
    rw [reset_work hc]
    exact (held_tip hne).mono hh⟩

theorem resting_tip (hh : h ≠ []) (hindex : c.index = tip h) (hwork : c.work = tip h) :
    Resting h c :=
  .inr ⟨hindex.trans hwork.symm, hwork ▸ held_tip hh⟩

/-- What the directors keep: the branch exists, and a checkout that no call is
using is one a read may answer from. -/
def heldBy (κ γ : Type) : Keeps κ Path γ where
  history _ h := h ≠ []
  resting := Resting
  resting_mono := Resting.mono

theorem heldBy_start {κ : Type} (hh : ∀ c ∈ h, c.author = none) (hne : h ≠ []) :
    (heldBy κ γ).Inv [] (World.start h) :=
  ⟨known_start hh, hne, fun _ _ => .inl rfl⟩

/-- A step on process `p`'s checkout after which nothing is left to discard that a
reset would not discard: a change of a file fails only by leaving the tree as git
has it, `git add` fails only when git knows every file, and a reset takes effect
unless there is nothing to reset. -/
def Undone [DecidableEq γ] (p : ℕ) (o : Op Path γ) (f : Fate Path γ) (w : World Path γ) : Prop :=
  let c := w.clones p
  match o with
  | .on (.write file x) => f = .done ∨ ((Cmd.write file x).local 0 0 [] c f).2.work = c.index
  | .on (.remove sel) => f = .done ∨ ((Cmd.remove sel).local 0 0 [] c f).2.work = c.index
  | .on (.add _) => f.takesEffect ∨ ∀ e ∈ c.work.entries, (c.index.get e.1).isSome
  | .on .reset => f.takesEffect ∨ Resting w.remote c
  | _ => True

instance [DecidableEq γ] (p : ℕ) (o : Op Path γ) (f : Fate Path γ) (w : World Path γ) :
    Decidable (Undone p o f w) := by
  unfold Undone
  split <;> infer_instance

/-- Call `j` holds the lock of process `p`, whose checkout is one a read may
answer from. -/
def Calm (j p : ℕ) (w : World Path γ) : Prop := ∃ c n h, At j p c n h w ∧ Resting h c

/-- Call `j` holds the lock of process `p`, whose checkout is a state of the
remote. -/
def Synced (j p : ℕ) (w : World Path γ) : Prop :=
  ∃ n h, h ≠ [] ∧ Edited j p n h (tip h) w

theorem Synced.calm {j p : ℕ} {w : World Path γ} (hw : Synced j p w) : Calm j p w := by
  obtain ⟨n, h, hh, c, ⟨ha, -⟩, -, -, hindex, hwork⟩ := hw
  exact ⟨c, n, h, ha, resting_tip hh hindex hwork⟩

/-- What a write under way has in the checkout goes with the next reset. -/
def Dirty (j p : ℕ) (w : World Path γ) : Prop :=
  ∃ c n h, At j p c n h w ∧ NoStray c ∧ c.upstream ≠ [] ∧ c.upstream <:+ h

section specs

variable [DecidableEq γ] {κ β : Type} {proc : κ → ℕ}
  {code : κ → Prog (Op Path γ) (Op.Ans Path γ) β}
  {cond : ℕ → κ → Op Path γ → Fate Path γ → List κ → World Path γ → Prop} {j n : ℕ} {k : κ}
  {c : Clone Path γ} {h : List (Commit Path γ)} {t : Tree γ} {w : World Path γ}
  {E : Err → World Path γ → Prop}

/-- A program under the lock that leaves the checkout as a read may find it. -/
abbrev StaysCalm (proc : κ → ℕ) (code : κ → Prog (Op Path γ) (Op.Ans Path γ) β)
    (cond : ℕ → κ → Op Path γ → Fate Path γ → List κ → World Path γ → Prop) (j : ℕ) (k : κ)
    (x : Run γ α) (w : World Path γ) : Prop :=
  (heldBy κ γ).SafeE proc code cond j k (fun _ => Calm j (proc k)) (fun _ => Calm j (proc k)) x w

/-- A program that gives up the lock. -/
abbrev EndsFree (proc : κ → ℕ) (code : κ → Prog (Op Path γ) (Op.Ans Path γ) β)
    (cond : ℕ → κ → Op Path γ → Fate Path γ → List κ → World Path γ → Prop) (j : ℕ) (k : κ)
    (x : Run γ α) (w : World Path γ) : Prop :=
  (heldBy κ γ).SafeE proc code cond j k (fun _ w => ∃ n, Has j n [] w)
    (fun _ w => ∃ n, Has j n [] w) x w

variable {Q : Unit → World Path γ → Prop}

/-- A sync keeps calm. -/
theorem sync_calm (hw : Calm j (proc k) w) (hQ : ∀ w', Synced j (proc k) w' → Q () w')
    (hE : ∀ e w', Calm j (proc k) w' → E e w') :
    (heldBy κ γ).SafeE proc code cond j k Q E sync w := by
  obtain ⟨c, n, h, ha, hc⟩ := hw
  refine .bind (must_safe (safe_on (by simp) ha fun calls w1 f ha1 hi _ _ hb => ?_))
  have hc1 : Resting w1.remote c := hc.mono ha1.grown
  cases f with
  | done =>
    refine .bind (must_safe (safe_on (by simp) hb fun calls w2 f ha2 _ _ _ hb2 => ?_))
    have hreset : Resting w2.remote (c.fetch w1.remote).reset := by
      rcases hc1 with hnone | ⟨hindex, -⟩
      · exact .inl hnone
      · exact resting_reset (noStray_of_index_eq hindex) hi.history ha2.grown
    cases f with
    | done =>
      refine .bind (must_safe (safe_on (by simp) hb2 fun calls w3 f ha3 _ _ _ hb3 => ?_))
      have hgrown : w1.remote <:+ w3.remote := ha2.grown.trans ha3.grown
      have hclean : Resting w3.remote (c.fetch w1.remote).reset.clean :=
        .mono hgrown (resting_tip hi.history rfl (clean_reset_work _))
      cases f with
      | done =>
        refine safe_on (by simp) hb3 fun calls _ f ha4 _ _ _ hb4 => ?_
        refine hQ _ ⟨_, w1.remote, hi.history, _, ⟨⟨hb4.clone, hb4.holder, hb4.count, ?_⟩,
          ha1.count⟩, rfl, rfl, rfl, clean_reset_work _⟩
        exact hgrown.trans ha4.grown
      | lost => exact hE _ _ ⟨_, _, _, hb3, hclean⟩
      | _ => exact hE _ _ ⟨_, _, _, hb3, hreset.mono ha3.grown⟩
    | lost => exact hE _ _ ⟨_, _, _, hb2, hreset⟩
    | _ => exact hE _ _ ⟨_, _, _, hb2, hc1.mono ha2.grown⟩
  | lost => exact hE _ _ ⟨_, _, _, hb, hc1⟩
  | _ => exact hE _ _ ⟨_, _, _, hb, hc1⟩

theorem readTree_calm {Q : Tree γ → World Path γ → Prop} (hw : Synced j (proc k) w)
    (hQ : ∀ n h w', h ≠ [] → Edited j (proc k) n h (tip h) w' → Q (tip h) w')
    (hE : ∀ w', Calm j (proc k) w' → E .io w') :
    (heldBy κ γ).SafeE proc code cond j k Q E readTree w := by
  obtain ⟨n, h, hh, c, ⟨ha, hn⟩, hup, hhead, hindex, hwork⟩ := hw
  refine readTree_safe ha (fun w' ha' => ?_) fun w' ha' => ?_
  · rw [hwork]
    exact hQ n h w' hh ⟨_, ⟨ha', hn⟩, hup, hhead, hindex, hwork⟩
  · exact hE w' ⟨c, n, h, ha', resting_tip hh hindex hwork⟩

theorem readLog_calm {Q : List (Commit Path γ) → World Path γ → Prop}
    (hw : Edited j (proc k) n h (tip h) w) (hh : h ≠ [])
    (hQ : ∀ log w', Edited j (proc k) n h (tip h) w' → Q log w')
    (hE : ∀ e w', Calm j (proc k) w' → E e w') :
    (heldBy κ γ).SafeE proc code cond j k Q E readLog w := by
  obtain ⟨c, ⟨ha, hn⟩, hup, hhead, hindex, hwork⟩ := hw
  refine .bind (safe_on (by simp) ha fun _ w1 f ha1 _ _ _ hb => ?_)
  rw [local_log_clone] at hb ⊢
  have hedit : Edited j (proc k) n h (tip h) (w1.setClone (proc k) c) :=
    ⟨c, ⟨hb.since ha1.grown, hn⟩, hup, hhead, hindex, hwork⟩
  split
  · exact .pure (hQ _ _ hedit)
  · exact .throw (hE _ _ (Synced.calm ⟨n, h, hh, hedit⟩))

theorem landed_calm {status : String} (hw : Calm j (proc k) w) :
    StaysCalm proc code cond j k (landed status) w := by
  obtain ⟨c, n, h, ha, hc⟩ := hw
  refine .bind (safe_on (by simp) ha fun _ w1 f ha1 _ _ _ hb => ?_)
  rw [local_revParse_clone] at hb ⊢
  have hcalm : Calm j (proc k) (w1.setClone (proc k) c) := ⟨c, n, _, hb, hc.mono ha1.grown⟩
  split
  · exact .pure hcalm
  · exact .throw hcalm

theorem ask_calm {e : Err} (hw : Calm j (proc k) w) (hQ : ∀ w', Calm j (proc k) w' → Q () w')
    (hE : ∀ w', Calm j (proc k) w' → E e w') :
    (heldBy κ γ).SafeE proc code cond j k Q E (must (cmd .ask) e) w := by
  obtain ⟨c, n, h, ha, hc⟩ := hw
  exact ask_safe ha (fun w' h' => hQ w' ⟨c, n, h, h', hc⟩) fun w' h' => hE w' ⟨c, n, h, h', hc⟩

/-- A commit that fails leaves the clone dirty, and no worse. -/
theorem commitAndPush_calm (ha : At j (proc k) c n h w) (hn : authored j h = n)
    (hup : c.upstream = h) (hhead : c.head = h) (hwork : c.index = c.work) (hh : h ≠ []) :
    (heldBy κ γ).SafeE proc code cond j k (fun _ => Calm j (proc k))
      (fun _ => Dirty j (proc k)) commitAndPush w := by
  have hdirty : ∀ w', At j (proc k) c n h w' → Dirty j (proc k) w' := fun w' h' =>
    ⟨c, n, h, h', noStray_of_index_eq hwork, by rwa [hup], hup ▸ suffix_rfl⟩
  refine .bind (ask_safe ha (fun _ ha => ?_) hdirty)
  refine .bind (ask_safe ha (fun _ ha => ?_) hdirty)
  refine .bind (safe_on (by simp) ha fun calls w3 f ha3 _ _ _ hb => ?_)
  -- the branch may have the commit, the rest of the checkout is as it was
  have hcommit : ∀ m h' w', At j (proc k) (c.commit j) m h' w' → h <:+ h' →
      Dirty j (proc k) w' := fun m h' w' hat hsub =>
    ⟨c.commit j, m, h', hat, noStray_of_index_eq hwork, by rw [← hup] at hh; exact hh,
      by rw [← hup] at hsub; exact hsub⟩
  rcases commit_cases j w3.now w3.remote c f with ⟨heq, hsame⟩ | ⟨heq, -⟩ | heq
  · rw [heq] at hb ⊢
    rw [hhead] at hsame
    exact .pure ⟨c, n, _, hb, .mono ha3.grown (resting_tip hh hsame (hwork ▸ hsame))⟩
  · rw [heq] at hb ⊢
    refine .bind (safe_push (hb.since ha3.grown) hn (by rw [Clone.commit, hhead])
      (fun _ _ _ _ _ _ _ => cons_ne_nil _ _)
      (fun w' h' => ?_) (fun w' h' => ?_) (fun w' h' => ?_) fun calls _ w' _ h' => ?_)
    · refine .pure ⟨_, _, _, h', .inr ⟨hwork, ?_⟩⟩
      exact ⟨_, mem_cons_self, hwork⟩
    · exact .throw (hcommit _ _ _ h' suffix_rfl)
    · exact .throw (hcommit _ _ _ h' suffix_rfl)
    · exact .throw (hcommit _ _ _ h' (suffix_cons _ _))
  · rw [heq]
    rcases commit_clone (c := c) with heq | heq
    · rw [heq] at hb ⊢
      exact hdirty _ (hb.since ha3.grown)
    · rw [heq] at hb ⊢
      exact hcommit _ _ _ hb ha3.grown

section undone

variable (hcond : ∀ o f calls w, cond j k o f calls w → Undone (proc k) o f w)

include hcond

variable {sel : Path → Bool}

theorem stageAndPush_calm (hsel : FileTree.overlay sel t (tip h) = t)
    (he : Edited j (proc k) n h t w) (hh : h ≠ []) :
    (heldBy κ γ).SafeE proc code cond j k (fun _ => Calm j (proc k))
      (fun _ => Dirty j (proc k)) (stageAndPush sel) w := by
  obtain ⟨c, ⟨ha, hn⟩, hup, hhead, hindex, hwork⟩ := he
  have hadd : (c.add sel).index = (c.add sel).work := by
    show .overlay sel c.work c.index = c.work
    rw [hwork, hindex, hsel]
  refine .bind (must_safe (safe_on (by simp) ha fun calls _ f ha1 _ _ hc hb => ?_))
  have hundone : f.takesEffect ∨ ∀ e ∈ c.work.entries, (c.index.get e.1).isSome := by
    have := hcond _ _ _ _ hc
    rwa [Undone, ha1.clone] at this
  have hstray : f.takesEffect = false → NoStray c := by
    intro hf p hp
    obtain ⟨x, hx⟩ := isSome_iff_exists.1 hp
    refine .inl (hundone.resolve_left (by simp [hf]) (p, x) ?_)
    exact FileTree.get_eq_some.1 hx
  have hdirty : ∀ d, d.upstream = c.upstream → NoStray d →
      ∀ w', At j (proc k) d n h w' → Dirty j (proc k) w' := fun d hd hs w' h' =>
    ⟨d, n, h, h', hs, by rwa [hd, hup], (hd.trans hup) ▸ suffix_rfl⟩
  cases f with
  | done =>
    have hb : At j (proc k) (c.add sel) n h _ := hb.since ha1.grown
    refine .bind (safe_on (by simp) hb fun calls w2 f ha2 _ _ _ hb2 => ?_)
    rw [local_quiet_clone] at hb2 ⊢
    cases hq : ((.quiet : Cmd Path γ).local j w2.now w2.remote (c.add sel) f).1 with
    | true =>
      have hsame := index_of_quiet hq
      rw [show (c.add sel).head = h from hhead] at hsame
      exact .pure ⟨_, _, _, hb2, .mono ha2.grown (resting_tip hh hsame (hadd ▸ hsame))⟩
    | false =>
      exact commitAndPush_calm (hb2.since ha2.grown) hn hup hhead hadd hh
  | lost =>
    exact hdirty (c.add sel) rfl (noStray_of_index_eq hadd) _ (hb.since ha1.grown)
  | _ => exact hdirty c rfl (hstray rfl) _ (hb.since ha1.grown)

/-- To throw away what failed makes it calm again. -/
theorem discardLocal_calm (hw : Dirty j (proc k) w) (hQ : ∀ w', Calm j (proc k) w' → Q () w') :
    (heldBy κ γ).SafeE proc code cond j k Q E discardLocal w := by
  obtain ⟨c, n, h, ha, hs, hne, hsub⟩ := hw
  refine .bind (safe_on (by simp) ha fun _ w1 f ha1 _ _ hc hb => ?_)
  have hundone : f.takesEffect ∨ Resting w1.remote c := by
    have := hcond _ _ _ _ hc
    rwa [Undone, ha1.clone] at this
  have hreset : Resting w1.remote c.reset := resting_reset hs hne (hsub.trans ha1.grown)
  refine .pure (hQ _ ⟨_, _, _, hb, ?_⟩)
  cases f with
  | done => exact hreset
  | lost => exact hreset
  | _ => exact hundone.resolve_left (by simp [Fate.takesEffect])

/-- So a commit keeps calm. -/
theorem commitPaths_calm (hsel : FileTree.overlay sel t (tip h) = t)
    (he : Edited j (proc k) n h t w) (hh : h ≠ []) :
    StaysCalm proc code cond j k (commitPaths sel) w := by
  refine .bind (.attempt ((stageAndPush_calm hcond hsel he hh).mono
    (fun _ w' h' => .pure h') fun e w' h' => ?_))
  exact .bind (discardLocal_calm hcond h' fun _ h'' => .throw h'')

/-- A change that fails keeps calm. -/
theorem change_calm (x : Change γ) (he : Edited j (proc k) n h t w) (hh : h ≠ []) :
    (heldBy κ γ).SafeE proc code cond j k
      (fun _ => Edited j (proc k) n h (x.apply t)) (fun _ => Calm j (proc k)) x.run w := by
  obtain ⟨c, ⟨ha, hn⟩, hup, hhead, hindex, hwork⟩ := he
  have hcalm : ∀ d, d.index = c.index → d.work = c.index →
      ∀ w', At j (proc k) d n h w' → Calm j (proc k) w' := fun d hi hw w' h' =>
    ⟨d, n, h, h', resting_tip hh (hi.trans hindex) (hw.trans hindex)⟩
  cases x with
  | write file x =>
    refine must_safe (safe_on (by simp) ha fun calls w1 f ha1 _ _ hc hb => ?_)
    have hat := hb.since ha1.grown
    split_ifs with hr
    · refine ⟨_, ⟨hat, hn⟩, ?_⟩
      rw [clone_of_write hr]
      exact ⟨hup, hhead, hindex, by rw [hwork]; rfl⟩
    · have hundone := hcond _ _ _ _ hc
      rw [Undone, ha1.clone] at hundone
      obtain ⟨t', ht'⟩ := write_clone (c := c) file x f
      simp only [ht'] at hundone hat ⊢
      refine hcalm { c with work := t' } rfl (hundone.resolve_left ?_) _ hat
      rintro rfl
      exact hr rfl
  | remove sel =>
    refine must_safe (safe_on (by simp) ha fun calls w1 f ha1 _ _ hc hb => ?_)
    have hat := hb.since ha1.grown
    split_ifs with hr
    · refine ⟨_, ⟨hat, hn⟩, ?_⟩
      rw [clone_of_remove hr]
      exact ⟨hup, hhead, hindex, by rw [hwork]; rfl⟩
    · have hundone := hcond _ _ _ _ hc
      rw [Undone, ha1.clone] at hundone
      obtain ⟨t', ht'⟩ := remove_clone (c := c) sel f
      simp only [ht'] at hundone hat ⊢
      refine hcalm { c with work := t' } rfl (hundone.resolve_left ?_) _ hat
      rintro rfl
      exact hr rfl

theorem runChanges_calm (hh : h ≠ []) : ∀ cs t w,
    Edited j (proc k) n h t w → (heldBy κ γ).SafeE proc code cond j k
      (fun _ => Edited j (proc k) n h (applyChanges t cs)) (fun _ => Calm j (proc k))
      (runChanges cs) w
  | [], _, _, he => .pure he
  | x :: cs, t, _, he => .next (fun _ w' h' => runChanges_calm hh cs (x.apply t) w' h') (change_calm
    hcond x he hh)

/-- A plan that is carried out keeps calm. -/
theorem finish_calm {r : Except Err (Plan γ)} (hr : ∀ d, r = .ok (.draft d) → d.Covers)
    (he : Edited j (proc k) n h (tip h) w) (hh : h ≠ []) :
    StaysCalm proc code cond j k (finish r) w := by
  have hcalm : Calm j (proc k) w := Synced.calm ⟨n, h, hh, he⟩
  cases r with
  | error e => exact .throw hcalm
  | ok p => cases p with
    | same _ => exact .pure hcalm
    | draft d =>
      refine .next (fun _ _ h1 => ?_) (runChanges_calm hcond hh d.changes _ _ he)
      refine .next (fun _ _ h2 => ?_) (commitPaths_calm hcond (Draft.tree_eq (hr d rfl) _) h1 hh)
      exact .next (fun _ _ h3 => .pure h3) (landed_calm h2)

/-- So does an edit. -/
theorem editFile_calm [Content γ] {claim : Bool} {fn : Edit γ} {again : Run γ Result} {file : Path}
    {content : γ} (he : Edited j (proc k) n h (tip h) w) (hh : h ≠ [])
    (hagain : ∀ w', Calm j (proc k) w' → StaysCalm proc code cond j k again w') :
    StaysCalm proc code cond j k (editFile claim fn again file content) w := by
  have hcalm : Calm j (proc k) w := Synced.calm ⟨n, h, hh, he⟩
  rw [editFile]
  split
  · exact .throw hcalm
  next text _ _ _ =>
    split_ifs
    · exact .pure hcalm
    · exact .throw hcalm
    · refine .next (fun _ _ h1 => ?_) (change_calm hcond (.write file text) he hh)
      refine .bind (.attempt ((commitPaths_calm hcond (overlay_set ..) h1 hh).mono
        (fun _ w2 h2 => landed_calm h2) fun e w2 h2 => ?_))
      split
      · contradiction
      · exact .bind (ask_calm h2 hagain fun _ h3 => h3)
      · exact .throw h2

end undone

theorem tenantFile_calm [Content γ] {cluster tenant : String} {Q : Path → World Path γ → Prop}
    (hw : Calm j (proc k) w) (hQ : ∀ file w', Synced j (proc k) w' → Q file w')
    (hE : ∀ e w', Calm j (proc k) w' → E e w') :
    (heldBy κ γ).SafeE proc code cond j k Q E (tenantFileWithin cluster tenant 0) w := by
  rw [tenantFileWithin]
  split_ifs
  · refine .bind (sync_calm hw (fun _ h1 => ?_) hE)
    refine .bind (readTree_calm h1 (fun n h w2 hh h2 => ?_) (hE _))
    have hsynced : Synced j (proc k) w2 := ⟨n, h, hh, h2⟩
    split
    · exact .pure (hQ _ _ hsynced)
    · exact .throw (hE _ _ hsynced.calm)
  · exact .throw (hE _ _ hw)

/-- A read finds what some commit had. -/
theorem ensureRepoRead_calm (hw : Calm j (proc k) w)
    (hQ : ∀ c n h w', At j (proc k) c n h w' → c.index = c.work → Held h c.work → Q () w')
    (hE : ∀ e w', Calm j (proc k) w' → E e w') :
    (heldBy κ γ).SafeE proc code cond j k Q E ensureRepoRead w := by
  obtain ⟨c, n, h, ha, hc⟩ := hw
  refine .bind (safe_on (by simp) ha fun _ w1 f ha1 _ _ _ hb => ?_)
  have hc1 : Resting w1.remote c := hc.mono ha1.grown
  beta_reduce
  split_ifs with hfresh
  · -- a checkout that is fresh was synced
    have hsynced : c.syncedAt ≠ none := by
      intro hnone
      rw [Cmd.local, hnone] at hfresh
      exact false_ne_true hfresh
    obtain ⟨hindex, hheld⟩ := hc1.resolve_left hsynced
    exact .pure (hQ c n _ _ hb hindex hheld)
  · refine sync_calm ⟨c, n, _, hb, hc1⟩ (fun w2 h2 => ?_) hE
    obtain ⟨n, h, hh, c, ⟨ha, -⟩, -, -, hindex, hwork⟩ := h2
    exact hQ c n h w2 ha (hindex.trans hwork.symm) (hwork ▸ held_tip hh)

variable {x : Run γ α}

/-- What goes on under the lock leaves the clone at rest. -/
theorem locked_calm {R : α → List (Commit Path γ) → Prop} (hw : ∃ n, Has j n [] w)
    (hx : ∀ w', Calm j (proc k) w' → (heldBy κ γ).SafeE proc code cond j k
      (fun a w => ∃ c n h, At j (proc k) c n h w ∧ Resting h c ∧ R a h)
      (fun _ => Calm j (proc k)) x w') : (heldBy κ γ).SafeE proc code cond j k
      (fun a w => ∃ n h, Has j n h w ∧ R a h) (fun _ w => ∃ n, Has j n [] w) (locked x) w := by
  obtain ⟨n, hw⟩ := hw
  refine .bind (safe_lock hw fun w' c hrest _ ha => ?_)
  have hcalm : Calm j (proc k) w' :=
    ⟨_, n, w'.remote, ⟨ha.clone, ha.holder, ha.count, suffix_rfl⟩, hrest⟩
  refine .bind (.attempt ((hx w' hcalm).mono (fun a w1 h1 => ?_) fun e w1 h1 => ?_))
  · obtain ⟨c1, n1, h1, ha1, hrest1, hR⟩ := h1
    refine .bind (safe_unlock ha1 (fun r hr => .mono (ha1.grown.trans hr) hrest1) fun w2 h2 => ?_)
    exact .pure ⟨n1, h1, h2, hR⟩
  · obtain ⟨c1, n1, h1, ha1, hrest1⟩ := h1
    refine .bind (safe_unlock ha1 (fun r hr => .mono (ha1.grown.trans hr) hrest1) fun w2 h2 => ?_)
    exact .throw ⟨n1, h2.count, nil_suffix⟩

theorem lockedWrite_calm (hw : ∃ n, Has j n [] w)
    (hx : ∀ w', Calm j (proc k) w' → StaysCalm proc code cond j k x w') :
    EndsFree proc code cond j k (locked x) w := by
  refine (locked_calm (R := fun _ _ => True) hw fun w' h' => (hx w' h').mono
    (fun _ w1 h1 => ?_) fun _ _ h1 => h1).mono (fun _ w1 h1 => ?_) fun _ _ h1 => h1
  · obtain ⟨c, n, h, ha, hc⟩ := h1
    exact ⟨c, n, h, ha, hc, trivial⟩
  · obtain ⟨n, h, hhas, -⟩ := h1
    exact ⟨n, hhas.count, nil_suffix⟩

/-- **What a read answers the remote has held.** -/
theorem read_calm (hw : ∃ n, Has j n [] w) : (heldBy κ γ).SafeE proc code cond j k
      (fun t w => ∃ n h, Has j n h w ∧ Held h t) (fun _ w => ∃ n, Has j n [] w) (locked do
        ensureRepoRead
        readTree) w := by
  refine locked_calm hw fun _ h1 => ?_
  refine .bind (ensureRepoRead_calm h1 (fun c n h _ ha hindex hheld => ?_) fun _ _ h2 => h2)
  have hrest : Resting h c := .inr ⟨hindex, hheld⟩
  exact readTree_safe ha (fun w3 ha3 => ⟨_, n, h, ha3, hrest, hheld⟩) fun w3 ha3 =>
    ⟨c, n, h, ha3, hrest⟩

/-! ### The writes -/

section writes

variable (hcond : ∀ o f calls w, cond j k o f calls w → Undone (proc k) o f w)

include hcond

/-- `createTenant` leaves nothing behind. -/
theorem createTenant_calm (cluster name status : String) (refuse : Tree γ → Except Err Unit)
    (files : Tree γ → List (Commit Path γ) → Except Err (List (String × γ) × String))
    (hw : ∃ n, Has j n [] w) :
    EndsFree proc code cond j k (createTenant cluster name status refuse files) w := by
  rw [createTenant]
  split_ifs
  · refine .next (fun _ w1 h1 => ?_) (read_calm hw)
    obtain ⟨n, h, hhas, -⟩ := h1
    have hw1 : ∃ n, Has j n [] w1 := ⟨n, hhas.count, nil_suffix⟩
    split
    · exact .throw hw1
    · refine lockedWrite_calm hw1 fun _ h2 => ?_
      refine .bind (sync_calm h2 (fun _ h3 => ?_) fun _ _ h3 => h3)
      refine .bind (readTree_calm h3 (fun n h _ hh h4 => ?_) fun _ h4 => h4)
      refine .bind (readLog_calm h4 hh (fun log _ h5 => ?_) fun _ _ h5 => h5)
      refine finish_calm hcond (fun d hd => ?_) h5 hh
      cases hfiles : files (tip h) log with
      | error e => simp [hfiles, Except.map] at hd
      | ok _ =>
        rw [hfiles] at hd
        obtain rfl := Plan.draft.inj (ok.inj hd)
        intro c hc p hp
        obtain ⟨f, hf, rfl⟩ := mem_map.1 hc
        exact any_eq_true.2 ⟨f, hf, hp⟩
  · exact .throw hw

/-- `retireTenant` leaves nothing behind. -/
theorem retireTenant_calm (cluster tenant : String) (hw : ∃ n, Has j n [] w) :
    EndsFree proc code cond j k (retireTenant cluster tenant) w := by
  rw [retireTenant]
  split_ifs
  · exact .throw hw
  · exact .throw hw
  · refine lockedWrite_calm hw fun _ h1 => ?_
    refine .bind (sync_calm h1 (fun _ h2 => ?_) fun _ _ h2 => h2)
    refine .bind (readTree_calm h2 (fun n h _ hh h3 => ?_) fun _ h3 => h3)
    refine finish_calm hcond (fun d hd => ?_) h3 hh
    split_ifs at hd
    obtain rfl := Plan.draft.inj (ok.inj hd)
    intro c hc p hp
    obtain rfl := mem_singleton.1 hc
    exact hp

variable [Content γ]

theorem applyToLoop_calm (cluster tenant sibling : String) (fn : Edit γ) :
    ∀ attempts w, Calm j (proc k) w →
      StaysCalm proc code cond j k (applyToLoop cluster tenant sibling fn attempts) w
  | 0, _, hw => .throw hw
  | m + 1, w, hw => by
    refine .bind (tenantFile_calm hw (fun _ _ h1 => ?_) fun _ _ h1 => h1)
    refine .bind (readTree_calm h1 (fun n h _ hh h2 => ?_) fun _ h2 => h2)
    have hagain := applyToLoop_calm cluster tenant sibling fn m
    split
    · exact editFile_calm hcond h2 hh hagain
    · split_ifs
      · exact .throw (Synced.calm ⟨n, h, hh, h2⟩)
      · exact editFile_calm hcond h2 hh hagain

theorem applyClaimLoop_calm (cluster : String) (fn : Edit γ) : ∀ attempts w, Calm j (proc k) w →
      StaysCalm proc code cond j k (applyClaimLoop cluster fn attempts) w
  | 0, _, hw => .throw hw
  | m + 1, w, hw => by
    refine .bind (sync_calm hw (fun _ h1 => ?_) fun _ _ h1 => h1)
    refine .bind (readTree_calm h1 (fun n h _ hh h2 => ?_) fun _ h2 => h2)
    split
    · exact editFile_calm hcond h2 hh (applyClaimLoop_calm cluster fn m)
    · exact .throw (Synced.calm ⟨n, h, hh, h2⟩)

theorem writeTenantFileLocked_calm (cluster tenant name : String) (body : Option γ)
    (list : KustomizationList) (hw : Calm j (proc k) w) :
    StaysCalm proc code cond j k (writeTenantFileLocked cluster tenant name body list) w := by
  refine .bind (tenantFile_calm hw (fun _ _ h1 => ?_) fun _ _ h1 => h1)
  refine .bind (readTree_calm h1 (fun n h _ hh h2 => ?_) fun _ h2 => h2)
  exact finish_calm hcond (fun d hd => tenantFilePlan_covers (ok.inj hd)) h2 hh

omit hcond in
theorem findManifests_calm (cluster : String) : ∀ ts w,
    Synced j (proc k) w → (heldBy κ γ).SafeE proc code cond j k
      (fun ms w => Synced j (proc k) w ∧ (ts = [] → ms = [])) (fun _ => Calm j (proc k))
      (findManifests cluster ts) w
  | [], _, hw => .pure ⟨hw, fun _ => rfl⟩
  | (tenant, patch) :: ts, w, hw => by
    refine .bind (tenantFile_calm hw.calm (fun _ w1 h1 => ?_) fun _ _ h1 => h1)
    refine .next (fun ms _ h2 => ?_) (findManifests_calm cluster ts w1 h1)
    exact .pure ⟨h2.1, fun h => absurd h (cons_ne_nil _ _)⟩

/-- `writePlans` leaves nothing behind where the plans are found. -/
theorem writePlans_calm (x : PlanTexts γ) (cluster : String) (writes : List (PlanWrite γ))
    (hread : ∀ f calls w, cond j k (.on .read) f calls w →
      plansFound cluster writes (w.clones (proc k)).work) (hw : ∃ n, Has j n [] w) :
    EndsFree proc code cond j k (writePlans x cluster writes) w := by
  rw [writePlans]
  split
  · exact .throw hw
  refine lockedWrite_calm hw fun _ h1 => ?_
  refine .bind (sync_calm h1 (fun w2 h2 => ?_) fun _ _ h2 => h2)
  refine .next (fun _ _ h3 => ?_) (findManifests_calm cluster _ w2 h2)
  obtain ⟨⟨n, h, hh, c, ⟨ha, hn⟩, hup, hhead, hindex, hwork⟩, hcopies⟩ := h3
  refine .bind (readTree_cond ha (fun calls w4 w5 hc hclone hat => ?_) fun w4 hat =>
    ⟨c, n, h, hat, resting_tip hh hindex hwork⟩)
  have hfound := hread _ _ _ hc
  rw [hclone, hwork] at hfound
  have hedit : Edited j (proc k) n h (tip h) w5 :=
    ⟨_, ⟨hat, hn⟩, hup, hhead, hindex, hwork⟩
  rw [hwork]
  have herror := planSteps_error (x := x) hfound hcopies
  split
  next changes e heq =>
    rw [heq] at herror
    obtain rfl : changes = [] := herror.resolve_left (by simp)
    exact .throw (Synced.calm ⟨n, h, hh, hedit⟩)
  · refine finish_calm hcond (fun d hd => ?_) hedit hh
    split_ifs at hd
    · exact absurd (ok.inj hd) (by simp)
    · obtain rfl := Plan.draft.inj (ok.inj hd)
      exact fun c hc p hp => any_eq_true.2 ⟨c, hc, hp⟩

end writes

end specs

/-! ### Reads between writes -/

/-- A request to a director: a read, which answers the files it is made from, or
one of the writes. -/
inductive Request (γ : Type) where
  | read
  | applyTo (cluster tenant sibling : String) (fn : Edit γ) (attempts : ℕ)
  | applyClaim (cluster : String) (fn : Edit γ) (attempts : ℕ)
  | createTenant (cluster name status : String) (refuse : Tree γ → Except Err Unit)
      (files : Tree γ → List (Commit Path γ) → Except Err (List (String × γ) × String))
  | writeTenantFile (cluster tenant name : String) (body : Option γ) (list : KustomizationList)
  | writePlans (x : PlanTexts γ) (cluster : String) (writes : List (PlanWrite γ))
  | retireTenant (cluster tenant : String)

/-- What a request answers. -/
inductive Answer (γ : Type) where
  | files (t : Tree γ)
  | result (r : Result)
deriving DecidableEq

/-- A request, in a process. -/
structure RequestCall (γ : Type) where
  proc : ℕ
  request : Request γ

variable [DecidableEq γ] [Content γ]

/-- A write whose result is the answer. -/
def answering (x : Run γ Result) : Run γ (Answer γ) := do
  let r ← x
  pure (.result r)

/-- A request, run to its answer. -/
def Request.run : Request γ → Run γ (Answer γ)
  | .read => do
    let t ← locked do
      ensureRepoRead
      readTree
    pure (.files t)
  | .applyTo cluster tenant sibling fn attempts =>
    answering (Gitops.applyTo cluster tenant sibling fn attempts)
  | .applyClaim cluster fn attempts => answering (Gitops.applyClaim cluster fn attempts)
  | .createTenant cluster name status refuse files =>
    answering (Gitops.createTenant cluster name status refuse files)
  | .writeTenantFile cluster tenant name body list =>
    answering (locked (writeTenantFileLocked cluster tenant name body list))
  | .writePlans x cluster writes => answering (Gitops.writePlans x cluster writes)
  | .retireTenant cluster tenant => answering (Gitops.retireTenant cluster tenant)

/-- The directors, each with its checkout, and the requests they run. -/
abbrev serving (γ : Type) [DecidableEq γ] [Content γ] :
    System (World Path γ) (RequestCall γ) (Op Path γ) (Op.Ans Path γ) (Except Err (Answer γ))
      (Fate Path γ) ℕ :=
  system RequestCall.proc fun k => (k.request.run).run

/-- A step after which nothing is left that a reset would not discard, and plans
that are found when they are to be removed. -/
def leavesNothing (_ : ℕ) (k : RequestCall γ) (o : Op Path γ) (f : Fate Path γ)
    (_ : List (RequestCall γ)) (w : World Path γ) : Prop :=
  Undone k.proc o f w ∧
    match o, k.request with
    | .on .read, .writePlans _ cluster writes =>
      plansFound cluster writes (w.clones k.proc).work = true
    | _, _ => True

instance (j : ℕ) (k : RequestCall γ) (o : Op Path γ) (f : Fate Path γ)
    (calls : List (RequestCall γ)) (w : World Path γ) :
    Decidable (leavesNothing j k o f calls w) := by
  unfold leavesNothing
  have : ∀ (o : Op Path γ) (r : Request γ), Decidable (match o, r with
    | .on .read, .writePlans _ cluster writes =>
      plansFound cluster writes (w.clones k.proc).work = true
    | _, _ => True) := by
    intro o r
    split <;> infer_instance
  infer_instance

/-- What a request has answered, a read in particular, is what the remote has
held. -/
def Answered (r : Except Err (Answer γ)) (h : List (Commit Path γ)) : Prop :=
  ∀ t, r = .ok (.files t) → Held h t

theorem answering_calm {j : ℕ} {k : RequestCall γ} {w : World Path γ} {x : Run γ Result}
    (hx : SafeE (serving γ) ((heldBy _ γ).spec RequestCall.proc leavesNothing) j k
      (fun _ w => ∃ n, Has j n [] w) (fun _ w => ∃ n, Has j n [] w) x w) :
    Safe (serving γ) ((heldBy _ γ).spec RequestCall.proc leavesNothing) j k
      (fun r w => ∃ n h, Has j n h w ∧ Answered r h) (answering x).run w := by
  have hwrite : SafeE (serving γ) ((heldBy _ γ).spec RequestCall.proc leavesNothing) j k
      (fun a w => ∃ n h, Has j n h w ∧ Answered (.ok a) h)
      (fun e w => ∃ n h, Has j n h w ∧ Answered (.error e) h) (answering x) w := by
    refine .bind (hx.mono (fun r w1 h1 => ?_) fun e w1 h1 => ?_)
    · obtain ⟨n, hhas⟩ := h1
      exact .pure ⟨n, [], hhas, fun t ht => absurd (ok.inj ht) (by simp)⟩
    · obtain ⟨n, hhas⟩ := h1
      exact ⟨n, [], hhas, nofun⟩
  exact hwrite.safe (fun _ _ => id) fun _ _ => id

/-- **Each request is safe**, and a read answers what the remote has held. -/
theorem request_safe (j : ℕ) (k : RequestCall γ) (w : World Path γ) (hw : Has j 0 [] w) :
    Safe (serving γ) ((heldBy _ γ).spec RequestCall.proc leavesNothing) j k
      (fun r w => ∃ n h, Has j n h w ∧ Answered r h) (k.request.run).run w := by
  have hcond : ∀ o f calls w, leavesNothing j k o f calls w → Undone k.proc o f w :=
    fun o f calls w hc => hc.1
  have hhas : ∃ n, Has j n [] w := ⟨0, hw⟩
  cases hreq : k.request with
  | read =>
    have hread : SafeE (serving γ) ((heldBy _ γ).spec RequestCall.proc leavesNothing) j k
        (fun a w => ∃ n h, Has j n h w ∧ Answered (.ok a) h)
        (fun e w => ∃ n h, Has j n h w ∧ Answered (.error e) h) (Request.run .read) w := by
      refine .bind ((read_calm hhas).mono (fun t w1 h1 => ?_) fun e w1 h1 => ?_)
      · obtain ⟨n, h, hh, hheld⟩ := h1
        refine .pure ⟨n, h, hh, fun _ ht' => ?_⟩
        obtain rfl := Answer.files.inj (ok.inj ht')
        exact hheld
      · obtain ⟨n, hh⟩ := h1
        exact ⟨n, [], hh, nofun⟩
    exact hread.safe (fun _ _ => id) fun _ _ => id
  | applyTo cluster tenant sibling fn attempts =>
    exact answering_calm (lockedWrite_calm hhas
      (applyToLoop_calm hcond cluster tenant sibling fn attempts))
  | applyClaim cluster fn attempts =>
    exact answering_calm (lockedWrite_calm hhas (applyClaimLoop_calm hcond cluster fn attempts))
  | createTenant cluster name status refuse files =>
    exact answering_calm (createTenant_calm hcond cluster name status refuse files hhas)
  | writeTenantFile cluster tenant name body list =>
    exact answering_calm (lockedWrite_calm hhas fun _ h' =>
      writeTenantFileLocked_calm hcond cluster tenant name body list h')
  | writePlans x cluster writes =>
    refine answering_calm (writePlans_calm hcond x cluster writes (fun f calls w hc => ?_) hhas)
    have := hc.2
    rwa [hreq] at this
  | retireTenant cluster tenant => exact answering_calm (retireTenant_calm hcond cluster tenant hhas)

/-- **A failed write is invisible to readers.**  For any processes and requests,
interleaved in any way and failing anywhere, as long as every step leaves nothing
behind: what a read has answered, the remote has held. -/
theorem read_held {w : World Path γ} {ms : List (Move (RequestCall γ) (Fate Path γ) ℕ)}
    {p : Pool (World Path γ) (RequestCall γ) (Op Path γ) (Op.Ans Path γ) (Except Err (Answer γ))}
    (hw : (heldBy (RequestCall γ) γ).Inv [] w) (hm : Runs.Meets (serving γ).step
      ((heldBy _ γ).spec RequestCall.proc leavesNothing).Allows (Pool.start w) ms)
    (hr : Runs.run (serving γ).step (Pool.start w) ms = some p) (j : ℕ) (t : Tree γ)
    (ha : p.answer j = some (.ok (.files t))) : Held p.shared.remote t := by
  have hsound : Sound (serving γ) ((heldBy _ γ).spec RequestCall.proc leavesNothing)
      (fun j _ r w => ∃ n h, Has j n h w ∧ Answered r h) :=
    sound (fun _ _ _ hh => hh) request_safe
  have hp := hsound.run (holds_start hw) hm hr
  obtain ⟨k, hk⟩ := p.call_of_answer ha
  obtain ⟨w', hrely, n, h, hhas, hanswer⟩ := hp.ended hk ha
  exact (hanswer t rfl).mono (hhas.stable hrely).grown

/-- Texts for the runs below: a file's version. -/
local instance version : Content ℕ :=
  ⟨0, fun _ _ => false, fun _ => true, fun n _ _ => (n, false), fun n _ _ => (n, false)⟩

/-- A repository without plans. -/
def noPlans : List (Commit Path ℕ) := [⟨.empty, none⟩]

/-- A request that writes plans. -/
def changePlans (writes : List (PlanWrite ℕ)) : RequestCall ℕ :=
  ⟨0, .writePlans ⟨fun _ => .ok (), fun a b => a == b, 0, fun _ => false, id⟩ "one" writes⟩

/-- A request that writes one plan and removes one that is not there, and a read
after it.  No step fails. -/
def missingPlan : List (Move (RequestCall ℕ) (Fate Path ℕ) ℕ) :=
  .begin (changePlans [⟨"small", false, 1, []⟩, ⟨"large", true, 0, []⟩]) ::
    replicate 8 (.run 0 .done) ++ .begin ⟨0, .read⟩ :: replicate 4 (.run 1 .done)

/-- **A read answers a plan that no commit has had.** -/
theorem unpushed_plan_read : ∃ h ms p j t, (heldBy (RequestCall ℕ) ℕ).Inv [] (World.start h) ∧
    Runs.run (serving ℕ).step (Pool.start (World.start h)) ms = some p ∧
    p.answer j = some (.ok (.files t)) ∧ ¬Held p.shared.remote t := by
  have hr : Runs.run (serving ℕ).step (.start (.start noPlans)) missingPlan = some _ :=
    (some_get (by decide)).symm
  exact ⟨noPlans, missingPlan, _, 1, FileTree.empty.set (planPath "one" "small.yaml") 1,
    heldBy_start (by decide) (by decide), hr, by decide, by decide⟩

/-- A request whose push fails and whose reset goes through, and a read after it. -/
def failedPush : List (Move (RequestCall ℕ) (Fate Path ℕ) ℕ) :=
  .begin (changePlans [⟨"small", false, 1, []⟩]) :: replicate 12 (.run 0 .done) ++
    [.run 0 .failed, .run 0 .done, .run 0 .done] ++ .begin ⟨0, .read⟩ ::
    replicate 4 (.run 1 .done)

theorem failed_push_read_held : ∃ p t,
    Runs.run (serving ℕ).step (Pool.start (World.start noPlans)) failedPush = some p ∧
    p.answer 0 = some (.error (.git "push")) ∧ p.answer 1 = some (.ok (.files t)) ∧
    Held p.shared.remote t := by
  have hr : Runs.run (serving ℕ).step (.start (.start noPlans)) failedPush =
      some _ := (some_get (by decide)).symm
  exact ⟨_, .empty, hr, by decide, by decide,
    read_held (heldBy_start (by decide) (by decide)) (by decide) hr 1 _ (by decide)⟩

end Gentian.Gitops
