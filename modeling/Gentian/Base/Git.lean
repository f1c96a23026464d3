/-
# A remote branch and the clones that push to it

Several processes, each with one clone of a repository: a working tree, an index, a branch and
the remote's branch as last fetched, a lock over the clone and the time it was last synced.
The remote holds one branch, whose history is a list of commits with the newest first.

Every command can fail, and a git command can also fail after it took effect (`Fate.lost`).
A write of a file can leave anything behind.  A push is a compare-and-swap: it lands only when
the branch continues what the remote has.

`Rely` is what a call can count on while others move: the remote's history only grows, nobody
else commits in its name, and nobody touches the clone whose lock it holds.
-/

import Gentian.Base.FileTree
import Gentian.Base.Threads

namespace Git

open Threads List Option

variable {π γ : Type} [LinearOrder π]

/-- A commit: the files, and the call that made it (`none` for a commit from
elsewhere). -/
structure Commit (π γ : Type) [LinearOrder π] where
  tree : FileTree π γ
  author : Option ℕ
deriving DecidableEq

/-- The files of the newest commit. -/
def tip : List (Commit π γ) → FileTree π γ
  | [] => .empty
  | c :: _ => c.tree

/-- How many commits a call has made. -/
def authored (j : ℕ) (h : List (Commit π γ)) : ℕ := h.countP fun c => c.author = some j

/-- A process's clone of the remote. -/
structure Clone (π γ : Type) [LinearOrder π] where
  /-- the call that holds the lock -/
  holder : Option ℕ
  /-- whether that call has read the working tree: no command asks -/
  seen : Bool
  /-- the remote's branch as last fetched, `@{u}` -/
  upstream : List (Commit π γ)
  /-- the branch, `HEAD` -/
  head : List (Commit π γ)
  index : FileTree π γ
  work : FileTree π γ
  /-- when the clone was last made equal to the remote -/
  syncedAt : Option ℕ

/-- The remote's branch, every process's clone and the time. -/
structure World (π γ : Type) [LinearOrder π] where
  now : ℕ
  remote : List (Commit π γ)
  clones : ℕ → Clone π γ

/-- What becomes of an operation. -/
inductive Fate (π γ : Type) where
  | done
  /-- it fails and changes nothing -/
  | failed
  /-- it takes effect and fails -/
  | lost
  /-- a push is turned down although nobody else pushed -/
  | refused
  /-- a write of a file fails and leaves this at its path -/
  | left (x : Option γ)
  /-- a removal fails before it comes to this path -/
  | torn (p : π)
deriving DecidableEq

/-- Whether an operation has its effect, be it answered or not. -/
def Fate.takesEffect {π γ : Type} : Fate π γ → Bool
  | .done | .lost => true
  | _ => false

/-- The outcome of `git commit`. -/
inductive Committed where
  | done
  | nothing
  | failed
deriving DecidableEq

/-- The outcome of `git push`. -/
inductive Pushed where
  | landed
  | rejected
  | failed
deriving DecidableEq

/-- The commands on one clone, and the questions its process asks. -/
inductive Cmd (π γ : Type) where
  | unlock
  /-- whether the clone was synced less than `maxAge` ago -/
  | fresh (maxAge : ℕ)
  | fetch
  /-- `git reset --hard @{u}` -/
  | reset
  /-- `git clean -fd` -/
  | clean
  | stamp
  /-- what the working tree holds -/
  | read
  /-- `git log`: the branch's history -/
  | log
  | write (p : π) (x : γ)
  | remove (sel : π → Bool)
  | add (sel : π → Bool)
  /-- `git diff --cached --quiet` -/
  | quiet
  | commit
  /-- `git rev-parse HEAD` -/
  | revParse
  /-- something outside of the clone, answered by its fate -/
  | ask

/-- The operations of a call: the lock, a command in the clone, and the push. -/
inductive Op (π γ : Type) where
  | lock
  | on (c : Cmd π γ)
  | push

/-- What a command answers. -/
@[reducible] def Cmd.Ans (π γ : Type) [LinearOrder π] : Cmd π γ → Type
  | .unlock | .stamp => Unit
  | .read => Option (FileTree π γ)
  | .log => Option (List (Commit π γ))
  | .commit => Committed
  | .revParse => Option ℕ
  | .fresh _ | .fetch | .reset | .clean | .write _ _ | .remove _ | .add _ | .quiet | .ask => Bool

/-- What an operation answers. -/
@[reducible] def Op.Ans (π γ : Type) [LinearOrder π] : Op π γ → Type
  | .lock => Unit
  | .on c => Cmd.Ans π γ c
  | .push => Pushed

/-- What can be decided for each kind of operation can be decided. -/
def Op.decidable {P : Op π γ → Prop} (hlock : Decidable (P .lock))
    (hon : ∀ c, Decidable (P (.on c))) (hpush : Decidable (P .push)) : ∀ o, Decidable (P o)
  | .lock => hlock
  | .on c => hon c
  | .push => hpush

namespace Clone

/-- `git fetch`: the remote's branch is known. -/
def fetch (c : Clone π γ) (remote : List (Commit π γ)) : Clone π γ := { c with upstream := remote }

/-- `git reset --hard @{u}`: the branch and the index are the remote's, and so
are the files that either of the two indexes knows.  A file that git does not
track stays. -/
def reset (c : Clone π γ) : Clone π γ :=
  { c with
    head := c.upstream
    index := tip c.upstream
    work := FileTree.overlay (fun p => (c.index.get p).isSome || ((tip c.upstream).get p).isSome)
      (tip c.upstream) c.work }

/-- `git clean -fd`: the files that git does not track are gone. -/
def clean (c : Clone π γ) : Clone π γ :=
  { c with work := c.work.keep fun p => (c.index.get p).isSome }

/-- `git add`: the index has the selected paths as the working tree has them. -/
def add (c : Clone π γ) (sel : π → Bool) : Clone π γ :=
  { c with index := FileTree.overlay sel c.work c.index }

/-- `git commit`: the index as a commit on the branch. -/
def commit (c : Clone π γ) (j : ℕ) : Clone π γ :=
  { c with head := ⟨c.index, some j⟩ :: c.head }

end Clone

namespace World

/-- The world with one clone replaced. -/
def setClone (w : World π γ) (p : ℕ) (c : Clone π γ) : World π γ :=
  { w with clones := Function.update w.clones p c }

/-- The remote takes over what a clone has. -/
def land (w : World π γ) (p : ℕ) : World π γ := { w with remote := (w.clones p).head }

@[simp] theorem setClone_clones (w : World π γ) (p : ℕ) (c : Clone π γ) :
    (w.setClone p c).clones p = c := Function.update_self ..

@[simp] theorem setClone_clones_of_ne (w : World π γ) {p q : ℕ} (c : Clone π γ) (h : q ≠ p) :
    (w.setClone p c).clones q = w.clones q := Function.update_of_ne h ..

end World

/-! ### What a call can count on -/

/-- How the others may move the world while call `j` of process `p` runs. -/
structure Rely (j p : ℕ) (w w' : World π γ) : Prop where
  grows : w.remote <:+ w'.remote
  count : authored j w'.remote = authored j w.remote
  clone : (w.clones p).holder = some j → w'.clones p = w.clones p

theorem Rely.refl (j p : ℕ) (w : World π γ) : Rely j p w w := ⟨suffix_rfl, rfl, fun _ => rfl⟩

variable {c : Clone π γ} {h : List (Commit π γ)} {w : World π γ} {j n p : ℕ}

/-- What others may do in two steps they may do in one. -/
theorem Rely.trans {w1 w2 w3 : World π γ} (h1 : Rely j p w1 w2) (h2 : Rely j p w2 w3) :
    Rely j p w1 w3 where
  grows := h1.grows.trans h2.grows
  count := h2.count.trans h1.count
  clone h := (h2.clone (by rw [h1.clone h, h])).trans (h1.clone h)

/-- Call `j` holds the lock of process `p`, whose clone is `c`, and has `n`
commits in the remote's history, which continues `h`. -/
structure At (j p : ℕ) (c : Clone π γ) (n : ℕ) (h : List (Commit π γ)) (w : World π γ) :
    Prop where
  clone : w.clones p = c
  holder : c.holder = some j
  count : authored j w.remote = n
  grown : h <:+ w.remote

/-- Others do not change where a call is. -/
theorem At.stable {w' : World π γ} (ha : At j p c n h w) (hr : Rely j p w w') :
    At j p c n h w' where
  clone := (hr.clone (by rw [ha.clone, ha.holder])).trans ha.clone
  holder := ha.holder
  count := hr.count.trans ha.count
  grown := ha.grown.trans hr.grows

theorem At.since {h' : List (Commit π γ)} (ha : At j p c n h' w) (hh : h <:+ h') : At j p c n h w :=
  ⟨ha.clone, ha.holder, ha.count, hh.trans ha.grown⟩

/-- Call `j` has `n` commits in the remote's history, which continues `h`. -/
structure Has (j n : ℕ) (h : List (Commit π γ)) (w : World π γ) : Prop where
  count : authored j w.remote = n
  grown : h <:+ w.remote

/-- Nor how many commits it has made. -/
theorem Has.stable {w' : World π γ} (ha : Has j n h w) (hr : Rely j p w w') :
    Has j n h w' := ⟨hr.count.trans ha.count, ha.grown.trans hr.grows⟩

/-- What the clones know of the remote, and who may have committed. -/
structure Known (n : ℕ) (w : World π γ) : Prop where
  upstream : ∀ p, (w.clones p).upstream <:+ w.remote
  authors : ∀ c ∈ w.remote, ∀ j, c.author = some j → j < n

/-- A change of one clone by the call that holds its lock, or of a clone that
nobody holds, is nothing to the others. -/
theorem rely_setClone (hh : (w.clones p).holder = none ∨ (w.clones p).holder = some j) {j' : ℕ}
    (hj : j' ≠ j) (p' : ℕ) : Rely j' p' w (w.setClone p c) where
  grows := suffix_rfl
  count := rfl
  clone h := by
    rcases eq_or_ne p' p with rfl | hp
    · rcases hh with hh | hh
      · rw [hh] at h
        cases h
      · rw [hh] at h
        exact absurd (some.inj h).symm hj
    · exact World.setClone_clones_of_ne w c hp

theorem Known.setClone (hk : Known n w) (hc : c.upstream <:+ w.remote) :
    Known n (w.setClone p c) := by
  refine ⟨fun q => ?_, hk.authors⟩
  rcases eq_or_ne q p with rfl | hq
  · rw [World.setClone_clones]
    exact hc
  · rw [World.setClone_clones_of_ne w c hq]
    exact hk.upstream q

/-- A commit counts for its author. -/
theorem authored_cons_self (j : ℕ) (t : FileTree π γ) (h : List (Commit π γ)) :
    authored j (⟨t, some j⟩ :: h) = authored j h + 1 := by
  rw [authored, countP_cons_of_pos (by simp), authored]

theorem authored_cons_of_ne {j' : ℕ} (hj : j' ≠ j) (t : FileTree π γ) (h : List (Commit π γ)) :
    authored j' (⟨t, some j⟩ :: h) = authored j' h := by
  rw [authored, countP_cons_of_neg (by simpa using hj.symm), authored]

/-- Between a history and one commit more there is nothing. -/
theorem eq_of_suffix_commit {r : List (Commit π γ)} {t : FileTree π γ} (hr : h <:+ r)
    (hland : r <:+ ⟨t, some j⟩ :: h) (hcount : authored j r = authored j h) : r = h := by
  rcases suffix_cons_iff.1 hland with heq | hsub
  · rw [heq, authored_cons_self] at hcount
    omega
  · exact hsub.eq_of_length (le_antisymm hsub.length_le hr.length_le)

/-- A call that has not begun has made no commit. -/
theorem Known.authored_eq_zero (hk : Known n w) : authored n w.remote = 0 := by
  refine countP_eq_zero.2 fun c hc => ?_
  rw [decide_eq_true_eq]
  exact fun h => lt_irrefl n (hk.authors c hc n h)

theorem Known.mono {m : ℕ} (hk : Known n w) (h : n ≤ m) : Known m w :=
  ⟨hk.upstream, fun c hc j hj => lt_of_lt_of_le (hk.authors c hc j hj) h⟩

/-- After reset and clean the files are those of the remote. -/
theorem clean_reset_work (c : Clone π γ) : c.reset.clean.work = tip c.upstream := by
  ext1 p
  rw [Clone.clean, Clone.reset, FileTree.get_keep, FileTree.get_overlay]
  cases h : (tip c.upstream).get p with
  | none => rfl
  | some x => simp

variable {κ α ε : Type}

/-- What a pool of calls keeps: something of the remote's history, and something
of every clone that no call is using, which stays true as the history grows. -/
structure Keeps (κ π γ : Type) [LinearOrder π] where
  history : List κ → List (Commit π γ) → Prop
  resting : List (Commit π γ) → Clone π γ → Prop
  resting_mono : ∀ {h h' : List (Commit π γ)} {c : Clone π γ}, h <:+ h' → resting h c → resting h' c

/-- What every step keeps: the history is right, and so is each clone that no call holds. -/
structure Keeps.Inv (K : Keeps κ π γ) (calls : List κ) (w : World π γ) : Prop where
  known : Known calls.length w
  history : K.history calls w.remote
  resting : ∀ p, (w.clones p).holder = none → K.resting w.remote (w.clones p)

theorem Keeps.Inv.setClone {K : Keeps κ π γ} {calls : List κ} (hi : K.Inv calls w)
    (hc : c.upstream <:+ w.remote) (hr : c.holder = none → K.resting w.remote c) :
    K.Inv calls (w.setClone p c) := by
  refine ⟨hi.known.setClone hc, hi.history, fun q => ?_⟩
  rcases eq_or_ne q p with rfl | hq
  · rw [World.setClone_clones]
    exact hr
  · rw [World.setClone_clones_of_ne w c hq]
    exact hi.resting q

/-- A clone before its first sync. -/
def Clone.blank : Clone π γ := ⟨none, false, [], [], .empty, .empty, none⟩

/-- A remote with a history, before any process has synced. -/
def World.start (h : List (Commit π γ)) : World π γ := ⟨0, h, fun _ => .blank⟩

theorem known_start (hh : ∀ c ∈ h, c.author = none) : Known 0 (World.start h) :=
  ⟨fun _ => nil_suffix, fun c hc j hj => by simp [hh c hc] at hj⟩

/-! ### Carrying out an operation -/

variable [DecidableEq γ]

/-- A command on a clone, by call `j`: its answer and the clone after it. -/
def Cmd.local (j : ℕ) (now : ℕ) (remote : List (Commit π γ)) (c : Clone π γ) :
    (l : Cmd π γ) → Fate π γ → Cmd.Ans π γ l × Clone π γ
  | .unlock, _ => ((), { c with holder := none })
  | .fresh maxAge, _ => (match c.syncedAt with
      | none => false
      | some t => decide (now - t < maxAge), c)
  | .fetch, .done => (true, c.fetch remote)
  | .fetch, .lost => (false, c.fetch remote)
  | .fetch, _ => (false, c)
  | .reset, .done => (true, c.reset)
  | .reset, .lost => (false, c.reset)
  | .reset, _ => (false, c)
  | .clean, .done => (true, c.clean)
  | .clean, .lost => (false, c.clean)
  | .clean, _ => (false, c)
  | .stamp, _ => ((), { c with syncedAt := some now })
  | .read, .done => (some c.work, { c with seen := true })
  | .read, _ => (none, c)
  | .log, .done => (some c.head, c)
  | .log, _ => (none, c)
  | .write p x, .done => (true, { c with work := c.work.set p x })
  | .write p _, .left (some y) => (false, { c with work := c.work.set p y })
  | .write p _, .left none => (false, { c with work := c.work.keep fun q => q ≠ p })
  | .write _ _, _ => (false, c)
  | .remove sel, .done => (true, { c with work := c.work.keep fun q => !sel q })
  | .remove sel, .torn p => (false, { c with work := c.work.keep fun q => !(sel q && decide (q < p)) })
  | .remove _, _ => (false, c)
  | .add sel, .done => (true, c.add sel)
  | .add sel, .lost => (false, c.add sel)
  | .add _, _ => (false, c)
  | .quiet, .done => (decide (c.index = tip c.head), c)
  | .quiet, _ => (false, c)
  | .commit, .done => if c.index = tip c.head then (.nothing, c) else (.done, c.commit j)
  | .commit, .lost => (.failed, if c.index = tip c.head then c else c.commit j)
  | .commit, _ => (.failed, c)
  | .revParse, .done => (some c.head.length, c)
  | .revParse, _ => (none, c)
  | .ask, .done => (true, c)
  | .ask, _ => (false, c)

/-- An operation of call `j` in process `p`.  The lock is waited for, and
everything else is done by the call that holds it. -/
def exec (j p : ℕ) : (o : Op π γ) → Fate π γ → World π γ → Option (Op.Ans π γ o × World π γ)
  | .lock, _, w =>
    if (w.clones p).holder = none then
      some ((), w.setClone p { w.clones p with holder := some j, seen := false })
    else none
  | .on l, f, w =>
    if (w.clones p).holder = some j then
      let a := l.local j w.now w.remote (w.clones p) f
      some (a.1, w.setClone p a.2)
    else none
  | .push, f, w =>
    if (w.clones p).holder = some j then
      match f with
      | .done =>
        if w.remote <:+ (w.clones p).head then
          some (.landed, (w.land p).setClone p
            { w.clones p with upstream := (w.clones p).head })
        else some (.rejected, w)
      | .lost => some (.failed, if w.remote <:+ (w.clones p).head then w.land p else w)
      | .refused => some (.rejected, w)
      | _ => some (.failed, w)
    else none

/-- Only `unlock` changes who holds the lock. -/
theorem local_holder {now : ℕ} {remote : List (Commit π γ)} {l : Cmd π γ} {f : Fate π γ}
    (hl : l ≠ .unlock) : (l.local j now remote c f).2.holder = c.holder := by
  cases l with
  | unlock => exact absurd rfl hl
  | write p x => cases f with
      | left y => cases y <;> rfl
      | _ => rfl
  | commit => cases f with
      | done | lost =>
        rw [Cmd.local]
        split_ifs <;> rfl
      | _ => rfl
  | _ => cases f <;> rfl

/-- A command takes over the remote or leaves what was fetched. -/
theorem local_upstream {now : ℕ} {remote : List (Commit π γ)} {l : Cmd π γ} {f : Fate π γ} :
    (l.local j now remote c f).2.upstream = c.upstream ∨
      (l.local j now remote c f).2.upstream = remote := by
  cases l with
  | fetch => cases f with
      | done => exact .inr rfl
      | lost => exact .inr rfl
      | _ => exact .inl rfl
  | write p x => cases f with
      | left y => cases y <;> exact .inl rfl
      | _ => exact .inl rfl
  | commit => cases f with
      | done | lost =>
        rw [Cmd.local]
        split_ifs <;> exact .inl rfl
      | _ => exact .inl rfl
  | _ => cases f <;> exact .inl rfl

section answers

variable {j now : ℕ} {remote : List (Commit π γ)} {c : Clone π γ} {f : Fate π γ}

@[simp] theorem local_ask_clone : ((Cmd.ask : Cmd π γ).local j now remote c f).2 = c := by
  cases f <;> rfl

@[simp] theorem local_log_clone : ((Cmd.log : Cmd π γ).local j now remote c f).2 = c := by
  cases f <;> rfl

@[simp] theorem local_quiet_clone : ((Cmd.quiet : Cmd π γ).local j now remote c f).2 = c := by
  cases f <;> rfl

@[simp] theorem local_revParse_clone : ((Cmd.revParse : Cmd π γ).local j now remote c f).2 = c := by
  cases f <;> rfl

theorem index_of_quiet (h : ((Cmd.quiet : Cmd π γ).local j now remote c f).1 = true) :
    c.index = tip c.head := by
  cases f with
  | done => exact of_decide_eq_true h
  | _ => cases h

theorem clone_of_write {p : π} {x : γ} (h : ((Cmd.write p x).local j now remote c f).1 = true) :
    ((Cmd.write p x).local j now remote c f).2 = { c with work := c.work.set p x } := by
  cases f with
  | done => rfl
  | left y => cases y <;> cases h
  | _ => cases h

theorem clone_of_remove {sel : π → Bool} (h : ((Cmd.remove sel).local j now remote c f).1 = true) :
    ((Cmd.remove sel).local j now remote c f).2 =
      { c with work := c.work.keep fun q => !sel q } := by
  cases f with
  | done => rfl
  | _ => cases h

theorem write_clone (p : π) (x : γ) (f : Fate π γ) : ∃ t, ∀ j now remote,
    ((Cmd.write p x).local j now remote c f).2 = { c with work := t } := by
  cases f with
  | done => exact ⟨_, fun _ _ _ => rfl⟩
  | left y => cases y <;> exact ⟨_, fun _ _ _ => rfl⟩
  | _ => exact ⟨c.work, fun _ _ _ => rfl⟩

theorem remove_clone (sel : π → Bool) (f : Fate π γ) : ∃ t, ∀ j now remote,
    ((Cmd.remove sel).local j now remote c f).2 = { c with work := t } := by
  cases f with
  | done => exact ⟨_, fun _ _ _ => rfl⟩
  | torn p => exact ⟨_, fun _ _ _ => rfl⟩
  | _ => exact ⟨c.work, fun _ _ _ => rfl⟩

theorem commit_clone : ((Cmd.commit : Cmd π γ).local j now remote c f).2 = c ∨
    ((Cmd.commit : Cmd π γ).local j now remote c f).2 = c.commit j := by
  cases f with
  | done | lost =>
    rw [Cmd.local]
    split_ifs
    · exact .inl rfl
    · exact .inr rfl
  | _ => exact .inl rfl

/-- A commit has nothing to do, is made, or fails. -/
theorem commit_cases (j now : ℕ) (remote : List (Commit π γ)) (c : Clone π γ) (f : Fate π γ) :
    ((Cmd.commit : Cmd π γ).local j now remote c f) = (.nothing, c) ∧ c.index = tip c.head ∨
    ((Cmd.commit : Cmd π γ).local j now remote c f) = (.done, c.commit j) ∧ c.index ≠ tip c.head ∨
    ((Cmd.commit : Cmd π γ).local j now remote c f).1 = .failed := by
  cases f with
  | done =>
    by_cases h : c.index = tip c.head
    · exact .inl ⟨if_pos h, h⟩
    · exact .inr (.inl ⟨if_neg h, h⟩)
  | _ => exact .inr (.inr rfl)

end answers

/-! ### Pools of calls -/

/-- A call on the repository. -/
abbrev Script (π γ : Type) [LinearOrder π] (ε : Type) := Act (Op π γ) (Op.Ans π γ) ε

/-- The lock of the process. -/
def lock : Script π γ ε Unit := Act.call Op.lock

/-- One command in the clone. -/
def cmd (l : Cmd π γ) : Script π γ ε (Cmd.Ans π γ l) := Act.call (Op.on l)

/-- `git push`. -/
def push : Script π γ ε Pushed := Act.call Op.push

/-- Calls in processes: each runs its program on its process's clone, and time
goes on. -/
def system (proc : κ → ℕ) (code : κ → Prog (Op π γ) (Op.Ans π γ) α) :
    System (World π γ) κ (Op π γ) (Op.Ans π γ) α (Fate π γ) ℕ where
  code := code
  exec j k := exec j (proc k)
  env d w := some { w with now := w.now + d }

/-- The conditions of a pool that keeps `K`. -/
def Keeps.spec (K : Keeps κ π γ) (proc : κ → ℕ)
    (cond : ℕ → κ → Op π γ → Fate π γ → List κ → World π γ → Prop) :
    Spec (World π γ) κ (Op π γ) (Fate π γ) where
  inv := K.Inv
  rely j k := Rely j (proc k)
  cond := cond

instance (K : Keeps κ π γ) (proc : κ → ℕ)
    (cond : ℕ → κ → Op π γ → Fate π γ → List κ → World π γ → Prop) (j : ℕ) (k : κ) (o : Op π γ)
    (f : Fate π γ) (calls : List κ) (w : World π γ) [Decidable (cond j k o f calls w)] :
    Decidable ((K.spec proc cond).cond j k o f calls w) :=
  inferInstanceAs (Decidable (cond j k o f calls w))

/-- `SafeE` for a call of a pool that keeps `K`. -/
abbrev Keeps.SafeE (K : Keeps κ π γ) (proc : κ → ℕ) (code : κ → Prog (Op π γ) (Op.Ans π γ) α)
    (cond : ℕ → κ → Op π γ → Fate π γ → List κ → World π γ → Prop) (j : ℕ) (k : κ) {β : Type}
    (Q : β → World π γ → Prop) (E : ε → World π γ → Prop) (x : Script π γ ε β) (w : World π γ) :
    Prop :=
  Threads.SafeE (system proc code) (K.spec proc cond) j k Q E x w

/-- The history with a commit of these files on it is kept, when a push meets it. -/
def Keeps.Takes (K : Keeps κ π γ)
    (cond : ℕ → κ → Op π γ → Fate π γ → List κ → World π γ → Prop) (j : ℕ) (k : κ)
    (h : List (Commit π γ)) (t : FileTree π γ) : Prop :=
  ∀ calls w₁ f, w₁.remote = h → K.Inv calls w₁ → calls[j]? = some k →
    cond j k .push f calls w₁ → K.history calls (⟨t, some j⟩ :: h)

section rules

variable {K : Keeps κ π γ} {proc : κ → ℕ} {code : κ → Prog (Op π γ) (Op.Ans π γ) α}
  {cond : ℕ → κ → Op π γ → Fate π γ → List κ → World π γ → Prop} {j n : ℕ} {k : κ}
  {h : List (Commit π γ)} {c : Clone π γ} {w : World π γ} {E : ε → World π γ → Prop}

/-- The rule of the lock. -/
theorem safe_lock {Q : Unit → World π γ → Prop} (hw : Has j n h w)
    (hQ : ∀ w' c, K.resting w'.remote c → c.holder = none →
      At j (proc k) { c with holder := some j, seen := false } n h w' → Q () w') :
    K.SafeE proc code cond j k Q E lock w := by
  refine .call fun _ _ f r _ hr hi _ _ he => ?_
  have hw1 := hw.stable hr
  simp only [system, exec, ite_none_right_eq_some] at he
  obtain ⟨hnone, rfl, rfl⟩ := he
  refine ⟨hi.setClone (hi.known.upstream _) (nofun),
    fun _ _ hj => rely_setClone (.inl hnone) hj _, hQ _ _ (hi.resting _ hnone) hnone ?_⟩
  exact ⟨World.setClone_clones .., rfl, hw1.count, hw1.grown⟩

/-- The rule of a command. -/
theorem safe_on {l : Cmd π γ} {Q : Cmd.Ans π γ l → World π γ → Prop} (hl : l ≠ .unlock)
    (ha : At j (proc k) c n h w)
    (hQ : ∀ calls w1 f, At j (proc k) c n h w1 → K.Inv calls w1 → calls[j]? = some k →
      cond j k (.on l) f calls w1 →
      At j (proc k) (l.local j w1.now w1.remote c f).2 n w1.remote
        (w1.setClone (proc k) (l.local j w1.now w1.remote c f).2) →
      Q (l.local j w1.now w1.remote c f).1
        (w1.setClone (proc k) (l.local j w1.now w1.remote c f).2)) :
    K.SafeE proc code cond j k Q E (cmd l) w := by
  refine .call fun calls w1 f r _ hr hi hj hc he => ?_
  have ha1 := ha.stable hr
  simp only [system, exec, ite_none_right_eq_some, ha1.clone] at he
  obtain ⟨-, rfl, rfl⟩ := he
  have hholder : (l.local j w1.now w1.remote c f).2.holder = some j := by
    rw [local_holder hl, ha.holder]
  have hup : (l.local j w1.now w1.remote c f).2.upstream <:+ w1.remote := by
    rcases local_upstream (c := c) with heq | heq
    · rw [heq, ← ha1.clone]
      exact hi.known.upstream _
    · exact ⟨[], heq⟩
  refine ⟨hi.setClone hup fun hn => ?_, fun _ _ hj' => ?_, hQ calls w1 f ha1 hi hj hc ?_⟩
  · rw [hholder] at hn
    cases hn
  · exact rely_setClone (.inr (by rw [ha1.clone, ha.holder])) hj' _
  · exact ⟨World.setClone_clones .., hholder, ha1.count, suffix_rfl⟩

/-- The rule of giving up the lock. -/
theorem safe_unlock {Q : Unit → World π γ → Prop} (ha : At j (proc k) c n h w)
    (hc : ∀ r, w.remote <:+ r → K.resting r { c with holder := none })
    (hQ : ∀ w', Has j n h w' → Q () w') : K.SafeE proc code cond j k Q E (cmd .unlock) w := by
  refine .call fun _ _ f r _ hr hi _ _ he => ?_
  have ha1 := ha.stable hr
  simp only [system, exec, ite_none_right_eq_some, ha1.clone] at he
  obtain ⟨-, rfl, rfl⟩ := he
  refine ⟨hi.setClone ?_ fun _ => hc _ hr.grows, fun _ _ hj' => ?_, hQ _ ⟨ha1.count, ha1.grown⟩⟩
  · rw [← ha1.clone]
    exact hi.known.upstream _
  · exact rely_setClone (.inr (by rw [ha1.clone, ha.holder])) hj' _

/-- The rule of the push: it lands, is rejected, or fails. -/
theorem safe_push {t : FileTree π γ} {Q : Pushed → World π γ → Prop}
    (ha : At j (proc k) c n h w) (hn : authored j h = n) (hhead : c.head = ⟨t, some j⟩ :: h)
    (hkeep : K.Takes cond j k h t)
    (hlanded : ∀ w', At j (proc k) { c with upstream := c.head } (n + 1) (⟨t, some j⟩ :: h) w' →
      Q .landed w')
    (hrejected : ∀ w', At j (proc k) c n h w' → Q .rejected w')
    (hfailed : ∀ w', At j (proc k) c n h w' → Q .failed w')
    (hlost : ∀ calls w1 w', cond j k .push .lost calls w1 →
      At j (proc k) c (n + 1) (⟨t, some j⟩ :: h) w' → Q .failed w') :
    K.SafeE proc code cond j k Q E push w := by
  refine .call fun calls w1 f r _ hr hi hj hc he => ?_
  have ha1 := ha.stable hr
  have hrefl : ∀ j' k', j' ≠ j → Rely j' (proc k') w1 w1 := fun j' k' _ => .refl ..
  simp only [system, exec, ha1.clone] at he
  rw [if_pos ha.holder] at he
  -- what landing the commit does, whether or not the answer arrives
  have hland : w1.remote <:+ c.head → w1.remote = h ∧ K.Inv calls (w1.land (proc k)) ∧
      (∀ j' k', j' ≠ j → Rely j' (proc k') w1 (w1.land (proc k))) ∧
      At j (proc k) c (n + 1) (⟨t, some j⟩ :: h) (w1.land (proc k)) := by
    intro hsub
    rw [hhead] at hsub
    have heq := eq_of_suffix_commit ha1.grown hsub (ha1.count.trans hn.symm)
    have hrem : (w1.land (proc k)).remote = ⟨t, some j⟩ :: h := by
      rw [World.land, ha1.clone, hhead]
    have hgrow : w1.remote <:+ (w1.land (proc k)).remote := by
      rw [hrem, heq]
      exact List.suffix_cons _ _
    have hlt : j < calls.length := (List.getElem?_eq_some_iff.1 hj).1
    refine ⟨heq, ⟨⟨fun p => (hi.known.upstream p).trans hgrow, fun d hd i hdi => ?_⟩, ?_,
      fun p hp => K.resting_mono hgrow (hi.resting p hp)⟩, fun j' k' hj' => ?_, ?_⟩
    · rw [hrem, ← heq] at hd
      rcases mem_cons.1 hd with rfl | hd
      · cases hdi
        exact hlt
      · exact hi.known.authors d hd i hdi
    · rw [hrem]
      exact hkeep calls w1 f heq hi hj hc
    · refine ⟨hgrow, ?_, fun _ => rfl⟩
      rw [hrem, authored_cons_of_ne hj', heq]
    · refine ⟨ha1.clone, ha.holder, ?_, ?_⟩
      · rw [hrem, authored_cons_self, hn]
      · exact hrem ▸ suffix_rfl
  cases f with
  | done =>
    split_ifs at he with hsub
    · cases he
      obtain ⟨-, hinv, hrely, hat⟩ := hland hsub
      have hcl : (w1.land (proc k)).clones (proc k) = c := ha1.clone
      refine ⟨hinv.setClone ?_ fun hn => ?_, fun j' k' hj' => (hrely j' k' hj').trans
        (rely_setClone (.inr (by rw [hcl, ha.holder])) hj' _), hlanded _ ?_⟩
      · rw [hhead]
        exact hat.grown
      · exact absurd (ha.holder.symm.trans hn) (by simp)
      · exact ⟨World.setClone_clones .., ha.holder, hat.count, hat.grown⟩
    · cases he
      exact ⟨hi, hrefl, hrejected _ ha1⟩
  | lost =>
    cases he
    split_ifs with hsub
    · obtain ⟨-, hinv, hrely, hat⟩ := hland hsub
      exact ⟨hinv, hrely, hlost calls w1 _ hc hat⟩
    · exact ⟨hi, hrefl, hfailed _ ha1⟩
  | refused =>
    cases he
    exact ⟨hi, hrefl, hrejected _ ha1⟩
  | _ =>
    cases he
    exact ⟨hi, hrefl, hfailed _ ha1⟩

/-- A pool of calls is sound when each call's program is safe from the moment it
begins, when the remote has no commit of it. -/
theorem sound {post : ℕ → κ → α → World π γ → Prop}
    (hmono : ∀ calls k h, K.history calls h → K.history (calls ++ [k]) h)
    (hcode : ∀ j k w, Has j 0 [] w →
      Safe (system proc code) (K.spec proc cond) j k (post j k) (code k) w) :
    Sound (system proc code) (K.spec proc cond) post where
  refl j k w := Rely.refl j (proc k) w
  trans j k _ _ _ := Rely.trans
  env d calls w w' hi he := by
    cases he
    exact ⟨⟨⟨hi.known.upstream, hi.known.authors⟩, hi.history, hi.resting⟩,
      fun j k => ⟨suffix_rfl, rfl, fun _ => rfl⟩⟩
  begin calls k w hi := by
    refine ⟨⟨hi.known.mono (by simp), hmono calls k _ hi.history, hi.resting⟩, hcode _ k w ?_⟩
    exact ⟨hi.known.authored_eq_zero, nil_suffix⟩

end rules

end Git
