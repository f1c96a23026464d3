/-
# The director's checkout of the deployments repository

`internal/director/gitops/gitops.go` (`GitOps.ensureRepoWithin`,
`tenantFileWithin`, `applyTo`, `commitPaths`, `discardLocal`, `landed`) and
`settings.go` (`GitOps.applyClaim`), as programs over a clone and the remote
branch it is pushed to (`Gentian.Base.Git`).  The process's mutex is the clone's
lock, and `errPushRejected` is what a lost race answers.

A write is a section under the lock: sync the checkout, edit, commit, push, and discard the
commit when the push does not land.  `ensureRepo_safe` says that a synced checkout is a state
of the remote, and `commitPaths_safe` that a commit lands on that state and no other.
-/

import Gentian.Api.Names
import Gentian.Base.Git

namespace Gentian.Gitops

open Threads Git

/-- A path, by its parts. -/
abbrev Path := List String

/-- The files of the repository. -/
abbrev Tree (γ : Type) := FileTree Path γ

/-- `kustomizationList`: which list of a kustomization a file belongs in. -/
inductive KustomizationList where
  | resource
  | patch
deriving DecidableEq

/-- What the director reads off a file's text and how it edits a kustomization;
what a kustomization or another file says is left to the text. -/
class Content (γ : Type) where
  /-- the text of a file that is not there yet -/
  empty : γ
  /-- whether the text says `kind: Tenant` and `name: <tenant>` -/
  declares : γ → String → Bool
  /-- whether the text is valid YAML -/
  parses : γ → Bool
  /-- `ensureListed`: a kustomization with a file in one of its lists, and whether
  that changed it -/
  ensureListed : γ → String → KustomizationList → γ × Bool
  /-- `removeListed`: the kustomization without it -/
  removeListed : γ → String → KustomizationList → γ × Bool

/-- The errors of a write: what the caller is told them by. -/
inductive Err where
  /-- a git command failed -/
  | git (command : String)
  /-- a file could not be read, written or removed -/
  | io
  /-- `ErrInvalidName` -/
  | invalidName (what name : String)
  /-- `ErrTenantNotFound` -/
  | tenantNotFound (tenant : String)
  /-- `ErrNoClusterClaim` -/
  | noClusterClaim
  /-- the edited claim is not valid YAML -/
  | notYAML
  /-- `errPushRejected` -/
  | pushRejected
  /-- `ErrPushContended`, or the request's context ended while waiting -/
  | pushContended
  /-- `checkDefinitions` or `loadSigningKey` refused the commit -/
  | refused
  /-- an edit or a check of the write's own refused it -/
  | said (why : String)
deriving DecidableEq

/-- What a write answers. -/
structure Result where
  status : String
  changed : Bool
  commit : Option ℕ
  warning : String
deriving DecidableEq

variable {γ α : Type}

/-- A call on the repository. -/
abbrev Run (γ : Type) := Script Path γ Err

/-- `if err := …; err != nil { return err }`. -/
def must (x : Run γ Bool) (e : Err) : Run γ Unit := do
  if ← x then pure () else throw e

/-- The history of the clone. -/
def readLog : Run γ (List (Commit Path γ)) := do
  match ← cmd .log with
  | some h => pure h
  | none => throw (.git "log")

/-- The files of the clone. -/
def readTree : Run γ (Tree γ) := do
  match ← cmd .read with
  | some t => pure t
  | none => throw .io

/-- `g.mu.Lock(); defer g.mu.Unlock()`. -/
def locked (x : Run γ α) : Run γ α := do
  lock
  let r ← x.attempt
  cmd .unlock
  match r with
  | .ok a => pure a
  | .error e => throw e

/-- `readFreshness`, in milliseconds. -/
def readFreshness : ℕ := 15000

/-- The commands that make the checkout equal to the remote.  A checkout that is
not there yet is an empty one that was never synced; no rebase is ever open. -/
def sync : Run γ Unit := do
  must (cmd .fetch) (.git "fetch")
  must (cmd .reset) (.git "reset")
  must (cmd .clean) (.git "clean")
  cmd .stamp

/-- `ensureRepo`, unless the clone was synced not long ago. -/
def ensureRepoWithin (maxAge : ℕ) : Run γ Unit := do
  let fresh ← if maxAge > 0 then cmd (.fresh maxAge) else pure false
  if fresh then pure () else sync

/-- `ensureRepo`. -/
def ensureRepo : Run γ Unit := ensureRepoWithin 0

/-- The sync before a read. -/
def ensureRepoRead : Run γ Unit := ensureRepoWithin readFreshness

/-- `clusters/<cluster>/tenants`. -/
def tenantsDir (cluster : String) : Path := ["clusters", cluster, "tenants"]

/-- `clusters/<cluster>/tenants/<tenant>/<file>`. -/
def tenantPath (cluster tenant file : String) : Path := ["clusters", cluster, "tenants", tenant, file]

/-- `clusters/<cluster>/kernel/claims/cluster.yaml`. -/
def claimPath (cluster : String) : Path := ["clusters", cluster, "kernel", "claims", "cluster.yaml"]

/-- The manifest of a tenant in a tree: the one in its own directory, or the
first under the cluster's tenants that reads like it. -/
def manifestPath [Content γ] (t : Tree γ) (cluster tenant : String) : Option Path :=
  let preferred := tenantPath cluster tenant "tenant.yaml"
  if (t.get preferred).isSome then some preferred
  else (t.entries.find? fun e => (tenantsDir cluster).isPrefixOf e.1 &&
    decide (e.1.getLast? = some "tenant.yaml") && Content.declares e.2 tenant).map Prod.fst

/-- The manifest of a tenant, in a clone that is synced first. -/
def tenantFileWithin [Content γ] (cluster tenant : String) (maxAge : ℕ) : Run γ Path :=
  if Api.validTenantName tenant then do
    ensureRepoWithin maxAge
    let t ← readTree
    match manifestPath t cluster tenant with
    | some file => pure file
    | none => throw (.tenantNotFound tenant)
  else throw (.invalidName "tenant" tenant)

/-- `tenantFileWithin` after the refresh. -/
def findManifest [Content γ] (cluster tenant : String) : Run γ Path := do
  let t ← readTree
  match manifestPath t cluster tenant with
  | some file => pure file
  | none => throw (.tenantNotFound tenant)

/-- The part of `commitPaths` that has something to commit: the checks of what is
staged, the commit and the push.  The audit record and `afterPush` come after a
push that landed and change nothing here. -/
def commitAndPush : Run γ Unit := do
  must (cmd .ask) .refused
  must (cmd .ask) .refused
  match ← cmd .commit with
  | .nothing => pure ()
  | .failed => throw (.git "commit")
  | .done =>
    match ← push with
    | .landed => pure ()
    | .rejected => throw .pushRejected
    | .failed => throw (.git "push")

/-- `commitPaths` up to its deferred function.  Nothing staged is no commit and no
error. -/
def stageAndPush (sel : Path → Bool) : Run γ Unit := do
  must (cmd (.add sel)) (.git "add")
  if ← cmd .quiet then pure () else commitAndPush

/-- `GitOps.discardLocal`: best effort, under the request's own context. -/
def discardLocal : Run γ Unit := do
  let _ ← cmd .reset
  pure ()

/-- `GitOps.commitPaths`: the deferred function discards what did not land. -/
def commitPaths (sel : Path → Bool) : Run γ Unit := do
  match ← (stageAndPush sel).attempt with
  | .ok () => pure ()
  | .error e => do
    discardLocal
    throw e

/-- The answer of a write that was pushed. -/
def landed (status : String) : Run γ Result := do
  match ← cmd .revParse with
  | some n => pure ⟨status, true, some n, ""⟩
  | none => throw (.git "rev-parse")

/-- `Result{Status: status}`: nothing was committed. -/
def unchanged (status : String) : Result := ⟨status, false, none, ""⟩

/-- `retryPush`: the budget of `pushContentionBudget` is spent, or the wait ends
with the request's context. -/
def retryPush : Run γ Unit := must (cmd .ask) .pushContended

/-- `edit`: the new text, a status and whether anything changed. -/
abbrev Edit (γ : Type) := γ → Except Err (γ × String × Bool)

/-- What `applyTo` and `applyClaim` do once they have the file and its content:
edit, write, commit and push.  `again` is the loop's next round. -/
def editFile [Content γ] (claim : Bool) (fn : Edit γ) (again : Run γ Result) (file : Path)
    (content : γ) : Run γ Result :=
  match fn content with
  | .error e => throw e
  | .ok (text, status, changed) =>
    if changed = false then pure (unchanged status)
    else if claim && !Content.parses text then throw .notYAML
    else do
      must (cmd (.write file text)) .io
      match ← (commitPaths (fun p => p = file)).attempt with
      | .ok () => landed status
      | .error .pushRejected => do
        retryPush
        again
      | .error e => throw e

/-- The loop of `GitOps.applyTo`, for at most so many attempts. -/
def applyToLoop [Content γ] (cluster tenant sibling : String) (fn : Edit γ) : ℕ → Run γ Result
  | 0 => throw .pushContended
  | n + 1 => do
    let manifest ← tenantFileWithin cluster tenant 0
    let file := if sibling = "" then manifest else manifest.dropLast ++ [sibling]
    let t ← readTree
    match t.get file with
    | some content => editFile false fn (applyToLoop cluster tenant sibling fn n) file content
    | none =>
      if sibling = "" then throw .io
      else editFile false fn (applyToLoop cluster tenant sibling fn n) file Content.empty

/-- The loop of `GitOps.applyClaim`. -/
def applyClaimLoop [Content γ] (cluster : String) (fn : Edit γ) : ℕ → Run γ Result
  | 0 => throw .pushContended
  | n + 1 => do
    ensureRepo
    let t ← readTree
    match t.get (claimPath cluster) with
    | some content => editFile true fn (applyClaimLoop cluster fn n) (claimPath cluster) content
    | none => throw .noClusterClaim

/-- `GitOps.applyTo`; `apply` is the one with no sibling. -/
def applyTo [Content γ] (cluster tenant sibling : String) (fn : Edit γ) (attempts : ℕ) :
    Run γ Result := locked (applyToLoop cluster tenant sibling fn attempts)

/-- `applyClaim`. -/
def applyClaim [Content γ] (cluster : String) (fn : Edit γ) (attempts : ℕ) : Run γ Result :=
  locked (applyClaimLoop cluster fn attempts)

/-! ### What the sections of a write do -/

/-- Call `j` holds the lock of process `p` and has `n` commits in the remote. -/
def Locked (j p n : ℕ) (w : World Path γ) : Prop := ∃ c, At j p c n [] w

/-- Call `j` holds the lock of process `p`, whose checkout was synced at the
history `h` and has the files `t` in its working tree, and has made no commit
since. -/
def Edited (j p n : ℕ) (h : List (Commit Path γ)) (t : Tree γ) (w : World Path γ) : Prop :=
  ∃ c, (At j p c n h w ∧ authored j h = n) ∧ c.upstream = h ∧ c.head = h ∧ c.index = tip h ∧
    c.work = t

theorem locked_of_at {j p n : ℕ} {c : Clone Path γ} {h : List (Commit Path γ)}
    {w : World Path γ} (ha : At j p c n h w) : Locked j p n w :=
  ⟨c, ha.clone, ha.holder, ha.count, List.nil_suffix⟩

theorem Edited.locked {j p n : ℕ} {h : List (Commit Path γ)} {t : Tree γ} {w : World Path γ}
    (he : Edited j p n h t w) : Locked j p n w := by
  obtain ⟨c, ⟨ha, -⟩, -⟩ := he
  exact locked_of_at ha

/-- Files that a call may read: those of its checkout, at a step that is considered. -/
def Looked {κ : Type} (cond : ℕ → κ → Op Path γ → Fate Path γ → List κ → World Path γ → Prop)
    (p j : ℕ) (k : κ) (t : Tree γ) : Prop :=
  ∃ calls w, cond j k (.on .read) .done calls w ∧ (w.clones p).work = t

section specs

variable [DecidableEq γ] {κ β : Type} {K : Keeps κ Path γ} {proc : κ → ℕ}
  {code : κ → Prog (Op Path γ) (Op.Ans Path γ) β}
  {cond : ℕ → κ → Op Path γ → Fate Path γ → List κ → World Path γ → Prop} {j n : ℕ} {k : κ}
  {c : Clone Path γ} {h : List (Commit Path γ)} {t : Tree γ} {w : World Path γ}

variable {Q : Unit → World Path γ → Prop} {E : Err → World Path γ → Prop}
  {R : Tree γ → World Path γ → Prop}

variable {e : Err} {file : Path} {sel : Path → Bool} {dull lossy : Prop} {tenant : String}

/-- The rule of a call that must succeed. -/
theorem must_safe {x : Run γ Bool} (hx : K.SafeE proc code cond j k
      (fun b w => if b = true then Q () w else E e w) E x w) :
    K.SafeE proc code cond j k Q E (must x e) w := by
  refine .next (fun b w hb => ?_) hx
  cases b with
  | true => exact .pure hb
  | false => exact .throw hb

theorem readTree_cond (ha : At j (proc k) c n h w)
    (hQ : ∀ calls w1 w', cond j k (.on .read) .done calls w1 → w1.clones (proc k) = c →
      At j (proc k) { c with seen := true } n h w' → R c.work w')
    (hE : ∀ w', At j (proc k) c n h w' → E .io w') : K.SafeE proc code cond j k R E readTree w := by
  refine .bind (safe_on (by simp) ha fun calls w1 f ha1 _ _ hc hb => ?_)
  cases f with
  | done => exact hQ calls w1 _ hc ha1.clone (hb.since ha1.grown)
  | _ => exact hE _ (hb.since ha1.grown)

/-- The rule of reading the files. -/
theorem readTree_safe (ha : At j (proc k) c n h w)
    (hQ : ∀ w', At j (proc k) { c with seen := true } n h w' → R c.work w')
    (hE : ∀ w', At j (proc k) c n h w' → E .io w') : K.SafeE proc code cond j k R E readTree w :=
  readTree_cond ha (fun _ _ w' _ _ h' => hQ w' h') hE

/-- A clone whose branch, index and files are the history `h`. -/
structure Clone.IsAt (c : Clone Path γ) (h : List (Commit Path γ)) : Prop where
  upstream : c.upstream = h
  head : c.head = h
  index : c.index = tip h
  work : c.work = tip h

/-- **A synced checkout is a state of the remote**, the one it had when the fetch
was made. -/
theorem sync_cond (ha : At j (proc k) c n h w)
    (hQ : ∀ calls w1 c' w', cond j k (.on .fetch) .done calls w1 → w1.clones (proc k) = c →
      c'.seen = c.seen → Clone.IsAt c' w1.remote → At j (proc k) c' n w1.remote w' →
      authored j w1.remote = n → Q () w')
    (hE : ∀ e w', Locked j (proc k) n w' → E e w') : K.SafeE proc code cond j k Q E sync w := by
  refine .bind (must_safe (safe_on (by simp) ha fun calls w1 f ha1 _ _ hc hb => ?_))
  cases f with
  | done =>
    refine .bind (must_safe (safe_on (by simp) hb fun calls _ f ha2 _ _ _ hb2 => ?_))
    cases f with
    | done =>
      refine .bind (must_safe (safe_on (by simp) hb2 fun calls _ f ha3 _ _ _ hb3 => ?_))
      cases f with
      | done =>
        refine safe_on (by simp) hb3 fun calls _ f ha4 _ _ _ hb4 => ?_
        have hgrown := ha2.grown.trans (ha3.grown.trans ha4.grown)
        refine hQ _ w1 _ _ hc ha1.clone ?_ ?_ ⟨hb4.clone, hb4.holder, hb4.count, hgrown⟩ ha1.count
        · rfl
        · exact ⟨rfl, rfl, rfl, clean_reset_work _⟩
      | _ => exact hE _ _ (locked_of_at hb3)
    | _ => exact hE _ _ (locked_of_at hb2)
  | _ => exact hE _ _ (locked_of_at hb)

/-- After a sync the clone is at the remote's head. -/
theorem sync_safe (hw : Locked j (proc k) n w)
    (hQ : ∀ h w', Edited j (proc k) n h (tip h) w' → Q () w')
    (hE : ∀ e w', Locked j (proc k) n w' → E e w') : K.SafeE proc code cond j k Q E sync w := by
  obtain ⟨c, ha⟩ := hw
  refine sync_cond ha (fun _ w1 c' w' _ _ _ hc ha' hn => ?_) hE
  exact hQ _ _ ⟨c', ⟨ha', hn⟩, hc.upstream, hc.head, hc.index, hc.work⟩

/-- A read syncs, or goes on with what it has. -/
theorem ensureRepoRead_cond
    (ha : At j (proc k) c n h w) (hfresh : ∀ w', At j (proc k) c n h w' → Q () w')
    (hQ : ∀ calls w1 c' w', cond j k (.on .fetch) .done calls w1 → w1.clones (proc k) = c →
      c'.seen = c.seen → Clone.IsAt c' w1.remote → At j (proc k) c' n w1.remote w' →
      authored j w1.remote = n → Q () w')
    (hE : ∀ e w', Locked j (proc k) n w' → E e w') :
    K.SafeE proc code cond j k Q E ensureRepoRead w := by
  refine .bind (safe_on (by simp) ha fun calls w1 f ha1 _ _ _ hb => ?_)
  beta_reduce
  split_ifs
  · exact .pure (hfresh _ (hb.since ha1.grown))
  · exact sync_cond hb hQ hE

/-- What happened to a commit that a write tried to make: nothing was to be
committed, it landed, or there is none. -/
def Tried (j p n : ℕ) (same : Prop) (w : World Path γ) : Prop :=
  (same ∧ Locked j p n w) ∨ (¬same ∧ Locked j p (n + 1) w)

/-- What is left of a write that failed: no commit, unless a push landed whose
answer was lost. -/
def Failed (j p n : ℕ) (lossy : Prop) (e : Err) (w : World Path γ) : Prop :=
  Locked j p n w ∨ (e ≠ .pushRejected ∧ lossy ∧ Locked j p (n + 1) w)

theorem ask_safe (ha : At j (proc k) c n h w) (hQ : ∀ w', At j (proc k) c n h w' → Q () w')
    (hE : ∀ w', At j (proc k) c n h w' → E e w') :
    K.SafeE proc code cond j k Q E (must (cmd .ask) e) w := by
  refine must_safe (safe_on (by simp) ha fun _ w1 f ha1 _ _ _ hb => ?_)
  rw [local_ask_clone] at hb ⊢
  have hb : At j (proc k) c n h (w1.setClone (proc k) c) := hb.since ha1.grown
  split_ifs
  · exact hQ _ hb
  · exact hE _ hb

/-- **A commit lands on the state it was made on.**  When the push lands, the
remote's history is the one the checkout was synced at, and has this one commit
more. -/
theorem commitAndPush_safe (ha : At j (proc k) c n h w) (hn : authored j h = n) (hhead : c.head = h)
    (hkeep : K.Takes cond j k h c.index) :
    K.SafeE proc code cond j k (fun _ => Tried j (proc k) n (c.index = tip h))
      (Failed j (proc k) n (∃ calls w, cond j k .push .lost calls w)) commitAndPush w := by
  refine .bind (ask_safe ha (fun _ ha => ?_) fun _ ha => .inl (locked_of_at ha))
  refine .bind (ask_safe ha (fun _ ha => ?_) fun _ ha => .inl (locked_of_at ha))
  refine .bind (safe_on (by simp) ha fun calls w3 f ha3 _ _ _ hb => ?_)
  rcases commit_cases j w3.now w3.remote c f with
    ⟨heq, hsame⟩ | ⟨heq, hne⟩ | heq
  · rw [heq] at hb ⊢
    exact .pure (.inl ⟨by rwa [hhead] at hsame, locked_of_at hb⟩)
  · rw [heq] at hb ⊢
    rw [hhead] at hne
    refine .bind (safe_push (hb.since ha3.grown) hn (by rw [Clone.commit, hhead]) hkeep
      (fun w' h' => ?_) (fun w' h' => ?_) (fun w' h' => ?_) fun calls w4 w' hc h' => ?_)
    · exact .pure (.inr ⟨hne, locked_of_at h'⟩)
    · exact .throw (.inl (locked_of_at h'))
    · exact .throw (.inl (locked_of_at h'))
    · exact .throw (.inr ⟨by simp, ⟨calls, w4, hc⟩, locked_of_at h'⟩)
  · rw [heq]
    exact .throw (.inl (locked_of_at hb))

/-- A push lands the draft, or leaves the remote alone. -/
theorem stageAndPush_safe (he : Edited j (proc k) n h t w)
    (hkeep : K.Takes cond j k h (FileTree.overlay sel t (tip h))) : K.SafeE proc code cond j k
      (fun _ => Tried j (proc k) n (FileTree.overlay sel t (tip h) = tip h))
      (Failed j (proc k) n (∃ calls w, cond j k .push .lost calls w)) (stageAndPush sel) w := by
  obtain ⟨c, ⟨ha, hn⟩, -, hhead, hindex, hwork⟩ := he
  refine .bind (must_safe (safe_on (by simp) ha fun calls _ f ha1 _ _ _ hb => ?_))
  cases f with
  | done =>
    -- the index is what is committed
    have hadd : (c.add sel).index = FileTree.overlay sel t (tip h) := by
      rw [Clone.add, hwork, hindex]
    have hb : At j (proc k) (c.add sel) n h _ := hb.since ha1.grown
    refine .bind (safe_on (by simp) hb fun calls w2 f ha2 _ _ _ hb2 => ?_)
    rw [local_quiet_clone] at hb2 ⊢
    cases hq : ((.quiet : Cmd Path γ).local j w2.now w2.remote (c.add sel) f).1 with
    | true =>
      have hsame := index_of_quiet hq
      rw [hadd, show (c.add sel).head = h from hhead] at hsame
      exact .pure (.inl ⟨hsame, locked_of_at hb2⟩)
    | false =>
      rw [← hadd] at hkeep ⊢
      exact commitAndPush_safe (hb2.since ha2.grown) hn hhead hkeep
  | _ => exact .inl (locked_of_at hb)

/-- What failed is thrown away. -/
theorem discardLocal_safe
    (hw : Locked j (proc k) n w) (hQ : ∀ w', Locked j (proc k) n w' → Q () w') :
    K.SafeE proc code cond j k Q E discardLocal w := by
  obtain ⟨c, ha⟩ := hw
  refine .bind (safe_on (by simp) ha fun _ w1 f _ _ _ _ hb => ?_)
  exact .pure (hQ _ (locked_of_at hb))

/-- A commit is pushed or thrown away. -/
theorem commitPaths_safe {t' : Tree γ}
    (ht : FileTree.overlay sel t (tip h) = t') (he : Edited j (proc k) n h t w)
    (hkeep : K.Takes cond j k h t') :
    K.SafeE proc code cond j k (fun _ => Tried j (proc k) n (t' = tip h))
      (Failed j (proc k) n (∃ calls w, cond j k .push .lost calls w)) (commitPaths sel) w := by
  subst ht
  refine .bind (.attempt ((stageAndPush_safe he hkeep).mono (fun _ w' h' => ?_) fun e w' h' => ?_))
  · exact .pure h'
  · rcases h' with h' | ⟨hne, hl, h'⟩
    · refine .bind (discardLocal_safe h' fun w'' h'' => ?_)
      exact .throw (.inl h'')
    · refine .bind (discardLocal_safe h' fun w'' h'' => ?_)
      exact .throw (.inr ⟨hne, hl, h''⟩)

/-- The answer of a push that landed. -/
theorem landed_safe {status : String} {Q : Result → World Path γ → Prop}
    (hw : Locked j (proc k) n w)
    (hQ : ∀ m w', Locked j (proc k) n w' → Q ⟨status, true, some m, ""⟩ w')
    (hE : ∀ calls w1 f w', f ≠ .done → cond j k (.on .revParse) f calls w1 →
      Locked j (proc k) n w' → E (.git "rev-parse") w') :
    K.SafeE proc code cond j k Q E (landed status) w := by
  obtain ⟨c, ha⟩ := hw
  refine .bind (safe_on (by simp) ha fun calls w1 f _ _ _ hc hb => ?_)
  cases f with
  | done => exact .pure (hQ _ _ (locked_of_at hb))
  | _ => exact .throw (hE calls w1 _ _ (by simp) hc (locked_of_at hb))

/-- The rule of a write. -/
theorem write_safe {x : γ} (he : Edited j (proc k) n h t w)
    (hQ : ∀ calls w1 f w', cond j k (.on (.write file x)) f calls w1 →
      (w1.clones (proc k)).work = t → Edited j (proc k) n h (t.set file x) w' → Q () w')
    (hE : ∀ w', Locked j (proc k) n w' → E .io w') :
    K.SafeE proc code cond j k Q E (must (cmd (.write file x)) .io) w := by
  obtain ⟨c, ⟨ha, hn⟩, hup, hhead, hindex, hwork⟩ := he
  refine must_safe (safe_on (by simp) ha fun calls w1 f ha1 _ _ hc hb => ?_)
  split_ifs with hr
  · refine hQ calls w1 f _ hc (by rw [ha1.clone, hwork]) ⟨_, ⟨hb.since ha1.grown, hn⟩, ?_⟩
    rw [clone_of_write hr]
    exact ⟨hup, hhead, hindex, by rw [hwork]⟩
  · exact hE _ (locked_of_at hb)

/-! ### The edits of one file -/

omit [DecidableEq γ] in
theorem overlay_set (t : Tree γ) (file : Path) (x : γ) :
    FileTree.overlay (fun p => decide (p = file)) (t.set file x) t = t.set file x := by
  ext1 p
  rw [FileTree.get_overlay, FileTree.get_set]
  by_cases hp : p = file
  · simp [hp]
  · simp [hp]

/-- How many commits a write has in the remote by its answer: one when it says
that something changed and none otherwise.  `dull` is a change that is none and
`lossy` a commit whose answer was lost. -/
def Counts (dull lossy : Prop) : Except Err Result → ℕ → Prop
  | .ok res, n => if res.changed then n = 1 ∨ (dull ∧ n = 0) else n = 0
  | .error _, n => n = 0 ∨ (lossy ∧ n = 1)

/-- A write of the call's own can be of the text the file has. -/
def Dull (cond : ℕ → κ → Op Path γ → Fate Path γ → List κ → World Path γ → Prop) (p j : ℕ)
    (k : κ) : Prop :=
  ∃ file text f calls w, cond j k (.on (.write file text)) f calls w ∧
    (w.clones p).work.get file = some text

/-- The condition allows a push whose answer is lost, or a commit whose name is not read. -/
def Lossy (cond : ℕ → κ → Op Path γ → Fate Path γ → List κ → World Path γ → Prop) (j : ℕ)
    (k : κ) : Prop :=
  (∃ calls w, cond j k .push .lost calls w) ∨
    ∃ calls w f, f ≠ .done ∧ cond j k (.on .revParse) f calls w

/-- A write under the lock that began with `n` commits ends with this answer. -/
def Ends (cond : ℕ → κ → Op Path γ → Fate Path γ → List κ → World Path γ → Prop) (p j n : ℕ)
    (k : κ) (r : Except Err Result) (w : World Path γ) : Prop :=
  ∃ m, Locked j p (n + m) w ∧ Counts (Dull cond p j k) (Lossy cond j k) r m

omit [DecidableEq γ] in
theorem ends_error {p : ℕ} (e : Err) (w : World Path γ) (h : Locked j p n w) :
    ∃ m, Locked j p (n + m) w ∧ Counts dull lossy (.error e) m := ⟨0, h, .inl rfl⟩

/-- The program ends under the lock, and `C` holds of its answer and the number of its commits. -/
abbrev Counted (K : Keeps κ Path γ) (proc : κ → ℕ)
    (code : κ → Prog (Op Path γ) (Op.Ans Path γ) β)
    (cond : ℕ → κ → Op Path γ → Fate Path γ → List κ → World Path γ → Prop) (j n : ℕ) (k : κ)
    (C : Except Err α → ℕ → Prop) (x : Run γ α) (w : World Path γ) : Prop :=
  K.SafeE proc code cond j k (fun a w => ∃ m, Locked j (proc k) (n + m) w ∧ C (.ok a) m)
    (fun e w => ∃ m, Locked j (proc k) (n + m) w ∧ C (.error e) m) x w

section

variable (hK : ∀ h c, K.resting h c)

include hK

/-- A section under the lock: what is said of the answer and the number of commits
holds when the lock is given up. -/
theorem locked_safe {C : Except Err α → ℕ → Prop} {x : Run γ α}
    (hw : Has j n [] w)
    (hx : ∀ w', Locked j (proc k) n w' → Counted K proc code cond j n k C x w') :
    K.SafeE proc code cond j k (fun a w => ∃ m, Has j (n + m) [] w ∧ C (.ok a) m)
      (fun e w => ∃ m, Has j (n + m) [] w ∧ C (.error e) m) (locked x) w := by
  refine .bind (safe_lock hw fun w' c _ _ ha => ?_)
  refine .bind (.attempt ((hx w' ⟨_, ha⟩).mono (fun a w1 h1 => ?_) fun e w1 h1 => ?_))
  · obtain ⟨m, ⟨c1, ha1⟩, hC⟩ := h1
    refine .bind (safe_unlock ha1 (fun _ _ => hK _ _) fun w2 h2 => ?_)
    exact .pure ⟨m, h2, hC⟩
  · obtain ⟨m, ⟨c1, ha1⟩, hC⟩ := h1
    refine .bind (safe_unlock ha1 (fun _ _ => hK _ _) fun w2 h2 => ?_)
    exact .throw ⟨m, h2, hC⟩

/-- What a read under the lock finds: the files are those of the checkout at some step that is
considered. -/
theorem lockedRead_safe (hw : Has j n [] w)
    (hQ : ∀ t w', Looked cond (proc k) j k t → Has j n [] w' → R t w')
    (hE : ∀ e w', Has j n [] w' → E e w') : K.SafeE proc code cond j k R E (locked do
      ensureRepoRead
      readTree) w := by
  refine (locked_safe (C := fun r m => m = 0 ∧ ∀ t, r = .ok t → Looked cond (proc k) j k t) hK hw
    fun _ h1 => ?_).mono ?_ ?_
  · obtain ⟨c, ha⟩ := h1
    have hread : ∀ (c : Clone Path γ) h w, At j (proc k) c n h w → Counted K proc code cond j n k
        (fun r m => m = 0 ∧ ∀ t, r = .ok t → Looked cond (proc k) j k t) readTree w := by
      intro c h w ha
      refine readTree_cond ha (fun calls w1 w' hc hclone h' => ?_) fun w' h' => ?_
      · refine ⟨0, locked_of_at h', rfl, ?_⟩
        rintro t ⟨⟩
        exact ⟨calls, w1, hc, by rw [hclone]⟩
      · exact ⟨0, locked_of_at h', rfl, nofun⟩
    refine .bind (ensureRepoRead_cond ha (fun w2 ha2 => hread _ _ _ ha2)
      (fun _ _ _ _ _ _ _ _ ha2 _ => hread _ _ _ ha2) fun _ w2 h2 => ⟨0, h2, rfl, nofun⟩)
  · rintro t w' ⟨m, hm, rfl, hlooked⟩
    exact hQ t w' (hlooked t rfl) hm
  · rintro e w' ⟨m, hm, rfl, -⟩
    exact hE e w' hm

/-- A section of a call that is told what it did: its answer counts its commits. -/
theorem answered_safe {x : Run γ Result}
    (hdull : ¬dull) (hlossy : ¬lossy) (hw : Has j 0 [] w) (hx : ∀ w', Locked j (proc k) 0 w' →
      Counted K proc code cond j 0 k (Counts dull lossy) x w') :
    K.SafeE proc code cond j k (fun a w => ∃ m, Has j m [] w ∧ Counts False False (.ok a) m)
      (fun e w => ∃ m, Has j m [] w ∧ Counts False False (.error e) m) (locked x) w := by
  refine (locked_safe hK hw hx).mono ?_ ?_
  · rintro a w ⟨m, hm, hc⟩
    exact ⟨m, by rwa [Nat.zero_add] at hm, by simpa [Counts, hdull] using hc⟩
  · rintro e w ⟨m, hm, hc⟩
    exact ⟨m, by rwa [Nat.zero_add] at hm, by simpa [Counts, hlossy] using hc⟩

end

variable {fn : Edit γ}

/-- One attempt of an edit. -/
theorem editFile_safe [Content γ] {claim : Bool} {again : Run γ Result}
    {content : γ} (he : Edited j (proc k) n h (tip h) w)
    (hkeep : ∀ text status, fn content = .ok (text, status, true) →
      K.Takes cond j k h ((tip h).set file text))
    (hagain : ∀ w', Locked j (proc k) n w' → Counted K proc code cond j n k
      (Counts (Dull cond (proc k) j k) (Lossy cond j k)) again w') :
    Counted K proc code cond j n k (Counts (Dull cond (proc k) j k) (Lossy cond j k))
      (editFile claim fn again file content) w := by
  rw [editFile]
  split
  · exact .throw (ends_error _ _ he.locked)
  next text status changed hfn =>
    split_ifs with hch hparse
    · exact .pure ⟨0, he.locked, by simp [Counts, unchanged]⟩
    · exact .throw (ends_error _ _ he.locked)
    · obtain rfl : changed := by simpa using hch
      refine .bind (write_safe he (fun calls w1 f _ hc hwork hedit => ?_) (ends_error _))
      refine .bind (.attempt ((commitPaths_safe (overlay_set ..) hedit
        (hkeep text status hfn)).mono (fun _ w3 h3 => ?_) fun e w3 h3 => ?_))
      · -- the edit changed nothing, or its commit landed
        rcases h3 with ⟨hsame, h3⟩ | ⟨-, h3⟩
        · have hdull : Dull cond (proc k) j k := by
            refine ⟨file, text, f, calls, w1, hc, ?_⟩
            rw [hwork, ← hsame, FileTree.get_set, if_pos rfl]
          refine landed_safe h3 (fun m w4 h4 => ⟨0, h4, .inr ⟨hdull, rfl⟩⟩) ?_
          exact fun _ _ _ w4 _ _ h4 => ends_error _ _ h4
        · refine landed_safe h3 (fun m w4 h4 => ⟨1, h4, .inl rfl⟩) ?_
          exact fun calls w4 f w' hf hc h4 => ⟨1, h4, .inr ⟨.inr ⟨calls, w4, f, hf, hc⟩, rfl⟩⟩
      · rcases h3 with h3 | ⟨hne, hl, h3⟩
        · split
          · contradiction
          · obtain ⟨c, ha⟩ := h3
            refine .bind (ask_safe ha (fun w4 h4 => ?_) fun w4 h4 => ends_error _ _ ⟨_, h4⟩)
            exact hagain _ ⟨_, h4⟩
          · exact .throw (ends_error _ _ h3)
        · split
          · contradiction
          next heq =>
            exact absurd (Except.error.inj heq) hne
          · exact .throw ⟨1, h3, .inr ⟨.inl hl, rfl⟩⟩

/-! ### The loops -/

variable {cluster : String}

/-- The manifest that an edit finds is the head's. -/
theorem tenantFile_safe [Content γ] {Q : Path → World Path γ → Prop} (hw : Locked j (proc k) n w)
    (hQ : ∀ h file w', manifestPath (tip h) cluster tenant = some file →
      Edited j (proc k) n h (tip h) w' → Q file w')
    (hE : ∀ e w', Locked j (proc k) n w' → E e w') :
    K.SafeE proc code cond j k Q E (tenantFileWithin cluster tenant 0) w := by
  rw [tenantFileWithin]
  split_ifs
  · refine .bind (sync_safe hw (fun h w1 he => ?_) hE)
    obtain ⟨c, ⟨ha, hn⟩, hup, hhead, hindex, hwork⟩ := he
    refine .bind (readTree_safe ha (fun w2 ha2 => ?_) fun w2 ha2 => hE _ _ (locked_of_at ha2))
    rw [hwork]
    split
    next hfile =>
      exact .pure (hQ h _ _ hfile ⟨_, ⟨ha2, hn⟩, hup, hhead, hindex, hwork⟩)
    · exact .throw (hE _ _ (locked_of_at ha2))
  · exact .throw (hE _ _ hw)

theorem readSynced_safe (he : Edited j (proc k) n h t w)
    (hQ : ∀ w', Edited j (proc k) n h t w' → R t w')
    (hE : ∀ w', Locked j (proc k) n w' → E .io w') : K.SafeE proc code cond j k R E readTree w := by
  obtain ⟨c, ⟨ha, hn⟩, hup, hhead, hindex, hwork⟩ := he
  subst hwork
  exact readTree_safe ha (fun w' h' => hQ w' ⟨_, ⟨h', hn⟩, hup, hhead, hindex, rfl⟩)
    fun w' h' => hE w' (locked_of_at h')

/-- The file `applyTo` edits and what it reads there: a sibling that is not there
yet is edited from empty text. -/
def tenantTarget [Content γ] (t : Tree γ) (cluster tenant sibling : String) : Option (Path × γ) :=
  (manifestPath t cluster tenant).bind fun manifest =>
    let file := if sibling = "" then manifest else manifest.dropLast ++ [sibling]
    match t.get file with
    | some content => some (file, content)
    | none => if sibling = "" then none else some (file, Content.empty)

/-- **`applyTo` edits the state it lands on.**  It is safe when what each landing
edit makes of the remote's newest commit is kept, and its answer says how many
commits it made. -/
theorem applyToLoop_safe [Content γ] {sibling : String} (hkeep : ∀ h file content text status,
      tenantTarget (tip h) cluster tenant sibling = some (file, content) →
      fn content = .ok (text, status, true) →
      K.Takes cond j k h ((tip h).set file text)) : ∀ attempts w, Locked j (proc k) n w →
      Counted K proc code cond j n k (Counts (Dull cond (proc k) j k) (Lossy cond j k))
        (applyToLoop cluster tenant sibling fn attempts) w
  | 0, _, hw => .throw ⟨0, hw, .inl rfl⟩
  | m + 1, w, hw => by
    refine .bind (tenantFile_safe hw (fun h _ _ hm he => ?_) ends_error)
    refine .bind (readSynced_safe he (fun _ he => ?_) (ends_error _))
    split
    next content hget =>
      refine editFile_safe he (fun text status hfn => ?_) (applyToLoop_safe hkeep m)
      exact hkeep h _ _ text status (by simp only [tenantTarget, hm, Option.bind_some, hget]) hfn
    next hget =>
      split_ifs with hs
      · exact .throw (ends_error _ _ he.locked)
      · refine editFile_safe he (fun text status hfn => ?_) (applyToLoop_safe hkeep m)
        rw [if_neg hs] at hget
        refine hkeep h _ _ text status ?_ hfn
        simp [tenantTarget, hm, hs, hget]

/-- An edit of the claim, with its attempts. -/
theorem applyClaimLoop_safe [Content γ] (hkeep : ∀ h content text status,
      (tip h).get (claimPath cluster) = some content → fn content = .ok (text, status, true) →
      K.Takes cond j k h ((tip h).set (claimPath cluster) text)) :
    ∀ attempts w, Locked j (proc k) n w →
      Counted K proc code cond j n k (Counts (Dull cond (proc k) j k) (Lossy cond j k))
        (applyClaimLoop cluster fn attempts) w
  | 0, _, hw => .throw ⟨0, hw, .inl rfl⟩
  | m + 1, w, hw => by
    refine .bind (sync_safe hw (fun h _ he => ?_) ends_error)
    refine .bind (readSynced_safe he (fun _ he => ?_) (ends_error _))
    split
    next content hget =>
      exact editFile_safe he (fun text status => hkeep h content text status hget)
        (applyClaimLoop_safe hkeep m)
    · exact .throw (ends_error _ _ he.locked)

end specs

end Gentian.Gitops
