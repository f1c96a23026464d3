/-
# The director's other writes

The writes of `internal/director/gitops` that change several files, as programs
over the checkout: `writeTenantFileLocked` (`backup.go`), `createTenant` and
`RetireTenant` (`tenants.go`) and `writePlansLocked` (`resource_plans.go`).  Each
syncs the checkout, decides from what it finds which files to write or remove (a
`Draft`), carries the changes out one by one, and commits the paths it changed.  None of them
starts over when the push is rejected.

The decisions that depend on what files say are parameters here: the checks and the manifest
of `createTenant`, and the texts of plans and kustomizations.
-/

import Gentian.Gitops.Repo

namespace Gentian.Gitops

open Threads Git List FileTree

variable {γ α : Type}

/-- A change of files. -/
inductive Change (γ : Type) where
  /-- `os.WriteFile` -/
  | write (file : Path) (x : γ)
  /-- `os.Remove` and `os.RemoveAll` -/
  | remove (sel : Path → Bool)

/-- What a change makes of the files. -/
def Change.apply (t : Tree γ) : Change γ → Tree γ
  | .write file x => t.set file x
  | .remove sel => t.keep fun p => !sel p

/-- Whether a change is about a path. -/
def Change.touches (p : Path) : Change γ → Bool
  | .write file _ => p = file
  | .remove sel => sel p

/-- A change, in the clone. -/
def Change.run : Change γ → Run γ Unit
  | .write file x => must (cmd (.write file x)) .io
  | .remove sel => must (cmd (.remove sel)) .io

/-- The changes one after another, up to the first that fails. -/
def runChanges : List (Change γ) → Run γ Unit
  | [] => pure ()
  | c :: cs => do
    c.run
    runChanges cs

/-- What changes make of the files, one after the other. -/
def applyChanges (t : Tree γ) (cs : List (Change γ)) : Tree γ := cs.foldl Change.apply t

/-- What a write commits: the changes, the paths it stages, and what it answers. -/
structure Draft (γ : Type) where
  changes : List (Change γ)
  paths : Path → Bool
  status : String
  warning : String

/-- What a write decided: nothing is to be done, or a commit. -/
inductive Plan (γ : Type) where
  | same (status : String)
  | draft (d : Draft γ)

/-- The files that are committed. -/
def Draft.tree (d : Draft γ) (t : Tree γ) : Tree γ :=
  FileTree.overlay d.paths (applyChanges t d.changes) t

/-- All that is changed is committed. -/
def Draft.Covers (d : Draft γ) : Prop := ∀ c ∈ d.changes, ∀ p, c.touches p = true → d.paths p = true

variable {d : Draft γ} {p : Path} {t : Tree γ}

theorem get_apply_of_not_touches {c : Change γ} (hp : c.touches p = false) :
    (c.apply t).get p = t.get p := by
  cases c with
  | write _ x =>
    rw [Change.apply, get_set, if_neg (by simpa [Change.touches] using hp)]
  | remove _ =>
    rw [Change.touches] at hp
    rw [Change.apply, get_keep, hp]
    rfl

variable {list : KustomizationList} {cs : List (Change γ)} {body : Option γ} {manifest : Path}
  {name : String}

/-- Changes leave what they do not touch. -/
theorem get_applyChanges_of_not_touches :
    ∀ {t}, (∀ c ∈ cs, c.touches p = false) → (applyChanges t cs).get p = t.get p := by
  induction cs with
  | nil => exact fun _ => rfl
  | cons c cs ih =>
    intro t hp
    have hrest := ih (t := c.apply t) fun d hd => hp d (mem_cons_of_mem _ hd)
    exact hrest.trans (get_apply_of_not_touches (hp c mem_cons_self))

/-- A draft that covers its changes commits them all. -/
theorem Draft.tree_eq (hd : d.Covers) (t : Tree γ) : d.tree t = applyChanges t d.changes := by
  ext1 p
  rw [Draft.tree, get_overlay]
  split_ifs with hp
  · rfl
  · refine (get_applyChanges_of_not_touches fun c hc => ?_).symm
    rw [← Bool.not_eq_true]
    exact fun htouch => hp (hd c hc p htouch)

/-- What becomes of a plan. -/
def finish : Except Err (Plan γ) → Run γ Result
  | .error e => throw e
  | .ok (.same status) => pure (unchanged status)
  | .ok (.draft d) => do
    runChanges d.changes
    commitPaths d.paths
    let res ← landed d.status
    pure { res with warning := d.warning }

/-- Whether a path is below a directory. -/
def under (dir : Path) (p : Path) : Bool := dir.isPrefixOf p

/-! ### A file beside a tenant's manifest -/

/-- A file written, or removed where it is none. -/
def setFile (path : Path) : Option γ → Change γ
  | none => .remove fun p => p = path
  | some x => .write path x

theorem setFile_touches (path p : Path) (body : Option γ) :
    (setFile path body).touches p = decide (p = path) := by
  cases body <;> rfl

/-- What is there after a file is set. -/
theorem get_setFile_apply (path p : Path) (body : Option γ) (t : Tree γ) :
    ((setFile path body).apply t).get p = if p = path then body else t.get p := by
  cases body with
  | none =>
    rw [setFile, Change.apply, get_keep]
    by_cases hp : p = path <;> simp [hp]
  | some x =>
    rw [setFile, Change.apply, get_set]
    by_cases hp : p = path <;> simp [hp]

/-- The kustomization that lists the file when there is one, and whether that
changed it. -/
def listFile [Content γ] (kustomization : γ) (name : String) (list : KustomizationList) :
    Option γ → γ × Bool
  | none => Content.removeListed kustomization name list
  | some _ => Content.ensureListed kustomization name list

/-- What `writeTenantFileLocked` decides: the file `name` beside the manifest has
the body, or is not there, and the kustomization lists it accordingly. -/
def tenantFilePlan [Content γ] [DecidableEq γ] (t : Tree γ) (manifest : Path) (name : String)
    (body : Option γ) (list : KustomizationList) : Plan γ :=
  let path := manifest.dropLast ++ [name]
  let kustomizationPath := manifest.dropLast ++ ["kustomization.yaml"]
  let listed := listFile ((t.get kustomizationPath).getD Content.empty) name list body
  if t.get path = body && !listed.2 then .same "unchanged"
  else .draft {
    changes := setFile path body :: if listed.2 then [.write kustomizationPath listed.1] else []
    paths := fun p => p = path || (listed.2 && p = kustomizationPath)
    status := "updated"
    warning := "" }

/-- A plan commits all that it changes. -/
theorem tenantFilePlan_covers [Content γ] [DecidableEq γ]
    (hd : tenantFilePlan t manifest name body list = .draft d) : d.Covers := by
  rw [tenantFilePlan] at hd
  split_ifs at hd with hsame hlisted
  · obtain rfl := Plan.draft.inj hd
    intro c hc p hp
    rcases mem_cons.1 hc with rfl | hc
    · rw [setFile_touches] at hp
      simp [hp]
    · obtain rfl := mem_singleton.1 hc
      simpa [hlisted] using .inr (of_decide_eq_true hp)
  · obtain rfl := Plan.draft.inj hd
    intro c hc p hp
    obtain rfl := mem_singleton.1 hc
    rw [setFile_touches] at hp
    simp [hp]

/-- What a plan leaves. -/
theorem tenantFilePlan_get [Content γ] [DecidableEq γ] (hname : name ≠ "kustomization.yaml")
    (hd : tenantFilePlan t manifest name body list = .draft d) (p : Path) :
    (d.tree t).get p = if p = manifest.dropLast ++ [name] then body
      else
        let kustomizationPath := manifest.dropLast ++ ["kustomization.yaml"]
        let listed := listFile ((t.get kustomizationPath).getD Content.empty) name list body
        if listed.2 ∧ p = kustomizationPath then some listed.1 else t.get p := by
  rw [Draft.tree_eq (tenantFilePlan_covers hd)]
  rw [tenantFilePlan] at hd
  split_ifs at hd with hsame hlisted
  · obtain rfl := Plan.draft.inj hd
    rw [applyChanges, foldl_cons, foldl_cons, foldl_nil]
    rw [Change.apply, get_set, get_setFile_apply]
    by_cases hp : p = manifest.dropLast ++ [name]
    · simp [hp, hname]
    · simp [hp, hlisted]
  · obtain rfl := Plan.draft.inj hd
    rw [applyChanges, foldl_cons, foldl_nil, get_setFile_apply]
    simp [hlisted]

/-- `writeTenantFile`, under the lock. -/
def writeTenantFileLocked [Content γ] [DecidableEq γ] (cluster tenant name : String)
    (body : Option γ) (list : KustomizationList) : Run γ Result := do
  let manifest ← tenantFileWithin cluster tenant 0
  let t ← readTree
  finish (.ok (tenantFilePlan t manifest name body list))

/-! ### Creating and retiring a tenant -/

/-- `GitOps.createTenant`.  `refuse` is `refuseInSingleTenancy`, which reads the
claim under a lock of its own; `files` are the checks made under the lock and
the files of the new tenant's directory, with the warning of a reused name. -/
def createTenant (cluster name status : String) (refuse : Tree γ → Except Err Unit)
    (files : Tree γ → List (Commit Path γ) → Except Err (List (String × γ) × String)) :
    Run γ Result :=
  if Api.validTenantName name then do
    let before ← locked do
      ensureRepoRead
      readTree
    match refuse before with
    | .error e => throw e
    | .ok () => locked do
        ensureRepo
        let t ← readTree
        let log ← readLog
        finish ((files t log).map fun fs => .draft {
          changes := fs.1.map fun f => .write (tenantPath cluster name f.1) f.2
          paths := fun p => fs.1.any fun f => p = tenantPath cluster name f.1
          status := status
          warning := fs.2 })
  else throw (.invalidName "tenant" name)

/-- The name of the platform's tenant. -/
def platformTenant : String := "platform"

/-- `RetireTenant`. -/
def retireTenant (cluster tenant : String) : Run γ Result :=
  if !Api.validTenantName tenant then throw (.invalidName "tenant" tenant)
  else if tenant = platformTenant then throw (.said "tenant is protected")
  else locked do
    ensureRepo
    let t ← readTree
    let dir := tenantsDir cluster ++ [tenant]
    finish (if t.entries.any fun e => under dir e.1 then
        .ok (.draft ⟨[.remove (under dir)], under dir, "retired", ""⟩)
      else .error (.tenantNotFound tenant))

/-! ### The cluster's resource plans -/

/-- `PlanWrite`: a plan to write, with its text and the patches of the tenants on
it, or one to remove. -/
structure PlanWrite (γ : Type) where
  name : String
  remove : Bool
  body : γ
  tenants : List (String × γ)

/-- The manifest of every tenant whose copy of a plan is written with it, in the
order they are found.  Finding one syncs the checkout. -/
def findManifests [Content γ] (cluster : String) : List (String × γ) → Run γ (List (Path × γ))
  | [] => pure []
  | (tenant, patch) :: rest => do
    let manifest ← tenantFileWithin cluster tenant 0
    let found ← findManifests cluster rest
    pure ((manifest, patch) :: found)

/-- `writeTenantPlan`: the changes that put the plan beside a tenant's manifest.
`same` is `samePlan`. -/
def tenantPlanChanges [Content γ] (same : γ → γ → Bool) (t : Tree γ) (manifest : Path)
    (patch : γ) : List (Change γ) :=
  let patchPath := manifest.dropLast ++ ["resource-plan.yaml"]
  let kustomizationPath := manifest.dropLast ++ ["kustomization.yaml"]
  let listed := Content.ensureListed ((t.get kustomizationPath).getD Content.empty)
    "resource-plan.yaml" .patch
  if same ((t.get patchPath).getD Content.empty) patch && !listed.2 then []
  else .write patchPath patch ::
    if listed.2 then [.write kustomizationPath listed.1] else []

/-- `dnsLabel.MatchString`, as `ValidName` has it. -/
def validName (name : String) : Bool := Api.dnsLabel name

/-- `clusters/<cluster>/resource-plans/<file>`. -/
def planPath (cluster file : String) : Path := ["clusters", cluster, "resource-plans", file]

/-- The loop of `writePlansLocked` over the plans: the changes it makes, the
kustomization's text and whether it changed, and the error it stops at.  What was
changed before the error stays changed. -/
def planChanges [Content γ] [DecidableEq γ] (cluster : String) :
    Tree γ → List (PlanWrite γ) → γ → Bool → List (Change γ) × γ × Bool × Option Err
  | _, [], listed, changed => ([], listed, changed, none)
  | t, w :: ws, listed, changed =>
    if validName w.name = false then ([], listed, changed, some (.invalidName "plan" w.name))
    else
      let file := w.name ++ ".yaml"
      let path := planPath cluster file
      if w.remove then
        if (t.get path).isNone then ([], listed, changed, some (.said "plan not found"))
        else
          let next := Content.removeListed listed file .resource
          let rest := planChanges cluster (t.keep fun p => !(p = path)) ws next.1
            (changed || next.2)
          (.remove (fun p => p = path) :: rest.1, rest.2)
      else
        let next := Content.ensureListed listed file .resource
        let rest := planChanges cluster (t.set path w.body) ws next.1 (changed || next.2)
        (if t.get path = some w.body then rest.1 else .write path w.body :: rest.1, rest.2)

theorem planChanges_listed [Content γ] [DecidableEq γ] (cluster : String) :
    ∀ (ws : List (PlanWrite γ)) (t : Tree γ) (x y : γ) (a b : Bool),
      (planChanges cluster t ws x a).1 = (planChanges cluster t ws y b).1 ∧
      (planChanges cluster t ws x a).2.2.2 = (planChanges cluster t ws y b).2.2.2
  | [], _, _, _, _, _ => ⟨rfl, rfl⟩
  | w :: ws, t, x, y, a, b => by
    have ih := planChanges_listed cluster ws
    simp only [planChanges]
    split_ifs
    · exact ⟨rfl, rfl⟩
    · exact ⟨rfl, rfl⟩
    · exact ⟨congrArg (cons _) (ih _ _ _ _ _).1, (ih _ _ _ _ _).2⟩
    · exact ih _ _ _ _ _
    · exact ⟨congrArg (cons _) (ih _ _ _ _ _).1, (ih _ _ _ _ _).2⟩

theorem planChanges_mono [Content γ] [DecidableEq γ] (cluster : String) :
    ∀ (ws : List (PlanWrite γ)) (t t' : Tree γ) (x : γ) (a : Bool),
      (∀ p, (t.get p).isSome → (t'.get p).isSome) →
      (planChanges cluster t ws x a).2.2.2 = none → (planChanges cluster t' ws x a).2.2.2 = none
  | [], _, _, _, _, _, _ => rfl
  | w :: ws, t, t', x, a, hsub, h => by
    have ih := planChanges_mono cluster ws
    rw [planChanges] at h ⊢
    by_cases hname : validName w.name = false
    · rw [if_pos hname] at h
      cases h
    rw [if_neg hname] at h ⊢
    split_ifs at h ⊢ with hremove
    · by_cases hnone : (t.get (planPath cluster (w.name ++ ".yaml"))).isNone
      · rw [if_pos hnone] at h
        cases h
      · rw [if_neg hnone] at h
        rw [if_neg]
        · refine ih _ _ _ _ (fun p hp => ?_) h
          rw [FileTree.get_keep] at hp ⊢
          split_ifs at hp ⊢ with hq
          · exact hsub p hp
          · exact hp
        · rw [Bool.not_eq_true, Option.isNone_eq_false_iff] at hnone ⊢
          exact hsub _ hnone
    · refine ih _ _ _ _ (fun p hp => ?_) h
      rw [FileTree.get_set] at hp ⊢
      split_ifs at hp ⊢ with hq
      · exact hp
      · exact hsub p hp

/-- The copies of plans that tenants have. -/
def tenantCopies (writes : List (PlanWrite γ)) : List (String × γ) :=
  writes.flatMap fun w => if w.remove then [] else w.tenants

/-- The changes that put every tenant's copy in place, in the tree as the earlier
ones leave it. -/
def copyChanges [Content γ] (same : γ → γ → Bool) : Tree γ → List (Path × γ) → List (Change γ)
  | _, [] => []
  | t, (manifest, patch) :: rest =>
    let cs := tenantPlanChanges same t manifest patch
    cs ++ copyChanges same (applyChanges t cs) rest

/-- What `WritePlans` is given besides the plans: `samePlan`, the text of a
kustomization without plans, whether a text is one, `emptyResourcesAsList`, and
the check of a plan before anything is read. -/
structure PlanTexts (γ : Type) where
  check : PlanWrite γ → Except Err Unit
  same : γ → γ → Bool
  kustomization : γ
  blank : γ → Bool
  emptyResourcesAsList : γ → γ

/-- The body of `GitOps.writePlansLocked` once the manifests are found: the changes
before its first error, the paths they touch, and the error. -/
def planSteps [Content γ] [DecidableEq γ] (x : PlanTexts γ) (cluster : String) (t : Tree γ)
    (copies : List (Path × γ)) (writes : List (PlanWrite γ)) : List (Change γ) × Option Err :=
  let kustomizationPath := planPath cluster "kustomization.yaml"
  let kustomization := (t.get kustomizationPath).getD Content.empty
  let listed := if x.blank kustomization then x.kustomization else kustomization
  let own := copyChanges x.same t copies
  let plans := planChanges cluster (applyChanges t own) writes listed (listed ≠ kustomization)
  match plans.2.2.2 with
  | some e => (own ++ plans.1, some e)
  | none => (own ++ plans.1 ++ if plans.2.2.1 then
      [.write kustomizationPath (x.emptyResourcesAsList plans.2.1)] else [], none)

/-- The loop over the plans finds every plan that it is to remove, or has changed
nothing before it stops. -/
def plansFound [Content γ] [DecidableEq γ] (cluster : String) (writes : List (PlanWrite γ))
    (t : Tree γ) : Bool :=
  let plans := planChanges cluster t writes Content.empty false
  plans.2.2.2.isNone || (plans.1.isEmpty && (tenantCopies writes).isEmpty)

theorem isSome_applyChanges_of_writes :
    ∀ {t}, (∀ c ∈ cs, ∃ file x, c = .write file x) → (t.get p).isSome →
      ((applyChanges t cs).get p).isSome := by
  induction cs with
  | nil => exact fun _ hp => hp
  | cons c cs ih =>
    intro t hcs hp
    obtain ⟨file, x, rfl⟩ := hcs c mem_cons_self
    refine ih (t := t.set file x) (fun d hd => hcs d (mem_cons_of_mem _ hd)) ?_
    rw [get_set]
    split_ifs
    · rfl
    · exact hp

theorem copyChanges_writes [Content γ] (same : γ → γ → Bool) :
    ∀ copies t, ∀ c ∈ copyChanges same t copies, ∃ file x, c = .write file x
  | [], _, _, hc => absurd hc not_mem_nil
  | (manifest, patch) :: rest, t, c, hc => by
    rcases mem_append.1 hc with hc | hc
    · rw [tenantPlanChanges] at hc
      split_ifs at hc
      · cases hc
      · rcases mem_cons.1 hc with rfl | hc
        · exact ⟨_, _, rfl⟩
        · exact ⟨_, _, mem_singleton.1 hc⟩
      · exact ⟨_, _, mem_singleton.1 hc⟩
    · exact copyChanges_writes same rest _ c hc

/-- Where the plans are found a failure comes before any change. -/
theorem planSteps_error [Content γ] [DecidableEq γ] {x : PlanTexts γ} {cluster : String}
    {copies : List (Path × γ)} {writes : List (PlanWrite γ)}
    (hfound : plansFound cluster writes t)
    (hcopies : tenantCopies writes = [] → copies = []) :
    (planSteps x cluster t copies writes).2 = none ∨
      (planSteps x cluster t copies writes).1 = [] := by
  rw [plansFound, Bool.or_eq_true, Bool.and_eq_true, Option.isNone_iff_eq_none,
    List.isEmpty_iff, List.isEmpty_iff] at hfound
  rw [planSteps]
  rcases hfound with hnone | ⟨hempty, hc⟩
  · -- writing the copies removes no plan
    left
    split
    next e he =>
      have hmono := planChanges_mono cluster writes t
        (applyChanges t (copyChanges x.same t copies)) Content.empty false
        (fun p hp => isSome_applyChanges_of_writes (copyChanges_writes x.same copies t) hp) hnone
      rw [(planChanges_listed cluster writes _ _ _ _ _).2, hmono] at he
      cases he
    · rfl
  · rw [hcopies hc]
    split
    · right
      exact (planChanges_listed cluster writes _ _ _ _ _).1.trans hempty
    · left
      rfl

/-- `GitOps.writePlansLocked`.  A read that fails between two of its writes is the
failure of the next write. -/
def writePlansLocked [Content γ] [DecidableEq γ] (x : PlanTexts γ) (cluster : String)
    (writes : List (PlanWrite γ)) : Run γ Result := do
  let copies ← findManifests cluster (tenantCopies writes)
  let t ← readTree
  match planSteps x cluster t copies writes with
  | (changes, some e) => do
    runChanges changes
    throw e
  | (changes, none) => finish (.ok (if changes.isEmpty then .same "unchanged"
      else .draft ⟨changes, fun p => changes.any (·.touches p), "updated", ""⟩))

/-- `WritePlans`. -/
def writePlans [Content γ] [DecidableEq γ] (x : PlanTexts γ) (cluster : String)
    (writes : List (PlanWrite γ)) : Run γ Result :=
  match writes.findSome? fun w => match x.check w with
    | .error e => some e
    | .ok () => none with
  | some e => throw e
  | none => locked do
      ensureRepo
      writePlansLocked x cluster writes

/-! ### What carrying out a decision does to the remote -/

section specs

variable [DecidableEq γ] {κ β : Type} {K : Keeps κ Path γ} {proc : κ → ℕ}
  {code : κ → Prog (Op Path γ) (Op.Ans Path γ) β}
  {cond : ℕ → κ → Op Path γ → Fate Path γ → List κ → World Path γ → Prop} {j n : ℕ} {k : κ}
  {h : List (Commit Path γ)} {t : Tree γ} {w : World Path γ}

theorem change_safe (x : Change γ) (he : Edited j (proc k) n h t w) :
    K.SafeE proc code cond j k (fun _ => Edited j (proc k) n h (x.apply t))
      (fun _ => Locked j (proc k) n) x.run w := by
  obtain ⟨c, ⟨ha, hn⟩, hup, hhead, hindex, hwork⟩ := he
  cases x with
  | write _ x =>
    refine must_safe (safe_on (by simp) ha fun calls w1 f ha1 _ _ hc hb => ?_)
    split_ifs with hr
    · refine ⟨_, ⟨hb.since ha1.grown, hn⟩, ?_⟩
      rw [clone_of_write hr]
      exact ⟨hup, hhead, hindex, by rw [hwork]; rfl⟩
    · exact locked_of_at hb
  | remove _ =>
    refine must_safe (safe_on (by simp) ha fun calls w1 f ha1 _ _ hc hb => ?_)
    split_ifs with hr
    · refine ⟨_, ⟨hb.since ha1.grown, hn⟩, ?_⟩
      rw [clone_of_remove hr]
      exact ⟨hup, hhead, hindex, by rw [hwork]; rfl⟩
    · exact locked_of_at hb

/-- The rule of changes one after the other. -/
theorem runChanges_safe : ∀ cs t w, Edited j (proc k) n h t w → K.SafeE proc code cond j k
      (fun _ => Edited j (proc k) n h (applyChanges t cs)) (fun _ => Locked j (proc k) n)
      (runChanges cs) w
  | [], _, _, he => .pure he
  | x :: cs, t, _, he => .next (fun _ w' h' => runChanges_safe cs (x.apply t) w' h') (change_safe x
    he)

/-- A decision whose commit would have the files that are there already. -/
def Idle (r : Except Err (Plan γ)) (t : Tree γ) : Prop :=
  ∃ d, r = .ok (.draft d) ∧ d.tree t = t

/-- **A decision lands on the state it was made on.**  Carrying it out is safe when
what its commit makes of the remote's newest one is kept, and the answer says how
many commits there are. -/
theorem finish_safe {r : Except Err (Plan γ)} (he : Edited j (proc k) n h (tip h) w)
    (hkeep : ∀ d, r = .ok (.draft d) → K.Takes cond j k h (d.tree (tip h))) :
    Counted K proc code cond j n k (Counts (Idle r (tip h)) (Lossy cond j k)) (finish r) w := by
  cases r with
  | error e => exact .throw (ends_error e _ he.locked)
  | ok p => cases p with
    | same _ => exact .pure ⟨0, he.locked, by simp [Counts, unchanged]⟩
    | draft d =>
      refine .bind ((runChanges_safe d.changes _ _ he).mono (fun _ _ h1 => ?_) ends_error)
      refine .bind ((commitPaths_safe rfl h1 (hkeep d rfl)).mono (fun _ w2 h2 => ?_)
        fun e w2 h2 => ?_)
      · rcases h2 with ⟨hsame, h2⟩ | ⟨-, h2⟩
        · refine .bind (landed_safe h2 (fun m w3 h3 => ?_) fun _ _ _ w3 _ _ h3 => ?_)
          · exact .pure ⟨0, h3, .inr ⟨⟨d, rfl, hsame⟩, rfl⟩⟩
          · exact ends_error _ _ h3
        · refine .bind (landed_safe h2 (fun m w3 h3 => ?_) fun calls w3 f _ hf hc h3 => ?_)
          · exact .pure ⟨1, h3, .inl rfl⟩
          · exact ⟨1, h3, .inr ⟨.inr ⟨calls, w3, f, hf, hc⟩, rfl⟩⟩
      · rcases h2 with h2 | ⟨-, hl, h2⟩
        · exact ends_error _ _ h2
        · exact ⟨1, h2, .inr ⟨.inl hl, rfl⟩⟩

end specs

end Gentian.Gitops
