/-
# Memberships mirrored into an app's store

`internal/arbiter/naming.go` (`UserObject`, `GroupObject`, `groupType`) and
`internal/arbiter/platform.go` (`Server.platformMemberships`), for one store that
mirrors groups.

A statement says every group a person is in.  The handler reads the memberships the store
holds for the person, and writes and deletes what differs (`plan`).  Nothing is held between
the read and the last request: when two statements about one person have read before either
has written, the person ends up in the groups of both (`groups_of_both`).
-/

import Gentian.Authz.Names
import Gentian.Base.Runs
import Gentian.OpenFGA.Store

namespace Gentian.Arbiter

open GoStrings Api OpenFGA Authz List

/-- `groupType`: the type a mirrored group is of. -/
def groupType : String := "group"

/-- `UserObject`: a person of a realm, by the subject of their tokens. -/
def userObject (realm subject : String) : Except IDError String :=
  if dnsLabel realm then user (realm ++ ":" ++ subject) else .error (.realm realm)

/-- `GroupObject`: a group of a realm, by its name or its top-level path. -/
def groupObject (realm name : String) : Except IDError String :=
  if dnsLabel realm then
    if trimPrefix name "/" = "" ∨ contains (trimPrefix name "/") "/" then
      .error (.invalid (trimPrefix name "/"))
    else group (realm ++ ":" ++ trimPrefix name "/")
  else .error (.realm realm)

/-- What the groups of a realm begin with. -/
def realmGroups (realm : String) : String := groupType ++ ":" ++ realm ++ "/"

/-- `want`: the groups of a statement that can be mirrored. -/
def want (realm : String) (groups : List String) : List String :=
  (groups.filterMap fun g => (groupObject realm g).toOption).dedup

/-- The person's memberships among the tuples a read answered: those of the realm. -/
def realmMembers (realm : String) (stored : List Tuple) : List Tuple :=
  stored.filter fun t => t.relation = "member" && hasPrefix t.object (realmGroups realm)

/-- The body of the loop of `platformMemberships`: the writes and the deletes that
turn what is stored into what is wanted. -/
def plan (realm user : String) (groups : List String) (stored : List Tuple) :
    List Tuple × List Tuple :=
  let members := realmMembers realm stored
  (((want realm groups).filter fun o => decide (o ∉ members.map Tuple.object)).map
      fun o => ⟨user, "member", o⟩,
    members.filter fun t => decide (t.object ∉ want realm groups))

/-- The groups of a realm that a store has a user in. -/
def mirrored (realm user : String) (s : Store) : List String :=
  (realmMembers realm (s.read ⟨user, "", groupType ++ ":"⟩)).map Tuple.object

/-! ### The plan of a statement -/

variable {s : Store} {o realm user : String} {i : ℕ}

/-- The object of a user is not empty. -/
theorem userObject_ne {subject : String} (h : userObject realm subject = .ok user) : user ≠ "" := by
  unfold userObject at h
  split_ifs at h
  obtain ⟨-, -, rfl⟩ := user_eq_ok_iff.1 h
  exact fun h => absurd (congrArg String.toList h) (by simp)

/-- What the read for a user's groups answers. -/
theorem mem_read_groups (hu : user ≠ "") {t : Tuple} : t ∈ s.read ⟨user, "", groupType ++ ":"⟩ ↔
      t ∈ s ∧ t.user = user ∧ hasPrefix t.object (groupType ++ ":") := by
  have hbare : bareType (groupType ++ ":") := by decide
  rw [Store.mem_read, answers_type_iff hbare]
  simp only [hu, false_or, true_or, true_and, eq_comm]

theorem hasPrefix_group (h : hasPrefix o (realmGroups realm)) : hasPrefix o (groupType ++ ":") := by
  obtain ⟨t, rfl⟩ := hasPrefix_iff.1 h
  exact hasPrefix_iff.2 ⟨realm ++ "/" ++ t, by simp [realmGroups, String.append_assoc]⟩

/-- The mirrored groups of a user are the memberships in the store. -/
theorem mem_mirrored (hu : user ≠ "") : o ∈ mirrored realm user s ↔
      hasPrefix o (realmGroups realm) ∧ (⟨user, "member", o⟩ : Tuple) ∈ s := by
  rw [mirrored, mem_map]
  simp only [realmMembers, mem_filter, mem_read_groups hu, Bool.and_eq_true, decide_eq_true_eq]
  constructor
  · rintro ⟨⟨u, r, o⟩, ⟨⟨ht, rfl, -⟩, rfl, hpre⟩, rfl⟩
    exact ⟨hpre, ht⟩
  · rintro ⟨hpre, ht⟩
    exact ⟨_, ⟨⟨ht, rfl, hasPrefix_group hpre⟩, rfl, hpre⟩, rfl⟩

variable {groups : List String}

/-- What is wanted is a group of the realm. -/
theorem hasPrefix_of_mem_want (h : o ∈ want realm groups) : hasPrefix o (realmGroups realm) := by
  rw [want, mem_dedup, mem_filterMap] at h
  obtain ⟨g, -, hg⟩ := h
  cases ho : groupObject realm g with
  | error e => simp [ho, Except.toOption] at hg
  | ok o' =>
    obtain rfl : o' = o := by simpa [ho, Except.toOption] using hg
    unfold groupObject at ho
    split_ifs at ho with hr hn
    obtain ⟨id, hid, rfl⟩ := group_eq_ok_iff.1 ho
    rw [(encode_eq_ok_iff.1 hid).2.2]
    have hcolon : ':' ∉ realm.toList := not_mem_of_dnsLabel hr (by decide)
    refine hasPrefix_iff.2 ⟨replaceAll (trimPrefix g "/") ':' '/', ?_⟩
    rw [replaceAll_append, replaceAll_append, replaceAll_of_not_mem hcolon,
      show replaceAll ":" ':' '/' = "/" by decide]
    simp [realmGroups, groupType, String.append_assoc]

/-- **The plan of a statement leaves the person in its groups**, carried out in the
store it was read from. -/
theorem leaves_plan (hu : user ≠ "") (ho : hasPrefix o (realmGroups realm)) :
    Leaves (requests (plan realm user groups (s.read ⟨user, "", groupType ++ ":"⟩)).1
      (plan realm user groups (s.read ⟨user, "", groupType ++ ":"⟩)).2) (· ∈ s)
      ⟨user, "member", o⟩ ↔ o ∈ want realm groups := by
  have hheld : o ∈ (realmMembers realm (s.read ⟨user, "", groupType ++ ":"⟩)).map Tuple.object ↔
      (⟨user, "member", o⟩ : Tuple) ∈ s := by
    rw [← mirrored, mem_mirrored hu]
    exact and_iff_right ho
  have hmember : (⟨user, "member", o⟩ : Tuple) ∈
      realmMembers realm (s.read ⟨user, "", groupType ++ ":"⟩) ↔
        (⟨user, "member", o⟩ : Tuple) ∈ s := by
    rw [realmMembers, mem_filter, mem_read_groups hu]
    simp [ho, hasPrefix_group ho]
  rw [leaves_requests]
  have hwritten : (⟨user, "member", o⟩ : Tuple) ∈
      (plan realm user groups (s.read ⟨user, "", groupType ++ ":"⟩)).1 ↔
        o ∈ want realm groups ∧ (⟨user, "member", o⟩ : Tuple) ∉ s := by
    simp only [plan, mem_map (l := filter _ _), mem_filter, decide_eq_true_eq,
      Tuple.mk.injEq, true_and, exists_eq_right, hheld]
  have hdeleted : (⟨user, "member", o⟩ : Tuple) ∈
      (plan realm user groups (s.read ⟨user, "", groupType ++ ":"⟩)).2 ↔
        (⟨user, "member", o⟩ : Tuple) ∈ s ∧ o ∉ want realm groups := by
    simp [plan, hmember]
  tauto

/-! ### Statements that arrive together -/

/-- How far a statement has come: received, with these requests still to send, or
answered with an error.  With none left it has succeeded. -/
inductive Stage where
  | received
  | sending (rs : List Request)
  | failed
deriving DecidableEq

/-- What becomes of a request: it is answered, it does not reach the store, or it takes
effect and the answer is lost. -/
inductive Fate where
  | answered
  | refused
  | lost
deriving DecidableEq

/-- The store, and how far each statement has come. -/
structure Scene where
  store : Store
  stages : List Stage
deriving DecidableEq

/-- A step of the `i`-th statement: it reads the store, or sends its next request. -/
inductive Move where
  | read (i : ℕ) (answered : Bool)
  | send (i : ℕ) (fate : Fate)
deriving DecidableEq

/-- The request of a statement that is not answered ends it. -/
def Scene.send (w : Scene) (i : ℕ) (r : Request) (rs : List Request) : Fate → Scene
  | .answered =>
    match w.store.serveIgnoring r with
    | some s => ⟨s, w.stages.set i (.sending rs)⟩
    | none => ⟨w.store, w.stages.set i .failed⟩
  | .refused => ⟨w.store, w.stages.set i .failed⟩
  | .lost => ⟨(w.store.serveIgnoring r).getD w.store, w.stages.set i .failed⟩

/-- One step of one of the statements `sts`, each the groups of one person. -/
def step (realm user : String) (sts : List (List String)) (w : Scene) : Move → Option Scene
  | .read i answered =>
    match w.stages[i]?, sts[i]? with
    | some .received, some groups =>
      let p := plan realm user groups (w.store.read ⟨user, "", groupType ++ ":"⟩)
      some ⟨w.store, w.stages.set i
        (if answered then .sending (requests p.1 p.2) else .failed)⟩
    | _, _ => none
  | .send i fate =>
    match w.stages[i]? with
    | some (.sending (r :: rs)) => some (w.send i r rs fate)
    | _ => none

/-- Statements that have been received and not yet read for. -/
def Scene.start (s : Store) (sts : List (List String)) : Scene :=
  ⟨s, sts.map fun _ => .received⟩

/-- A statement that has read and not yet sent its last request. -/
def Stage.busy : Stage → Bool
  | .sending (_ :: _) => true
  | _ => false

/-- No statement reads while another has read and not yet sent. -/
def Apart (w : Scene) : Move → Prop
  | .read i _ => ∀ j < w.stages.length, j ≠ i → (w.stages[j]?.any Stage.busy) = false
  | .send _ _ => True

instance (w : Scene) : ∀ m : Move, Decidable (Apart w m)
  | .read _ _ => inferInstanceAs (Decidable (∀ j < w.stages.length, _ → _))
  | .send _ _ => inferInstanceAs (Decidable True)

/-- Every statement has sent all it had to. -/
def Scene.AllSucceeded (w : Scene) : Prop := ∀ st ∈ w.stages, st = .sending []

instance (w : Scene) : Decidable w.AllSucceeded :=
  inferInstanceAs (Decidable (∀ st ∈ w.stages, st = .sending []))

/-- The person is in the groups of one of the statements, no more and no fewer. -/
def OfOne (realm user : String) (sts : List (List String)) (w : Scene) : Prop :=
  ∃ groups ∈ sts, (mirrored realm user w.store).toFinset = (want realm groups).toFinset

instance (realm user : String) (sts : List (List String)) (w : Scene) :
    Decidable (OfOne realm user sts w) :=
  inferInstanceAs (Decidable (∃ groups ∈ sts, _ = _))

/-- The requests left bring the store to the statement's groups. -/
def Brings (realm user : String) (s : Store) (rs : List Request) (groups : List String) : Prop :=
  ∀ o, hasPrefix o (realmGroups realm) = true →
    (Leaves rs (· ∈ s) ⟨user, "member", o⟩ ↔ o ∈ want realm groups)

/-- Unless a statement failed or none has read, the store is on its way to the groups of
one of them, and no other one is busy. -/
def Follows (realm user : String) (sts : List (List String)) (w : Scene) : Prop :=
  (∀ st ∈ w.stages, st ≠ .failed) → (∃ st ∈ w.stages, st ≠ .received) →
    ∃ (i : ℕ) (rs : List Request) (groups : List String),
      w.stages[i]? = some (.sending rs) ∧ sts[i]? = some groups ∧
      Brings realm user w.store rs groups ∧
      ∀ j, j ≠ i → (w.stages[j]?.any Stage.busy) = false

variable {l : List Stage} {st : Stage}

theorem getElem?_set_ne {j : ℕ} (h : j ≠ i) :
    (l.set i st)[j]? = l[j]? := List.getElem?_set_ne (Ne.symm h)

theorem getElem?_set_of {st' : Stage} (h : l[i]? = some st) : (l.set i st')[i]? = some st' := by
  obtain ⟨hlt, -⟩ := List.getElem?_eq_some_iff.1 h
  exact List.getElem?_set_self hlt

/-- Once a statement has failed nothing is claimed. -/
theorem follows_of_failed {sts : List (List String)} {w : Scene} (h : w.stages[i]? = some .failed) :
    Follows realm user sts w :=
  fun hno => absurd rfl (hno _ (mem_of_getElem? h))

variable {realm user : String} {sts : List (List String)} {w w' : Scene}

/-- A read that is alone brings the store on its way. -/
theorem follows_read (hu : user ≠ "") {ok : Bool} (hapart : Apart w (.read i ok))
    (h : step realm user sts w (.read i ok) = some w') : Follows realm user sts w' := by
  rw [step] at h
  split at h
  next groups hst hgroups =>
    cases h
    cases ok with
    | false => exact follows_of_failed (getElem?_set_of hst)
    | true =>
      refine fun _ _ => ⟨i, _, groups, getElem?_set_of hst, hgroups,
        fun o ho => leaves_plan hu ho, fun j hj => ?_⟩
      rw [getElem?_set_ne hj]
      by_cases hlt : j < w.stages.length
      · exact hapart j hlt hj
      · rw [getElem?_eq_none (Nat.le_of_not_lt hlt)]
        rfl
  · cases h

/-- A request keeps it on its way. -/
theorem follows_send (hw : Follows realm user sts w) {fate : Fate}
    (h : step realm user sts w (.send i fate) = some w') : Follows realm user sts w' := by
  rw [step] at h
  split at h
  next r rs hst =>
    cases h
    cases fate with
    | refused | lost => exact follows_of_failed (getElem?_set_of hst)
    | answered =>
      rw [Scene.send]
      cases hs : w.store.serveIgnoring r with
      | none => exact follows_of_failed (getElem?_set_of hst)
      | some s =>
        intro hno _
        have hbefore : ∀ st ∈ w.stages, st ≠ .failed := by
          intro st hmem
          obtain ⟨j, hj⟩ := getElem?_of_mem hmem
          by_cases hij : j = i
          · subst hij
            rw [hst] at hj
            cases hj
            exact Stage.noConfusion
          · exact hno st (mem_of_getElem? (by rwa [getElem?_set_ne hij]))
        obtain ⟨i', rs', groups, hst', hgroups, hbrings, hidle⟩ :=
          hw hbefore ⟨_, mem_of_getElem? hst, Stage.noConfusion⟩
        -- the statement that sends is the one the store follows: no other is busy
        obtain rfl : i = i' := by
          by_contra hne
          have := hidle i hne
          rw [hst] at this
          cases this
        rw [hst] at hst'
        obtain rfl := Stage.sending.inj (Option.some.inj hst')
        refine ⟨i, rs, groups, getElem?_set_of hst, hgroups, fun o ho => ?_, fun j hj => ?_⟩
        · rw [leaves_congr (Store.mem_serveIgnoring hs)]
          exact hbrings o ho
        · rw [getElem?_set_ne hj]
          exact hidle j hj
  · cases h

theorem follows_start (s : Store) : Follows realm user sts (Scene.start s sts) := by
  rintro - ⟨st, hmem, hne⟩
  rw [Scene.start, mem_map] at hmem
  obtain ⟨_, -, rfl⟩ := hmem
  exact absurd rfl hne

theorem length_step {m : Move} (h : step realm user sts w m = some w') :
    w'.stages.length = w.stages.length := by
  cases m with
  | read i _ =>
    rw [step] at h
    split at h
    · cases h
      exact length_set
    · cases h
  | send i fate =>
    rw [step] at h
    split at h
    · cases h
      cases fate with
      | answered =>
        rw [Scene.send]
        split
        · exact length_set
        · exact length_set
      | refused => exact length_set
      | lost => exact length_set
    · cases h

/-- **The person is in the groups of one statement.**  Any number of statements about one
person, interleaved in any way and failing anywhere, as long as each reads while no other
one is between its read and its last request: once all have succeeded. -/
theorem groups_of_one {realm subject user : String} (hu : userObject realm subject = .ok user)
    {s : Store} {sts : List (List String)} (hsts : sts ≠ []) {ms : List Move} {w : Scene}
    (hm : Runs.Meets (step realm user sts) Apart (Scene.start s sts) ms)
    (hr : Runs.run (step realm user sts) (Scene.start s sts) ms = some w)
    (hall : w.AllSucceeded) : OfOne realm user sts w := by
  have hstep : ∀ w m w', Follows realm user sts w ∧ w.stages.length = sts.length → Apart w m →
      step realm user sts w m = some w' →
      Follows realm user sts w' ∧ w'.stages.length = sts.length := by
    intro w m w' hw hapart h
    refine ⟨?_, (length_step h).trans hw.2⟩
    cases m with
    | read i ok => exact follows_read (userObject_ne hu) hapart h
    | send i _ => exact follows_send hw.1 h
  obtain ⟨hfollows, hlen⟩ := Runs.invariant hstep ⟨follows_start s, by simp [Scene.start]⟩ hm hr
  obtain ⟨st, hst⟩ : ∃ st, st ∈ w.stages := by
    refine exists_mem_of_ne_nil _ fun hnil => hsts ?_
    rwa [hnil, length_nil, eq_comm, length_eq_zero_iff] at hlen
  have hdone := hall st hst
  obtain ⟨i, rs, groups, hi, hgroups, hbrings, -⟩ :=
    hfollows fun st hst => by rw [hall st hst]; exact Stage.noConfusion
      ⟨st, hst, by rw [hdone]; exact Stage.noConfusion⟩
  obtain rfl : rs = [] := Stage.sending.inj (hall _ (mem_of_getElem? hi))
  refine ⟨groups, mem_of_getElem? hgroups, Finset.ext fun o => ?_⟩
  rw [mem_toFinset, mem_toFinset, mem_mirrored (userObject_ne hu)]
  constructor
  · rintro ⟨ho, hmem⟩
    exact (hbrings o ho).1 hmem
  · intro ho
    have hpre := hasPrefix_of_mem_want ho
    exact ⟨hpre, (hbrings o hpre).2 ho⟩

/-- A person is said to be in the staff, and then on the board. -/
def staffThenBoard : List (List String) := [["staff"], ["board"]]

theorem board_of_one : ∃ w,
    Runs.run (step "acme" "user:acme/0b6d" staffThenBoard) (Scene.start .empty staffThenBoard)
      [.read 0 true, .send 0 .answered, .read 1 true, .send 1 .answered, .send 1 .answered] =
        some w ∧
    OfOne "acme" "user:acme/0b6d" staffThenBoard w := by
  have hr : Runs.run (step "acme" "user:acme/0b6d" staffThenBoard) (.start .empty staffThenBoard)
      [.read 0 true, .send 0 .answered, .read 1 true, .send 1 .answered, .send 1 .answered] =
        some _ := (Option.some_get (by decide +kernel)).symm
  exact ⟨_, hr, groups_of_one (show userObject "acme" "0b6d" = .ok "user:acme/0b6d" by decide +kernel)
    (by decide) (by decide +kernel) hr (by decide +kernel)⟩

/-- **A person in the groups of both**: the two statements read before either wrote. -/
theorem groups_of_both : ∃ w,
    Runs.run (step "acme" "user:acme/0b6d" staffThenBoard) (Scene.start .empty staffThenBoard)
      [.read 0 true, .read 1 true, .send 0 .answered, .send 1 .answered] = some w ∧
    w.AllSucceeded ∧
    mirrored "acme" "user:acme/0b6d" w.store = ["group:acme/staff", "group:acme/board"] ∧
    ¬OfOne "acme" "user:acme/0b6d" staffThenBoard w := by
  have hr : Runs.run (step "acme" "user:acme/0b6d" staffThenBoard) (.start .empty staffThenBoard)
      [.read 0 true, .read 1 true, .send 0 .answered, .send 1 .answered] = some _ :=
    (Option.some_get (by decide +kernel)).symm
  exact ⟨_, hr, by decide +kernel, by decide +kernel, by decide +kernel⟩

end Gentian.Arbiter
