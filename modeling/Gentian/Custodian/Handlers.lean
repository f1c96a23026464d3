/-
# The custodian and the questions it asks

`viewOf` (`internal/custodian/authorize.go`), `Catalogue.List`, `Get` (`catalogue.go`),
`handleList`, `handleGet`, `handleSet`, `checkFields` (`http.go`) and `handleListRepositories`
(`repositories.go`).  The answers of the authorization store are remembered for a request, and the
first question that fails is kept beside them.

A request is answered as the store would have it exactly when every failure is looked at
(`unanswered_is_unavailable`): `handleSet` looks at it before its last question and refuses a
caller whom the store did not answer about, and `handleListRepositories` never looks at it
(`unanswered_is_answered`).
-/

import Gentian.Base.GoStrings

namespace Gentian.Custodian

open GoStrings List

/-! ### The store -/

/-- What a caller may do with a credential. -/
inductive Relation where
  | canReadCredential
  | canWriteCredential
deriving DecidableEq

/-- What a right is held on. -/
inductive Object where
  | cluster (name : String)
  | tenant (name : String)
deriving DecidableEq

/-- `Principal`: the caller, by its two names in the store, and the tenant it signed in at. -/
structure Principal where
  user : String
  holder : String
  tenant : String
deriving DecidableEq

/-- A field of a credential, with the length it asks for. -/
structure Field where
  key : String
  minLength : ℕ
deriving DecidableEq

/-- A `CredentialRequirement`, as far as it is answered by. -/
structure Requirement where
  name : String
  scope : String
  tenant : String
  vaultPath : String
  validator : String
  fields : List Field
deriving DecidableEq

/-- A repository of the cluster's, or of a tenant's. -/
structure Repository where
  name : String
  tenant : String
deriving DecidableEq

/-- A repository as a caller sees it. -/
structure RepositoryView where
  repository : Repository
  owned : Bool
deriving DecidableEq

/-- What the endpoint of a credential says of it. -/
inductive Validated where
  | done
  | noEndpoint
  | failed

/-- What the vault answers. -/
inductive BaoAnswer where
  | stored
  | login
  | upstream
  | refused

/-- What the custodian asks: the store, the cluster, the endpoint of a credential and the vault. -/
structure Server where
  cluster : String
  check : String → Relation → Object → Except String Bool
  requirements : Except String (List Requirement)
  repositories : Except String (List Repository)
  validate : Requirement → List (String × String) → Validated
  write : String → BaoAnswer

/-- `GraphAuthorizer.Object`. -/
def Server.object (s : Server) (scope tenant : String) : Option Object :=
  if scope = "cluster" then if s.cluster ≠ "" then some (.cluster s.cluster) else none
  else if scope = "tenant" then if tenant ≠ "" then some (.tenant tenant) else none
  else none

/-- The store about a caller: as the user, or else as the holder. -/
def Server.ask (s : Server) (p : Principal) (rel : Relation) (o : Object) : Except String Bool :=
  match s.check p.user rel o with
  | .ok false => if p.holder ≠ "" then s.check p.holder rel o else .ok false
  | r => r

/-! ### A request -/

/-- What is remembered for a request. -/
structure Asked where
  known : List ((Relation × Object) × Bool)
  failed : Option String

/-- The closure `check` of `viewOf`. -/
def check (s : Server) (p : Principal) (rel : Relation) (scope tenant : String) (a : Asked) :
    Bool × Asked :=
  match s.object scope tenant with
  | none => (false, a)
  | some o =>
    match a.known.lookup (rel, o) with
    | some answer => (answer, a)
    | none =>
      match s.ask p rel o with
      | .error e => (false, { a with failed := some (a.failed.getD e) })
      | .ok allowed => (allowed, { a with known := ((rel, o), allowed) :: a.known })

/-- `viewOf`: the `Tenant` of the `Viewer`, or `none` when the store did not answer. -/
def viewOf (s : Server) (p : Principal) : Option (String × Asked) :=
  let (_, a) := check s p .canWriteCredential "cluster" "" ⟨[], none⟩
  let (own, a) :=
    if p.tenant ≠ "" then check s p .canWriteCredential "tenant" p.tenant a else (false, a)
  if a.failed.isSome then none else some (if own then p.tenant else "", a)

/-- A loop that asks about each item and keeps what becomes of it. -/
def sift {α β : Type} (q : α → Asked → Option β × Asked) : List α → Asked → List β × Asked
  | [], a => ([], a)
  | x :: xs, a =>
    let (kept, a) := q x a
    let (rest, a) := sift q xs a
    (kept.toList ++ rest, a)

/-- Requirements, in the order of their names. -/
def byName (rs : List Requirement) : List Requirement := rs.insertionSort fun r t => r.name ≤ t.name

/-- The statuses of a response. -/
inductive Status where
  | ok
  | badRequest
  | unauthorized
  | forbidden
  | notFound
  | unprocessable
  | internalError
  | badGateway
  | unavailable
deriving DecidableEq

/-- What a response holds. -/
inductive Body where
  | message
  | credentials (rs : List Requirement)
  | credential (r : Requirement)
  | stored (r : Requirement)
  | repositories (vs : List RepositoryView)
deriving DecidableEq

/-- A response, and what was written to the vault for it. -/
structure Response where
  status : Status
  body : Body
  written : Option (String × List (String × String))
deriving DecidableEq

/-- A response that only says why not. -/
def refuse (status : Status) : Response := ⟨status, .message, none⟩

/-- `Catalogue.List`, or the status of its error. -/
def list (s : Server) (p : Principal) (a : Asked) : Except Status (List Requirement × Asked) :=
  match s.requirements with
  | .error _ => .error .badGateway
  | .ok reqs =>
    let (out, a) := sift (fun r a =>
      let (see, a) := check s p .canReadCredential r.scope r.tenant a
      (if see then some r else none, a)) reqs a
    if a.failed.isSome then .error .unavailable else .ok (byName out, a)

/-- `Catalogue.Get`. -/
def get (s : Server) (p : Principal) (name : String) (a : Asked) :
    Except Status (Requirement × Asked) :=
  match list s p a with
  | .error status => .error status
  | .ok (all, a) =>
    match all.find? fun r => r.name = name with
    | some r => .ok (r, a)
    | none => .error .notFound

/-- The errors of `checkFields`, `none` when no fields are supplied. -/
def checkFields (r : Requirement) (got : List (String × String)) :
    Option (List (String × String)) :=
  if got = [] then none
  else some
    (((got.map Prod.fst).filter fun k => k ∉ r.fields.map Field.key).map
        (fun k => (k, "unknown field for requirement \"" ++ r.name ++ "\"")) ++
      r.fields.filterMap fun f =>
        match got.lookup f.key with
        | none => some (f.key, "required")
        | some v =>
          if trimSpace v ≠ v then some (f.key, "has leading or trailing whitespace")
          else if v.utf8ByteSize < f.minLength then
            some (f.key, "must be at least " ++ toString f.minLength ++ " characters")
          else none)

/-- What `handleSet` does once the caller may set the credential. -/
def store (s : Server) (r : Requirement) : Option (List (String × String)) → Response
  | none => refuse .badRequest
  | some fields =>
    if checkFields r fields ≠ some [] then refuse .badRequest
    else match if r.validator ≠ "" ∧ r.validator ≠ "noop" then s.validate r fields else .done with
      | .failed => refuse .unprocessable
      | .done | .noEndpoint =>
        match s.write r.vaultPath with
        | .stored => ⟨.ok, .stored r, some (r.vaultPath, fields)⟩
        | .login | .upstream => refuse .badGateway
        | .refused => refuse .forbidden

/-- One repository of `listRepositories`, for a viewer. -/
def repositoryView (s : Server) (p : Principal) (tenant : String) (r : Repository) (a : Asked) :
    Option RepositoryView × Asked :=
  let scope := if r.tenant = "" then "cluster" else "tenant"
  let (see, a) := check s p .canReadCredential scope r.tenant a
  if !see ∧ (r.tenant ≠ "" ∨ tenant = "") then (none, a)
  else
    let (owned, a) := check s p .canWriteCredential scope r.tenant a
    (some ⟨r, owned⟩, a)

/-- A request of a verified caller; the fields of one that sets are `none` when its body is
malformed. -/
inductive Request where
  | list
  | get (name : String)
  | set (name : String) (fields : Option (List (String × String)))
  | listRepositories

/-- A request that asks about every requirement. -/
def Request.asksAll : Request → Bool
  | .listRepositories => false
  | _ => true

/-- `handleList`, `handleGet`, `handleSet` and `handleListRepositories`. -/
def handle (s : Server) (p : Principal) : Request → Response
  | .list =>
    match viewOf s p with
    | none => refuse .unavailable
    | some (_, a) =>
      match list s p a with
      | .error status => refuse status
      | .ok (items, _) => ⟨.ok, .credentials items, none⟩
  | .get name =>
    match viewOf s p with
    | none => refuse .unavailable
    | some (_, a) =>
      match get s p name a with
      | .error status => refuse status
      | .ok (r, _) => ⟨.ok, .credential r, none⟩
  | .set name fields =>
    match viewOf s p with
    | none => refuse .unavailable
    | some (_, a) =>
      match get s p name a with
      | .error status => refuse status
      | .ok (r, a) =>
        if (check s p .canWriteCredential r.scope r.tenant a).1 then store s r fields
        else refuse .forbidden
  | .listRepositories =>
    match viewOf s p with
    | none => refuse .unauthorized
    | some (tenant, a) =>
      match s.repositories with
      | .error _ => refuse .internalError
      | .ok repos => ⟨.ok, .repositories ((sift (repositoryView s p tenant) repos a).1.insertionSort
          fun x y => x.repository.name ≤ y.repository.name), none⟩

/-! ### What the store answers -/

/-- The store about a scope; nobody is asked about a scope that has no object. -/
def Server.verdict (s : Server) (p : Principal) (rel : Relation) (scope tenant : String) :
    Except String Bool :=
  match s.object scope tenant with
  | none => .ok false
  | some o => s.ask p rel o

/-- The store was asked and said yes. -/
def allowed (v : Except String Bool) : Bool := v = .ok true

/-- The store was asked and did not answer. -/
def unanswered : Except String Bool → Bool
  | .error _ => true
  | .ok _ => false

/-- The verdict on reading a requirement. -/
def Server.reads (s : Server) (p : Principal) (r : Requirement) : Except String Bool :=
  s.verdict p .canReadCredential r.scope r.tenant

/-- The requirements a caller may see. -/
def Server.visible (s : Server) (p : Principal) (reqs : List Requirement) : List Requirement :=
  reqs.filterMap fun r => if allowed (s.reads p r) then some r else none

/-- The requirement of a name that the caller may see. -/
def Server.named (s : Server) (p : Principal) (reqs : List Requirement) (name : String) :
    Option Requirement :=
  (byName (s.visible p reqs)).find? fun r => r.name = name

/-- The verdict on reading a repository's credential. -/
def Server.readsRepository (s : Server) (p : Principal) (r : Repository) : Except String Bool :=
  s.verdict p .canReadCredential (if r.tenant = "" then "cluster" else "tenant") r.tenant

/-- The verdicts that come before all others. -/
def Server.first (s : Server) (p : Principal) : List (Except String Bool) :=
  s.verdict p .canWriteCredential "cluster" "" ::
    if p.tenant ≠ "" then [s.verdict p .canWriteCredential "tenant" p.tenant] else []

/-- The checks that decide a request. -/
def Server.deciding (s : Server) (p : Principal) (reqs : List Requirement)
    (repos : List Repository) : Request → List (Except String Bool)
  | .list | .get _ => s.first p ++ reqs.map (s.reads p)
  | .set name _ => s.first p ++ reqs.map (s.reads p) ++ (s.named p reqs name).toList.map fun r =>
      s.verdict p .canWriteCredential r.scope r.tenant
  | .listRepositories => s.first p ++ repos.map (s.readsRepository p)

/-- A check that fails is looked at: it is one of those before the last look at the failure, or
those after it are answered. -/
def Server.lookedAt (s : Server) (p : Principal) (reqs : List Requirement)
    (repos : List Repository) : Request → Prop
  | .list | .get _ => True
  | .set name _ => (s.first p ++ reqs.map (s.reads p)).any unanswered ∨
      ∀ r ∈ s.named p reqs name,
        unanswered (s.verdict p .canWriteCredential r.scope r.tenant) = false
  | .listRepositories => (s.deciding p reqs repos .listRepositories).any unanswered = false

/-- What is remembered is what the store answers. -/
def Asked.Right (s : Server) (p : Principal) (a : Asked) : Prop :=
  ∀ rel o answer, a.known.lookup (rel, o) = some answer → s.ask p rel o = .ok answer

/-- A question asked of the request's memory: its answer, and whether it failed. -/
structure Answers {β : Type} (s : Server) (p : Principal) (a : Asked) (r : β × Asked) (answer : β)
    (bad : Bool) : Prop where
  right : r.2.Right s p
  answer : r.1 = answer
  failed : r.2.failed.isSome = (a.failed.isSome || bad)

/-- The memory of a request answers as the store does. -/
theorem check_answers {s : Server} {p : Principal} {a : Asked} (h : a.Right s p)
    (rel : Relation) (scope tenant : String) :
    Answers s p a (check s p rel scope tenant a) (allowed (s.verdict p rel scope tenant))
      (unanswered (s.verdict p rel scope tenant)) := by
  unfold check Server.verdict
  split
  · exact ⟨h, rfl, by simp [unanswered]⟩
  next o _ =>
    split
    next answer hknown =>
      rw [h rel o answer hknown]
      exact ⟨h, by cases answer <;> rfl, by simp [unanswered]⟩
    · split
      next e he =>
        rw [he]
        exact ⟨h, rfl, by simp [unanswered]⟩
      next answer he =>
        rw [he]
        refine ⟨fun rel' o' answer' hlook => ?_, by cases answer <;> rfl, by simp [unanswered]⟩
        by_cases hsame : (rel', o') = (rel, o)
        · cases hsame
          rw [lookup_cons_self] at hlook
          cases hlook
          exact he
        · rw [lookup_cons, beq_false_of_ne hsame] at hlook
          exact h rel' o' answer' hlook

/-- A loop over the memory answers about each item as the store does. -/
theorem sift_answers {s : Server} {p : Principal} {a : Asked} {α β : Type}
    {q : α → Asked → Option β × Asked} {f : α → Option β} {b : α → Bool}
    (hq : ∀ x a, a.Right s p → Answers s p a (q x a) (f x) (b x)) (h : a.Right s p)
    (xs : List α) : Answers s p a (sift q xs a) (xs.filterMap f) (xs.any b) := by
  induction xs generalizing a with
  | nil => exact ⟨h, rfl, by simp [sift]⟩
  | cons x xs ih =>
    obtain ⟨hright, hanswer, hfailed⟩ := hq x a h
    obtain ⟨hright', hanswer', hfailed'⟩ := ih hright
    refine ⟨hright', ?_, ?_⟩
    · simp only [sift, hanswer, hanswer', filterMap_cons]
      cases f x <;> rfl
    · rw [sift, hfailed', hfailed, any_cons, Bool.or_assoc]

/-- The tenant a caller acts for. -/
def Server.standing (s : Server) (p : Principal) : String :=
  if p.tenant ≠ "" && allowed (s.verdict p .canWriteCredential "tenant" p.tenant) then p.tenant
  else ""

/-- The first questions are all answered, or the request ends with them. -/
theorem viewOf_cases (s : Server) (p : Principal) :
    ((s.first p).any unanswered ∧ viewOf s p = none) ∨
    ((s.first p).any unanswered = false ∧ ∃ a, viewOf s p = some (s.standing p, a) ∧
      a.Right s p ∧ a.failed = none) := by
  have h0 : Asked.Right s p ⟨[], none⟩ := nofun
  have h1 := check_answers h0 .canWriteCredential "cluster" ""
  set a1 := (check s p .canWriteCredential "cluster" "" ⟨[], none⟩).2 with ha1
  have hown : Answers s p a1
      (if p.tenant ≠ "" then check s p .canWriteCredential "tenant" p.tenant a1 else (false, a1))
      (p.tenant ≠ "" && allowed (s.verdict p .canWriteCredential "tenant" p.tenant))
      (p.tenant ≠ "" && unanswered (s.verdict p .canWriteCredential "tenant" p.tenant)) := by
    by_cases htenant : p.tenant = ""
    · exact ⟨by simpa [htenant] using h1.right, by simp [htenant], by simp [htenant]⟩
    · simpa [htenant] using check_answers h1.right .canWriteCredential "tenant" p.tenant
  have hfailed : _ = (s.first p).any unanswered := hown.failed.trans (by
    rw [h1.failed]
    by_cases htenant : p.tenant = "" <;> simp [Server.first, htenant])
  unfold viewOf Server.standing
  simp only [← ha1, hown.answer, hfailed]
  cases hbad : (s.first p).any unanswered with
  | true => exact .inl ⟨rfl, rfl⟩
  | false => exact .inr ⟨rfl, _, rfl, hown.right, by simpa [hbad] using hfailed⟩

/-- What a caller sees. -/
theorem mem_visible {s : Server} {p : Principal} {reqs : List Requirement} {r : Requirement} :
    r ∈ byName (s.visible p reqs) ↔ r ∈ reqs ∧ allowed (s.reads p r) := by
  simp [byName, Server.visible]

/-- `List` fails when a question about a requirement does, and else lists what may be seen. -/
theorem list_eq {s : Server} {p : Principal} {a : Asked} {reqs : List Requirement}
    (hreqs : s.requirements = .ok reqs) (h : a.Right s p) (hnone : a.failed = none) :
    ∃ a', a'.Right s p ∧ list s p a = if (reqs.map (s.reads p)).any unanswered
      then .error .unavailable else .ok (byName (s.visible p reqs), a') := by
  have hq : ∀ r a, Asked.Right s p a → Answers s p a
      ((fun r a => let (see, a) := check s p .canReadCredential r.scope r.tenant a
        (if see then some r else none, a)) r a)
      (if allowed (s.reads p r) then some r else none) (unanswered (s.reads p r)) := by
    intro r a h
    have hc := check_answers h .canReadCredential r.scope r.tenant
    exact ⟨hc.right, by simp only [hc.answer]; rfl, hc.failed⟩
  have hs := sift_answers hq h reqs
  refine ⟨_, hs.right, ?_⟩
  unfold list
  simp only [hreqs, hs.answer, hs.failed, hnone, any_map]
  rfl

/-- What is written is at the requirement's path, under keys that it declares. -/
theorem store_written {s : Server} {r : Requirement} {path : String}
    {fields : Option (List (String × String))} {kvs : List (String × String)}
    (h : (store s r fields).written = some (path, kvs)) :
    path = r.vaultPath ∧ ∀ kv ∈ kvs, kv.1 ∈ r.fields.map Field.key := by
  unfold store at h
  split at h
  · cases h
  next got =>
    by_cases hcheck : checkFields r got ≠ some []
    · rw [if_pos hcheck] at h
      cases h
    · have hwritten : path = r.vaultPath ∧ kvs = got := by
        repeat' split at h
        all_goals cases h
        all_goals exact ⟨rfl, rfl⟩
      refine ⟨hwritten.1, fun kv hkv => ?_⟩
      rw [hwritten.2] at hkv
      by_contra hno
      rw [not_not, checkFields, if_neg (ne_nil_of_mem hkv), Option.some.injEq,
        append_eq_nil_iff, map_eq_nil_iff, filter_eq_nil_iff] at hcheck
      exact hcheck.1 kv.1 (mem_map_of_mem hkv) (by simpa using hno)

/-- A repository as a caller is shown it, or not. -/
def Server.shown (s : Server) (p : Principal) (r : Repository) : Option RepositoryView :=
  if !allowed (s.readsRepository p r) ∧ (r.tenant ≠ "" ∨ s.standing p = "") then none
  else some ⟨r, allowed (s.verdict p .canWriteCredential
    (if r.tenant = "" then "cluster" else "tenant") r.tenant)⟩

/-- The repositories that are shown are those the caller may see. -/
theorem sift_repositoryView {s : Server} {p : Principal} {a : Asked} (h : a.Right s p)
    (repos : List Repository) :
    (sift (repositoryView s p (s.standing p)) repos a).1 = repos.filterMap (s.shown p) := by
  refine (sift_answers (b := fun r => unanswered (s.readsRepository p r) ||
    (s.shown p r).isSome && unanswered (s.verdict p .canWriteCredential
      (if r.tenant = "" then "cluster" else "tenant") r.tenant)) (fun r a h => ?_) h repos).answer
  unfold repositoryView Server.shown Server.readsRepository
  generalize (if r.tenant = "" then "cluster" else "tenant") = scope
  have hread := check_answers h .canReadCredential scope r.tenant
  have hwrite := check_answers hread.right .canWriteCredential scope r.tenant
  simp only [hread.answer]
  split_ifs
  · exact ⟨hread.right, rfl, by simp [hread.failed]⟩
  · exact ⟨hwrite.right, by rw [← hwrite.answer], by
      simp [hwrite.failed, hread.failed, Bool.or_assoc]⟩

/-! ### The requests -/

/-- What a request is answered when the store answers what decides it. -/
def Server.answer (s : Server) (p : Principal) (reqs : List Requirement)
    (repos : List Repository) : Request → Response
  | .list => ⟨.ok, .credentials (byName (s.visible p reqs)), none⟩
  | .get name =>
    match s.named p reqs name with
    | some r => ⟨.ok, .credential r, none⟩
    | none => refuse .notFound
  | .set name fields =>
    match s.named p reqs name with
    | some r =>
      if allowed (s.verdict p .canWriteCredential r.scope r.tenant) then store s r fields
      else refuse .forbidden
    | none => refuse .notFound
  | .listRepositories => ⟨.ok, .repositories ((repos.filterMap (s.shown p)).insertionSort
      fun x y => x.repository.name ≤ y.repository.name), none⟩

/-- What a request is answered when its first questions are not. -/
def Server.unviewed : Request → Response
  | .listRepositories => refuse .unauthorized
  | _ => refuse .unavailable

/-- **What each request is answered**: the failure is looked at after the first questions and, where
there are requirements, after those about them. -/
theorem handle_eq {s : Server} {p : Principal} {reqs : List Requirement} {repos : List Repository}
    (hreqs : s.requirements = .ok reqs) (hrepos : s.repositories = .ok repos) (request : Request) :
    handle s p request =
      if (s.first p).any unanswered then Server.unviewed request
      else if request.asksAll ∧ (reqs.map (s.reads p)).any unanswered then refuse .unavailable
      else s.answer p reqs repos request := by
  rcases viewOf_cases s p with ⟨hbad, hview⟩ | ⟨hgood, a, hview, hright, hnone⟩
  · rw [if_pos hbad]
    cases request <;> simp [handle, hview, Server.unviewed]
  · obtain ⟨a', hright', hlist⟩ := list_eq hreqs hright hnone
    have hget : ∀ name, get s p name a = if (reqs.map (s.reads p)).any unanswered
        then .error .unavailable else match s.named p reqs name with
          | some r => .ok (r, a')
          | none => .error .notFound := by
      intro name
      rw [get, hlist]
      split_ifs <;> rfl
    rw [hgood, if_neg Bool.false_ne_true]
    cases request with
    | list =>
      simp only [handle, hview, hlist, Request.asksAll, true_and]
      split_ifs <;> rfl
    | get name =>
      simp only [handle, hview, hget, Request.asksAll, true_and, Server.answer]
      split_ifs
      · rfl
      · cases s.named p reqs name <;> rfl
    | set name fields =>
      simp only [handle, hview, hget, Request.asksAll, true_and, Server.answer]
      split_ifs
      · rfl
      · cases s.named p reqs name with
        | none => rfl
        | some r => simp only [(check_answers hright' _ _ _).answer]
    | listRepositories =>
      simp only [handle, hview, hrepos, sift_repositoryView hright, Request.asksAll]
      rfl

/-- A request whose failed checks are looked at is unavailable when one failed. -/
theorem handle_of_lookedAt {s : Server} {p : Principal} {reqs : List Requirement}
    {repos : List Repository} (hreqs : s.requirements = .ok reqs)
    (hrepos : s.repositories = .ok repos) {request : Request}
    (hlook : s.lookedAt p reqs repos request) :
    handle s p request = if (s.deciding p reqs repos request).any unanswered
      then refuse .unavailable else s.answer p reqs repos request := by
  rw [handle_eq hreqs hrepos]
  cases request with
  | list | get name =>
    simp only [Server.deciding, any_append, Request.asksAll, true_and, Server.unviewed]
    cases (s.first p).any unanswered <;> cases (reqs.map (s.reads p)).any unanswered <;> rfl
  | set name fields =>
    simp only [Server.lookedAt, any_append] at hlook
    have hwrite : (s.first p).any unanswered = false →
        (reqs.map (s.reads p)).any unanswered = false →
        ((s.named p reqs name).toList.map fun r =>
          s.verdict p .canWriteCredential r.scope r.tenant).any unanswered = false := by
      intro hfirst hreads
      rw [hfirst, hreads] at hlook
      simpa [any_map, any_eq_false, Option.mem_toList] using hlook
    simp only [Server.deciding, any_append, Request.asksAll, true_and, Server.unviewed]
    cases hfirst : (s.first p).any unanswered with
    | true => rfl
    | false => cases hreads : (reqs.map (s.reads p)).any unanswered with
      | true => rfl
      | false => simp only [hwrite hfirst hreads]; rfl
  | listRepositories =>
    have hfirst : (s.first p).any unanswered = false := by
      simp only [Server.lookedAt, Server.deciding, any_append, Bool.or_eq_false_iff] at hlook
      exact hlook.1
    rw [hlook, hfirst]
    simp [Request.asksAll]

/-- **A failed check that is not looked at is answered for**: the request is not unavailable. -/
theorem status_of_not_lookedAt {s : Server} {p : Principal} {reqs : List Requirement}
    {repos : List Repository} (hreqs : s.requirements = .ok reqs)
    (hrepos : s.repositories = .ok repos) {request : Request}
    (hlook : ¬s.lookedAt p reqs repos request) :
    (s.deciding p reqs repos request).any unanswered = true ∧
      (handle s p request).status ≠ .unavailable := by
  rw [handle_eq hreqs hrepos]
  cases request with
  | list | get name => exact absurd trivial hlook
  | set name fields =>
    simp only [Server.lookedAt, not_or, not_forall, Bool.not_eq_false, any_append,
      Bool.or_eq_true] at hlook
    obtain ⟨hseen, r, hr, hwrite⟩ := hlook
    rw [Option.mem_def] at hr
    refine ⟨by simp [Server.deciding, hr, hwrite], ?_⟩
    have hrefused : allowed (s.verdict p .canWriteCredential r.scope r.tenant) = false := by
      cases hv : s.verdict p .canWriteCredential r.scope r.tenant with
      | error e => rfl
      | ok answer => rw [hv] at hwrite; cases hwrite
    rw [if_neg hseen.1, if_neg fun h => hseen.2 h.2]
    simp [Server.answer, hr, hrefused, refuse]
  | listRepositories =>
    refine ⟨by simpa [Server.lookedAt] using hlook, ?_⟩
    split_ifs <;> simp_all [Server.unviewed, refuse, Request.asksAll, Server.answer]

/-- A requirement that is found by name may be seen. -/
theorem mem_of_named {s : Server} {p : Principal} {reqs : List Requirement} {r : Requirement}
    {name : String} (h : s.named p reqs name = some r) :
    r ∈ reqs ∧ r.name = name ∧ allowed (s.reads p r) := by
  obtain ⟨hmem, hsee⟩ := mem_visible.1 (mem_of_find?_eq_some h)
  exact ⟨hmem, by simpa using find?_some h, hsee⟩

/-- What a caller is shown. -/
def Server.Shows (s : Server) (p : Principal) (reqs : List Requirement) (repos : List Repository)
    (body : Body) : Request → Prop
  | .list => ∃ rs, body = .credentials rs ∧ ∀ r, r ∈ rs ↔ r ∈ reqs ∧ allowed (s.reads p r) = true
  | .get name =>
    (∀ r, body = .credential r → r ∈ reqs ∧ r.name = name ∧ allowed (s.reads p r) = true) ∧
    ((∃ r ∈ reqs, r.name = name ∧ allowed (s.reads p r) = true) → ∃ r, body = .credential r)
  | .set _ _ => True
  | .listRepositories => ∃ vs, body = .repositories vs ∧ ∀ r, (∃ v ∈ vs, v.repository = r) ↔
      r ∈ repos ∧ (allowed (s.readsRepository p r) = true ∨ r.tenant = "" ∧ s.standing p ≠ "")

/-- **No answer shows more than the caller may see.** -/
theorem answer_shows {s : Server} {p : Principal} {reqs : List Requirement}
    {repos : List Repository} (request : Request) :
    s.Shows p reqs repos (s.answer p reqs repos request).body request := by
  cases request with
  | list => exact ⟨_, rfl, fun r => mem_visible⟩
  | get name =>
    rw [Server.answer]
    split
    next r hnamed =>
      refine ⟨fun t h => ?_, fun _ => ⟨r, rfl⟩⟩
      cases h
      exact mem_of_named hnamed
    next hnamed =>
      refine ⟨nofun, fun ⟨r, hr, hname, hsee⟩ => ?_⟩
      exact absurd hname (by simpa using find?_eq_none.1 hnamed r (mem_visible.2 ⟨hr, hsee⟩))
  | set name _ => trivial
  | listRepositories =>
    refine ⟨_, rfl, fun r => ?_⟩
    simp only [mem_insertionSort, mem_filterMap]
    constructor
    · rintro ⟨v, ⟨t, ht, hv⟩, rfl⟩
      obtain ⟨hshown, hv⟩ := Option.ite_none_left_eq_some.1 hv
      cases hv
      exact ⟨ht, by grind⟩
    · rintro ⟨hr, hshown⟩
      exact ⟨_, ⟨r, hr, if_neg (by grind)⟩, rfl⟩

/-- What an answer writes is of a requirement that the caller may read and write. -/
theorem answer_written {s : Server} {p : Principal} {reqs : List Requirement}
    {repos : List Repository} {request : Request} {path : String} {fields : List (String × String)}
    (h : (s.answer p reqs repos request).written = some (path, fields)) :
    ∃ r ∈ reqs, r.vaultPath = path ∧ allowed (s.reads p r) ∧
      allowed (s.verdict p .canWriteCredential r.scope r.tenant) ∧
      ∀ kv ∈ fields, kv.1 ∈ r.fields.map Field.key := by
  cases request with
  | set name _ =>
    rw [Server.answer] at h
    split at h
    next r hnamed =>
      split_ifs at h with hwrite
      · obtain ⟨rfl, hkeys⟩ := store_written h
        obtain ⟨hr, -, hsee⟩ := mem_of_named hnamed
        exact ⟨r, hr, rfl, hsee, hwrite, hkeys⟩
      · cases h
    · cases h
  | get name =>
    rw [Server.answer] at h
    split at h <;> cases h
  | list | listRepositories => cases h

/-- The property that is claimed of a request: it is unavailable, with nothing written, when a check
that decides it failed; otherwise the caller is shown exactly what the checks allow; and what is
written is of a requirement that the caller may read and write, under keys it declares. -/
structure Server.Faithful (s : Server) (p : Principal) (reqs : List Requirement)
    (repos : List Repository) (request : Request) : Prop where
  unavailable : (s.deciding p reqs repos request).any unanswered = true →
    (handle s p request).status = .unavailable ∧ (handle s p request).written = none
  shown : (s.deciding p reqs repos request).any unanswered = false →
    s.Shows p reqs repos (handle s p request).body request
  written : ∀ path fields, (handle s p request).written = some (path, fields) →
    ∃ r ∈ reqs, r.vaultPath = path ∧ allowed (s.reads p r) = true ∧
      allowed (s.verdict p .canWriteCredential r.scope r.tenant) = true ∧
      ∀ kv ∈ fields, kv.1 ∈ r.fields.map Field.key

/-- **The custodian answers for no question that the store did not answer exactly when a check that
failed is looked at.** -/
theorem unanswered_is_unavailable {s : Server} {p : Principal} {reqs : List Requirement}
    {repos : List Repository} (hreqs : s.requirements = .ok reqs)
    (hrepos : s.repositories = .ok repos) (request : Request) :
    s.Faithful p reqs repos request ↔ s.lookedAt p reqs repos request := by
  constructor
  · intro h
    by_contra hlook
    obtain ⟨hbad, hstatus⟩ := status_of_not_lookedAt hreqs hrepos hlook
    exact hstatus (h.unavailable hbad).1
  · intro hlook
    have heq := handle_of_lookedAt hreqs hrepos hlook
    cases hbad : (s.deciding p reqs repos request).any unanswered with
    | true =>
      rw [hbad, if_pos rfl] at heq
      exact ⟨fun _ => heq ▸ ⟨rfl, rfl⟩, fun h => absurd (hbad.symm.trans h) (by decide),
        fun _ _ h => by rw [heq] at h; cases h⟩
    | false =>
      rw [hbad, if_neg Bool.false_ne_true] at heq
      exact ⟨fun h => absurd (hbad.symm.trans h) (by decide), fun _ => heq ▸ answer_shows request,
        fun _ _ h => answer_written (heq ▸ h)⟩

/-- A server whose store does not answer about one relation to a tenant, and says yes otherwise. -/
def silentAbout (rel : Relation) (o : Object) : Server where
  cluster := "main"
  check := fun _ rel' o' => if rel' = rel ∧ o' = o then .error "store unreachable" else .ok true
  requirements := .ok [⟨"mail", "tenant", "shop", "kv/shop/mail", "", [⟨"password", 0⟩]⟩]
  repositories := .ok [⟨"apps", "shop"⟩]
  validate := fun _ _ => .done
  write := fun _ => .stored

/-- Reading fails as well, so a write whose own check fails is unavailable. -/
theorem unanswered_is_unavailable_set : let s := silentAbout .canReadCredential (.tenant "shop")
    (s.deciding ⟨"user:1", "", "shop"⟩
        [⟨"mail", "tenant", "shop", "kv/shop/mail", "", [⟨"password", 0⟩]⟩] [⟨"apps", "shop"⟩]
        (.set "mail" (some [("password", "x")]))).any unanswered ∧
      (handle s ⟨"user:1", "", "shop"⟩ (.set "mail" (some [("password", "x")]))).status =
        .unavailable :=
  have h := (unanswered_is_unavailable (s := silentAbout .canReadCredential (.tenant "shop"))
    (p := ⟨"user:1", "", "shop"⟩) rfl rfl (.set "mail" (some [("password", "x")]))).2
    (.inl (by decide))
  ⟨by decide, (h.unavailable (by decide)).1⟩

/-- The store does not answer whether a caller may set what they see, and they are told that they may
not; it does not answer whether they may see a repository, and they are shown none; it does not
answer whether they stand for their tenant, and they are told to sign in. -/
theorem unanswered_is_answered : let unwritten := silentAbout .canWriteCredential (.tenant "shop")
    let unread := silentAbout .canReadCredential (.tenant "shop")
    (unanswered (unwritten.verdict ⟨"user:1", "", ""⟩ .canWriteCredential "tenant" "shop") ∧
      (handle unwritten ⟨"user:1", "", ""⟩ (.set "mail" (some [("password", "x")]))).status =
        .forbidden) ∧
    (unanswered (unread.readsRepository ⟨"user:1", "", "shop"⟩ ⟨"apps", "shop"⟩) ∧
      handle unread ⟨"user:1", "", "shop"⟩ .listRepositories = ⟨.ok, .repositories [], none⟩) ∧
    ((unwritten.first ⟨"user:1", "", "shop"⟩).any unanswered ∧
      (handle unwritten ⟨"user:1", "", "shop"⟩ .listRepositories).status = .unauthorized) := by
  decide

end Gentian.Custodian
