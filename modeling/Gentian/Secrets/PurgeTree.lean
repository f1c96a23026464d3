/-
# Deleting a subtree of the vault

`internal/kernel/secrets/purgetree.go` (`DeleteTree`, `deleteTree`, `listChildren`,
`deleteMetadata`), `AppPath` and `TenantPath` of `paths.go`.

Below the trimmed path of `DeleteTree` a path is the list of its segments.  One name can be a
secret and a subtree at once, and a listing then has both, the subtree with a slash.
-/

import Gentian.Api.Names
import Gentian.Base.Json

namespace Gentian.Secrets.PurgeTree

open Documents GoStrings List

/-- Where a tenant's secrets are. -/
def tenantPath (tenant : String) : String := "gentian-os/tenants/" ++ tenant

/-- Where an app's secrets are. -/
def appPath (tenant app : String) : String :=
  "gentian-os/tenants/" ++ tenant ++ "/apps/" ++ app

/-- What becomes of a request: it is answered, it fails, or it is carried out and fails. -/
inductive Fate
  | answered
  | failed
  | lost
deriving DecidableEq

/-- The secrets by their paths, what becomes of the next requests, and whether one has failed. -/
structure KV (γ : Type) where
  secrets : List (List String × γ)
  fates : List Fate
  failed : Bool
deriving DecidableEq

/-- Why a purge ends. -/
inductive PurgeError
  | emptyPath
  | tooDeep (path : List String)
  | list (path : List String)
  | delete (path : List String)
deriving DecidableEq

/-- What a call answers, and what it leaves. -/
abbrev Outcome (γ : Type) := Except PurgeError Unit × KV γ

variable {γ : Type}

/-- What a secret shows of itself in the listing of a path. -/
def child (path secret : List String) : Option String :=
  match path.isPrefixOf? secret with
  | some [name] => some name
  | some (name :: _) => some (name ++ "/")
  | _ => none

/-- What KV v2 lists: each name once, in order. -/
def children (secrets : List (List String × γ)) (path : List String) : List String :=
  (Keys.ofList (secrets.filterMap fun e => child path e.1)).list

/-- The names below a path. -/
def listChildren (path : List String) (s : KV γ) : Except PurgeError (List String) × KV γ :=
  match s.fates.headD .answered with
  | .answered => (.ok (children s.secrets path), { s with fates := s.fates.tail })
  | _ => (.error (.list path), { s with fates := s.fates.tail, failed := true })

/-- One secret deleted with all its versions. -/
def deleteMetadata (path : List String) (s : KV γ) : Outcome γ :=
  let rest := s.secrets.filter fun e => e.1 ≠ path
  match s.fates.headD .answered with
  | .answered => (.ok (), { s with secrets := rest, fates := s.fates.tail })
  | .failed => (.error (.delete path), { s with fates := s.fates.tail, failed := true })
  | .lost => (.error (.delete path), ⟨rest, s.fates.tail, true⟩)

/-- A loop that ends at the first error. -/
def forEach (f : String → KV γ → Outcome γ) : List String → KV γ → Outcome γ
  | [], s => (.ok (), s)
  | child :: rest, s =>
    match f child s with
    | (.ok (), s) => forEach f rest s
    | (.error e, s) => (.error e, s)

/-- The body of the loop of `deleteTree`, with how it descends. -/
def visit (descend : List String → KV γ → Outcome γ) (path : List String) (child : String) :
    KV γ → Outcome γ :=
  if hasSuffix child "/" then descend (path ++ [trimSuffix child "/"])
  else deleteMetadata (path ++ [child])

/-- `deleteTree`, with the number of levels that are still allowed. -/
def deleteTree : ℕ → List String → KV γ → Outcome γ
  | 0, path, s => (.error (.tooDeep path), s)
  | n + 1, path, s =>
    match listChildren path s with
    | (.error e, s) => (.error e, s)
    | (.ok names, s) =>
      match forEach (visit (deleteTree n) path) names s with
      | (.error e, s) => (.error e, s)
      | (.ok (), s) => deleteMetadata path s

/-- `DeleteTree`, which trims the path and goes at most `maxPurgeDepth` = 16 levels below it. -/
def deleteTreeAt (logicalPath : String) (s : KV γ) : Outcome γ :=
  let path := trim (trimSpace logicalPath) "/ "
  if path = "" then (.error .emptyPath, s) else deleteTree 17 (split path '/') s

/-! ### What is removed -/

/-- Nothing but secrets of `gone` is removed, and without an error all of them are and no request
failed. -/
structure Purges (gone : List String → Prop) (s : KV γ) (r : Outcome γ) : Prop where
  subset : r.2.secrets ⊆ s.secrets
  frame : ∀ e ∈ s.secrets, ¬gone e.1 → e ∈ r.2.secrets
  done : r.1 = .ok () → (∀ e ∈ r.2.secrets, ¬gone e.1) ∧ r.2.failed = s.failed

variable {s : KV γ} {path : List String} {p q : List String → Prop} {r : Outcome γ}

/-- One delete takes one secret. -/
theorem purges_deleteMetadata : Purges (· = path) s (deleteMetadata path s) := by
  unfold deleteMetadata
  cases s.fates.headD .answered with
  | answered => exact ⟨filter_subset_self _, by simp +contextual, by simp⟩
  | failed => exact ⟨fun _ h => h, fun _ h _ => h, nofun⟩
  | lost => exact ⟨filter_subset_self _, by simp +contextual, nofun⟩

/-- What is purged may be stated otherwise. -/
theorem Purges.mono (h : Purges p s r) (hpq : ∀ x, p x → q x)
    (hqp : r.1 = .ok () → ∀ e ∈ s.secrets, q e.1 → p e.1) : Purges q s r :=
  ⟨h.subset, fun e he hq => h.frame e he fun hp => hq (hpq _ hp), fun hok =>
    ⟨fun e he hq => (h.done hok).1 e he (hqp hok e (h.subset he) hq), (h.done hok).2⟩⟩

/-- One after the other. -/
theorem Purges.next {s' : KV γ} (h : Purges p s (.ok (), s')) (h' : Purges q s' r) :
    Purges (fun x => p x ∨ q x) s r where
  subset _ he := h.subset (h'.subset he)
  frame e he hnot := h'.frame e (h.frame e he (hnot ∘ .inl)) (hnot ∘ .inr)
  done hok := ⟨fun e he => not_or.2 ⟨(h.done rfl).1 e (h'.subset he), (h'.done hok).1 e he⟩,
    (h'.done hok).2.trans (h.done rfl).2⟩

/-- A loop purges what its steps purge. -/
theorem purges_forEach {f : String → KV γ → Outcome γ}
    {g : String → List String → Prop} (names : List String)
    (hf : ∀ child s', s'.secrets ⊆ s.secrets → Purges (g child) s' (f child s')) :
    Purges (fun x => ∃ child ∈ names, g child x) s (forEach f names s) := by
  induction names generalizing s with
  | nil => exact ⟨fun _ h => h, fun _ h _ => h, fun _ => ⟨by simp, rfl⟩⟩
  | cons child names ih =>
    have hfirst := hf child s fun _ h => h
    rw [forEach]
    split
    next s' heq =>
      rw [heq] at hfirst
      refine (hfirst.next (ih fun c s'' hs => hf c s'' fun _ h => hfirst.subset (hs h))).mono ?_ ?_
      · exact fun x => (exists_mem_cons_iff (g · x) _ _).2
      · exact fun _ e _ => (exists_mem_cons_iff (g · e.1) _ _).1
    next e s' heq =>
      rw [heq] at hfirst
      exact hfirst.mono (fun x hx => ⟨child, mem_cons_self, hx⟩) nofun

/-- What the walk removes for one name of a listing. -/
def Under (path : List String) (child : String) (x : List String) : Prop :=
  if hasSuffix child "/" then path ++ [trimSuffix child "/"] <+: x else x = path ++ [child]

theorem prefix_of_under {child : String} {x : List String} (h : Under path child x) :
    path <+: x := by
  unfold Under at h
  split_ifs at h
  · exact (prefix_append _ _).trans h
  · exact h ▸ prefix_append _ _

/-- The listing of a path names every secret below it. -/
theorem exists_under {e : List String × γ} (he : e ∈ s.secrets)
    (hplain : ∀ x ∈ e.1, '/' ∉ x.toList) (h : path <+: e.1) :
    (∃ child ∈ children s.secrets path, Under path child e.1) ∨ e.1 = path := by
  obtain ⟨rest, hrest⟩ := h
  have hmem : ∀ {name}, child path e.1 = some name → name ∈ children s.secrets path := fun h =>
    Keys.mem_ofList.2 (mem_filterMap.2 ⟨e, he, h⟩)
  rw [child, isPrefixOf?_eq_some_iff_append_eq.2 hrest] at hmem
  rw [← hrest] at hplain ⊢
  match rest with
  | [] => exact .inr (append_nil _)
  | [name] =>
    have hnot : ¬hasSuffix name "/" := fun h => by
      obtain ⟨t, rfl⟩ := hasSuffix_iff.1 h
      exact hplain (t ++ "/") (by simp) (by simp)
    exact .inl ⟨name, hmem rfl, by rw [Under, if_neg hnot]⟩
  | name :: next :: rest =>
    refine .inl ⟨name ++ "/", hmem rfl, ?_⟩
    rw [Under, if_pos (hasSuffix_append _ _), trimSuffix_append]
    exact ⟨next :: rest, by simp⟩

/-- A tree is purged as a whole. -/
theorem purges_deleteTree (n : ℕ) (hplain : ∀ e ∈ s.secrets, ∀ x ∈ e.1, '/' ∉ x.toList) :
    Purges (path <+: ·) s (deleteTree n path s) := by
  induction n generalizing path s with
  | zero => exact ⟨fun _ h => h, fun _ h _ => h, nofun⟩
  | succ n ih =>
    rw [deleteTree, listChildren]
    cases s.fates.headD .answered with
    | answered =>
      have hvisit : ∀ child s', s'.secrets ⊆ s.secrets →
          Purges (Under path child) s' (visit (deleteTree n) path child s') := fun child s' hs => by
        unfold Under visit
        split_ifs
        · exact ih fun e he => hplain e (hs he)
        · exact purges_deleteMetadata
      obtain ⟨hsub, hframe, hdone⟩ := purges_forEach (s := { s with fates := s.fates.tail })
        (children s.secrets path) hvisit
      have hloop : Purges (fun x => ∃ c ∈ children s.secrets path, Under path c x) s _ :=
        ⟨hsub, hframe, hdone⟩
      dsimp only
      split
      next heq =>
        rw [heq] at hloop
        exact hloop.mono (fun x ⟨c, _, hx⟩ => prefix_of_under hx) nofun
      next heq =>
        rw [heq] at hloop
        refine (hloop.next purges_deleteMetadata).mono ?_
          fun _ e he => exists_under he (hplain e he)
        rintro x (⟨c, -, hx⟩ | rfl)
        · exact prefix_of_under hx
        · exact prefix_rfl
    | _ => exact ⟨fun _ h => h, fun _ h _ => h, nofun⟩

/-! ### The paths of a tenant and of an app -/

/-- The segments that lead to what is stored for a tenant. -/
def tenantSegments (tenant : String) : List String := ["gentian-os", "tenants", tenant]

/-- The segments that lead to what is stored for an app. -/
def appSegments (tenant app : String) : List String :=
  ["gentian-os", "tenants", tenant, "apps", app]

/-- **A path that ends in a label is not trimmed.**  One that ends in an empty name would be, to
the path of everything beside it. -/
theorem trim_path {n : ℕ} {front name : String}
    (hfront : front.toList.all fun c => Api.isLabelChar c || c = '/')
    (hfirst : ∃ c ∈ front.toList.head?, c ∉ "/ ".toList) (hname : Api.labelOf n name) :
    trim (trimSpace (front ++ name)) "/ " = front ++ name := by
  obtain ⟨hall, -, ⟨l, hl, hend⟩, -⟩ := Api.labelOf_iff.1 hname
  have hplain : ∀ c, Api.isLabelChar c → c ∉ "/ ".toList := by
    intro c hc hmem
    have hcases : c = '/' ∨ c = ' ' := by simpa using hmem
    rcases hcases with rfl | rfl <;> exact absurd hc (by decide)
  rw [trimSpace_of_forall, trim_of_ends]
  · obtain ⟨c, hc, hout⟩ := hfirst
    intro d hd
    rw [String.toList_append, head?_append, hc, Option.some_or, Option.mem_some] at hd
    exact hd ▸ hout
  · intro d hd
    rw [String.toList_append, getLast?_append, hl, Option.some_or, Option.mem_some] at hd
    exact hd ▸ hplain l (Api.isLabelChar_of_isLabelEnd hend)
  · intro c hc
    rw [String.toList_append, mem_append] at hc
    have hfront : ∀ c ∈ front.toList, Api.isLabelChar c ∨ c = '/' := by simpa using hfront
    rcases hc.elim (hfront c) fun hc => .inl (hall c hc) with hc | rfl
    · exact Api.isSpace_of_isLabelChar hc
    · rfl

theorem split_tenants (rest : String) : split ("gentian-os/tenants/" ++ rest) '/' =
    "gentian-os" :: "tenants" :: split rest '/' := by
  have hfront : "gentian-os/tenants/" = "gentian-os/tenants" ++ String.ofList ['/'] := by decide
  have hparts : split "gentian-os/tenants" '/' = ["gentian-os", "tenants"] := by decide
  rw [hfront, split_append, hparts]
  rfl

/-- A tenant's path leads to the tenant. -/
theorem split_tenantPath {tenant : String} (h : Api.validTenantName tenant) :
    split (trim (trimSpace (tenantPath tenant)) "/ ") '/' = tenantSegments tenant := by
  have htrim : trim (trimSpace (tenantPath tenant)) "/ " = "gentian-os/tenants/" ++ tenant :=
    trim_path (n := 36) (by decide) ⟨'g', rfl, by decide⟩ h
  have hsplit := split_tenants tenant
  rw [split_of_not_mem (Api.not_mem_of_validTenantName h (by decide))] at hsplit
  exact (congrArg (split · '/') htrim).trans hsplit

/-- An app's path leads to the app. -/
theorem split_appPath {tenant app : String} (h : Api.validTenantName tenant)
    (happ : Api.dnsLabel app) :
    split (trim (trimSpace (appPath tenant app)) "/ ") '/' = appSegments tenant app := by
  have hchars : tenant.toList.all fun c => Api.isLabelChar c || c = '/' := by
    simpa using fun c hc => .inl (Api.isLabelChar_of_validTenantName h c hc)
  have hfront : ("gentian-os/tenants/" ++ tenant ++ "/apps/").toList.all
      fun c => Api.isLabelChar c || c = '/' := by
    rw [String.toList_append, String.toList_append, all_append, all_append, hchars]
    decide
  have hfirst : 'g' ∈ ("gentian-os/tenants/" ++ tenant ++ "/apps/").toList.head? := by
    rw [String.append_assoc, String.toList_append]
    rfl
  have happs : "/apps/" = String.ofList ['/'] ++ ("apps" ++ String.ofList ['/']) := by decide
  have hjoin : "gentian-os/tenants/" ++ tenant ++ "/apps/" ++ app = "gentian-os/tenants/" ++
      (tenant ++ String.ofList ['/'] ++ ("apps" ++ String.ofList ['/'] ++ app)) := by
    rw [happs]
    simp only [String.append_assoc]
  have htrim : trim (trimSpace (appPath tenant app)) "/ " = _ :=
    (trim_path (n := 61) hfront ⟨'g', hfirst, by decide⟩ happ).trans hjoin
  have hsplit := split_tenants (tenant ++ String.ofList ['/'] ++
    ("apps" ++ String.ofList ['/'] ++ app))
  rw [split_join (Api.not_mem_of_validTenantName h (by decide)), split_join (by decide),
    split_of_not_mem (Api.not_mem_of_dnsLabel happ (by decide))] at hsplit
  exact (congrArg (split · '/') htrim).trans hsplit

/-- What a call has done to the subtree below a path: it added nothing, it kept all that is outside
the subtree, without an error it left nothing of it, and it reported a request that failed. -/
structure RemovedWhole (path : List String) (s : KV γ) (r : Outcome γ) : Prop where
  subset : r.2.secrets ⊆ s.secrets
  frame : ∀ e ∈ s.secrets, ¬path <+: e.1 → e ∈ r.2.secrets
  whole : r.1 = .ok () → ∀ e ∈ r.2.secrets, ¬path <+: e.1
  told : s.failed = false → r.2.failed → r.1 ≠ .ok ()

theorem removedWhole_deleteTree {n : ℕ} (hplain : ∀ e ∈ s.secrets, ∀ x ∈ e.1, '/' ∉ x.toList) :
    RemovedWhole path s (deleteTree n path s) := by
  have h : Purges (path <+: ·) s _ := purges_deleteTree n hplain
  refine ⟨h.subset, h.frame, fun hok => (h.done hok).1, fun hnone hfailed hok => ?_⟩
  rw [(h.done hok).2, hnone] at hfailed
  cases hfailed

/-- **`DeleteTree` removes what is stored for a tenant, or for an app, whole and nothing else.** -/
theorem deleteTree_exact {tenant app : String} (htenant : Api.validTenantName tenant = true)
    (happ : Api.dnsLabel app = true) (hplain : ∀ e ∈ s.secrets, ∀ x ∈ e.1, '/' ∉ x.toList) :
    RemovedWhole (tenantSegments tenant) s (deleteTreeAt (tenantPath tenant) s) ∧
      RemovedWhole (appSegments tenant app) s (deleteTreeAt (appPath tenant app) s) := by
  have hat : ∀ logicalPath segments,
      split (trim (trimSpace logicalPath) "/ ") '/' = segments → segments ≠ [""] →
        RemovedWhole segments s (deleteTreeAt logicalPath s) := by
    rintro logicalPath _ rfl hne
    unfold deleteTreeAt
    rw [if_neg fun hempty => hne (by rw [hempty]; rfl)]
    exact removedWhole_deleteTree hplain
  exact ⟨hat _ _ (split_tenantPath htenant) (by simp [tenantSegments]),
    hat _ _ (split_appPath htenant happ) (by simp [appSegments])⟩

/-- A tenant with a secret of its own and an app, beside one whose name goes on from its name. -/
theorem deleteTree_exact_tenant :
    let s : KV ℕ := ⟨[(tenantSegments "a", 0), (appSegments "a" "b", 1), (tenantSegments "a-b", 2)],
      [], false⟩
    let r := deleteTreeAt (tenantPath "a") s
    r.1 = .ok () ∧ (∀ e ∈ r.2.secrets, ¬tenantSegments "a" <+: e.1) ∧
      (tenantSegments "a-b", 2) ∈ r.2.secrets := by
  have hok : (deleteTreeAt (tenantPath "a") (⟨[(tenantSegments "a", 0), (appSegments "a" "b", 1),
      (tenantSegments "a-b", 2)], [], false⟩ : KV ℕ)).1 = .ok () := by decide +kernel
  have htenant : Api.validTenantName "a" = true := by decide
  have happ : Api.dnsLabel "b" = true := by decide
  have h := (deleteTree_exact (s := (⟨[(tenantSegments "a", 0), (appSegments "a" "b", 1),
    (tenantSegments "a-b", 2)], [], false⟩ : KV ℕ)) htenant happ (by decide)).1
  exact ⟨hok, h.whole hok, h.frame _ (by decide) (by decide)⟩

end Gentian.Secrets.PurgeTree
