/-
# No approval and no revocation is lost

The requests about a tenant's perimeter (`Gentian.Gitops.Perimeter`), made of any number of
directors at once.  Each request rewrites a list whole, so the lists should be what the
requests make of them one after another, in the order their commits are in.

They are not.  The process's lock does not reach the other processes, and a list read through
the freshness window can be one the remote has left by the time the write syncs: a revocation
that another director pushed in between is undone by an unrelated grant (`revoked_and_back`).
The comment on `writeTenantFileLocked` says what was meant: "reading and writing under one
lock is what keeps two approvals arriving together from costing one of them".
-/

import Gentian.Gitops.Perimeter

namespace Gentian.Gitops

open Threads Git GoStrings GoErrors List Option PerimeterRequest

variable {β : Type} {cluster tenant : String}

/-! ### Calls of several processes -/

/-- What a tenant has been granted and what it publishes. -/
structure Lists where
  privileges : Except Err (List PrivilegeGrant)
  exposures : Except Err (List Exposure)

/-- A tenant's list in a tree. -/
def ListFile.listOf (L : ListFile β) (cluster tenant : String) (t : Tree Doc) :
    Except Err (List β) :=
  match manifestPath t cluster tenant with
  | none => .error (.tenantNotFound tenant)
  | some manifest => L.listIn t manifest

/-- Both lists of a tenant. -/
def listsOf (cluster tenant : String) (t : Tree Doc) : Lists :=
  ⟨privilegesFile.listOf cluster tenant t, exposuresFile.listOf cluster tenant t⟩

/-- What a request makes of the privileges. -/
def PerimeterRequest.onPrivileges : PerimeterRequest → List PrivilegeGrant → List PrivilegeGrant
  | .grantPrivilege g now, l => privilegesFile.sorted (withGrant (g.stated now) l)
  | .revokePrivilege install privilege, l =>
    privilegesFile.sorted (l.filter fun g => g.key ≠ install ++ " " ++ privilege)
  | _, l => l

/-- What a request makes of the tenant's exposures, where the host of an alias
stands for this label. -/
def PerimeterRequest.onExposures (label : String) : PerimeterRequest → List Exposure → List Exposure
  | .publishExposure e now, l => exposuresFile.sorted (withExposure e now l)
  | .withdrawExposure install exposure, l =>
    exposuresFile.sorted (l.filter fun e => e.key ≠ install ++ " " ++ exposure)
  | .setExposureAlias install exposure _ subject now, l =>
    exposuresFile.sorted (setLast (install ++ " " ++ exposure) (fun e =>
      if label = "" then { e with aliasLabel := "", aliasSetBy := "", aliasSetAt := "" }
      else { e with aliasLabel := label, aliasSetBy := subject, aliasSetAt := now }) l)
  | _, l => l

/-- The label a request comes to. -/
def PerimeterRequest.Names (x : Platform) (label : String) : PerimeterRequest → Prop
  | .setExposureAlias _ _ host _ _ =>
    (trimSpace host = "" ∧ label = "") ∨ ∃ kernel, aliasLabel x host kernel = .ok label
  | _ => True

/-- What a request makes of both lists. -/
def PerimeterRequest.apply (r : PerimeterRequest) (label : String) (ls : Lists) : Lists :=
  ⟨ls.privileges.map r.onPrivileges, ls.exposures.map (r.onExposures label)⟩

/-- A request, in a process. -/
structure PerimeterCall where
  proc : ℕ
  request : PerimeterRequest
deriving DecidableEq

/-- The directors and the requests they run for one tenant. -/
abbrev approving (x : Platform) (cluster tenant : String) :
    System (World Path Doc) PerimeterCall (Op Path Doc) (Op.Ans Path Doc) (Except Err Result)
      (Fate Path Doc) ℕ :=
  system PerimeterCall.proc fun k => (k.request.run x cluster tenant).run

/-- A history that continues `h₀` by requests, each applied to the lists of the
commit before it. -/
inductive Replayed (x : Platform) (cluster tenant : String) (calls : List PerimeterCall)
    (h₀ : List (Commit Path Doc)) : List (Commit Path Doc) → Prop where
  | start : Replayed x cluster tenant calls h₀ h₀
  | commit {h : List (Commit Path Doc)} {j : ℕ} {k : PerimeterCall} {t : Tree Doc} {label : String}
      (hh : Replayed x cluster tenant calls h₀ h) (hj : calls[j]? = some k)
      (hlabel : k.request.Names x label)
      (ht : listsOf cluster tenant t = k.request.apply label (listsOf cluster tenant (tip h))) :
      Replayed x cluster tenant calls h₀ (⟨t, some j⟩ :: h)

/-- What the directors keep: a history of requests applied one after another. -/
def requestsOf (x : Platform) (cluster tenant : String) (h₀ : List (Commit Path Doc)) :
    Keeps PerimeterCall Path Doc where
  history calls h := Replayed x cluster tenant calls h₀ h
  resting _ _ := True
  resting_mono _ _ := trivial

/-- The file a request writes. -/
def PerimeterRequest.file : PerimeterRequest → String
  | .grantPrivilege _ _ | .revokePrivilege _ _ => privilegesFile.file
  | _ => exposuresFile.file

/-- Texts that YAML reads as they are written. -/
def plain (x : Platform) (texts : List String) : Prop :=
  ∀ s ∈ texts, rereadText x.scalar s = some s

/-- An exposure that reads as it is written. -/
def plainExposure (x : Platform) (e : Exposure) : Prop :=
  plain x e.texts ∧ (e.apexAcknowledgedBy = "" → e.apexAcknowledgedAt = "") ∧
    (e.aliasLabel = "" → e.aliasSetBy = "" ∧ e.aliasSetAt = "")

/-- The first label of a host. -/
def hostLabel (host : String) : String :=
  String.ofList ((toLower (trimSuffix (trimSpace host) ".")).toList.takeWhile (· ≠ '.'))

/-- A request whose texts read as they are written. -/
def PerimeterRequest.plain (x : Platform) : PerimeterRequest → Prop
  | .grantPrivilege g now => Gitops.plain x (g.stated now).texts
  | .publishExposure e now => plainExposure x (e.stated now) ∧ Gitops.plain x [now]
  | .setExposureAlias _ _ host subject now => Gitops.plain x [hostLabel host, subject, now]
  | .revokePrivilege _ _ | .withdrawExposure _ _ => True

/-- The tenant's lists read as they are written. -/
def Lists.Plain (x : Platform) (ls : Lists) : Prop :=
  (∀ l ∈ ls.privileges.toOption, ∀ g ∈ l, plain x g.texts) ∧
    ∀ l ∈ ls.exposures.toOption, ∀ e ∈ l, plainExposure x e

instance (x : Platform) (texts : List String) : Decidable (plain x texts) :=
  inferInstanceAs (Decidable (∀ s ∈ texts, _))

instance (x : Platform) (e : Exposure) : Decidable (plainExposure x e) :=
  inferInstanceAs (Decidable (_ ∧ _ ∧ _))

instance (x : Platform) (r : PerimeterRequest) : Decidable (r.plain x) := by
  cases r <;> unfold PerimeterRequest.plain <;> infer_instance

instance (x : Platform) (ls : Lists) : Decidable (ls.Plain x) :=
  inferInstanceAs (Decidable ((∀ l ∈ ls.privileges.toOption, _) ∧ _))

/-- A step that tells its call what it did, a sync of a checkout that the call has read which
still says, in the files it read, what the remote says, and a push onto lists that, like the
request's texts, YAML reads as they are written. -/
def steady (x : Platform) (cluster tenant : String) (_ : ℕ) (k : PerimeterCall) (o : Op Path Doc)
    (f : Fate Path Doc) (_ : List PerimeterCall) (w : World Path Doc) : Prop :=
  match o, f with
  | .push, .lost => False
  | .push, _ => k.request.plain x ∧ (listsOf cluster tenant (tip w.remote)).Plain x
  | .on .revParse, .done => True
  | .on .revParse, _ => False
  | .on .fetch, _ => (w.clones k.proc).seen = true →
      (w.clones k.proc).work.keep (reads k.request.file) =
        (tip w.remote).keep (reads k.request.file)
  | _, _ => True

instance (x : Platform) (cluster tenant : String) (j : ℕ) (k : PerimeterCall) (o : Op Path Doc)
    (f : Fate Path Doc) (calls : List PerimeterCall) (w : World Path Doc) :
    Decidable (steady x cluster tenant j k o f calls w) := by
  unfold steady
  split <;> infer_instance

theorem steady_steady (x : Platform) (cluster tenant : String) (j : ℕ) (k : PerimeterCall) :
    Steady (steady x cluster tenant) k.proc j k (reads k.request.file) :=
  fun f _ _ hc hseen => by
    cases f <;> exact hc hseen

/-- Where steps are steady no answer is lost. -/
theorem steady_not_lossy (x : Platform) (cluster tenant : String) (j : ℕ) (k : PerimeterCall) :
    ¬Lossy (steady x cluster tenant) j k := by
  rintro (⟨calls, w, hc⟩ | ⟨calls, w, f, hf, hc⟩)
  · exact hc
  · cases f with
    | done => exact hf rfl
    | _ => exact hc

theorem Replayed.mono {x : Platform} {calls : List PerimeterCall} {h₀ h : List (Commit Path Doc)}
    (k : PerimeterCall) (hh : Replayed x cluster tenant calls h₀ h) :
    Replayed x cluster tenant (calls ++ [k]) h₀ h := by
  induction hh with
  | start => exact .start
  | commit _ hj hlabel ht ih =>
    have hlt := (List.getElem?_eq_some_iff.1 hj).1
    exact .commit ih (by rwa [List.getElem?_append_left hlt]) hlabel ht

section drafts

variable {L : ListFile β} {fn : List β → Except Err (Decision β)} {t : Tree Doc} {manifest : Path}
  {l next : List β} {d : Decision β} {draft : Draft Doc}

section

variable (h : Decides L cluster tenant fn t manifest l d)

include h

theorem Decides.listOf_eq :
    L.listOf cluster tenant t = .ok l := by
  rw [ListFile.listOf, h.found]
  exact h.listed

/-- The draft has the list that was decided. -/
theorem Decides.listOf_draft {scalar : String → Option String}
    (hread : ∀ tenant l, L.read (L.doc tenant l) = .ok l)
    (hplain : ∀ b ∈ next, L.reread scalar b = some b) (hfile : L.file ≠ "tenant.yaml")
    (hkust : L.file ≠ "kustomization.yaml")
    (hdraft : tenantFilePlan t manifest L.file (L.render scalar tenant next) .patch =
      .draft draft) :
    L.listOf cluster tenant (draft.tree t) = .ok (L.sorted next) := by
  rw [ListFile.listOf, manifestPath_draft hfile hkust hdraft, h.found]
  exact listIn_draft hread hplain hkust hdraft

/-- And the other list as it was. -/
theorem Decides.listOf_draft_of_ne {γ : Type} {M : ListFile γ} {body : Option Doc}
    (hM : M.file ≠ "kustomization.yaml") (hne : M.file ≠ L.file)
    (hfile : L.file ≠ "tenant.yaml") (hkust : L.file ≠ "kustomization.yaml")
    (hdraft : tenantFilePlan t manifest L.file body .patch = .draft draft) :
    M.listOf cluster tenant (draft.tree t) = M.listOf cluster tenant t := by
  rw [ListFile.listOf, ListFile.listOf, manifestPath_draft hfile hkust hdraft, h.found]
  exact listIn_draft_of_ne hne hM hkust hdraft

end

end drafts

/-! ### Texts that read as they are written -/

section plain

variable {x : Platform} {r : PerimeterRequest} {label : String}

/-- A plain request keeps privileges plain. -/
theorem plain_onPrivileges {l : List PrivilegeGrant} (hr : r.plain x)
    (hl : ∀ g ∈ l, plain x g.texts) : ∀ g ∈ r.onPrivileges l, plain x g.texts := by
  intro g hg
  cases r with
  | grantPrivilege new now =>
    rw [onPrivileges, mem_sorted, withGrant] at hg
    split_ifs at hg
    · obtain ⟨g', hg', rfl⟩ := mem_map.1 hg
      split_ifs
      · exact hr
      · exact hl g' hg'
    · rcases mem_append.1 hg with hg | hg
      · exact hl g hg
      · rw [mem_singleton.1 hg]
        exact hr
  | revokePrivilege _ _ =>
    rw [onPrivileges, mem_sorted] at hg
    exact hl g (mem_filter.1 hg).1
  | _ => exact hl g hg

theorem plain_review {e h : Exposure} (he : plainExposure x e) (hh : plainExposure x h) :
    plainExposure x (e.review h) := by
  obtain ⟨he, heapex, healias⟩ := he
  obtain ⟨hh, -, hhalias⟩ := hh
  simp only [plain, Exposure.texts, forall_mem_cons] at he hh
  rw [Exposure.review]
  split_ifs
  · refine ⟨?_, heapex, hhalias⟩
    simp only [plain, Exposure.texts, forall_mem_cons]
    exact ⟨he.1, he.2.1, he.2.2.1, hh.2.2.2.1, he.2.2.2.2.1, he.2.2.2.2.2.1, hh.2.2.2.2.2.2.1,
      he.2.2.2.2.2.2.2.1, he.2.2.2.2.2.2.2.2.1, he.2.2.2.2.2.2.2.2.2.1, he.2.2.2.2.2.2.2.2.2.2.1,
      hh.2.2.2.2.2.2.2.2.2.2.2⟩
  · refine ⟨?_, heapex, healias⟩
    simp only [plain, Exposure.texts, forall_mem_cons]
    exact ⟨he.1, he.2.1, he.2.2.1, hh.2.2.2.1, he.2.2.2.2.1, he.2.2.2.2.2.1, hh.2.2.2.2.2.2.1,
      he.2.2.2.2.2.2.2⟩

theorem plain_reviewed {hs : List Exposure} (hl : ∀ h ∈ hs, plainExposure x h) :
    ∀ {e}, plainExposure x e → ∀ g ∈ (reviewed e hs).1, plainExposure x g := by
  induction hs with
  | nil => exact fun _ _ hg => absurd hg not_mem_nil
  | cons h hs ih =>
    intro e he g hg
    have hrest := fun b hb => hl b (mem_cons_of_mem h hb)
    have hh := hl h mem_cons_self
    rw [reviewed] at hg
    split_ifs at hg
    · rcases mem_cons.1 hg with rfl | hg
      · exact plain_review he hh
      · exact ih hrest (plain_review he hh) g hg
    · rcases mem_cons.1 hg with rfl | hg
      · exact hh
      · exact ih hrest he g hg

/-- And published entries. -/
theorem plain_onExposures {l : List Exposure} (hr : r.plain x)
    (hlabel : ∀ install exposure host subject now,
      r = .setExposureAlias install exposure host subject now → label ≠ "" → label = hostLabel host)
    (hl : ∀ e ∈ l, plainExposure x e) : ∀ e ∈ r.onExposures label l, plainExposure x e := by
  intro e he
  cases r with
  | publishExposure new now =>
    rw [onExposures, mem_sorted, withExposure] at he
    split_ifs at he
    · exact plain_reviewed hl hr.1 e he
    · rcases mem_append.1 he with he | he
      · exact plain_reviewed hl hr.1 e he
      · obtain ⟨⟨htexts, hrest⟩, hnow⟩ := hr
        rw [mem_singleton.1 he]
        refine ⟨?_, hrest⟩
        simp only [plain, Exposure.texts, forall_mem_cons] at htexts hnow ⊢
        exact ⟨htexts.1, htexts.2.1, htexts.2.2.1, htexts.2.2.2.1, htexts.2.2.2.2.1,
          htexts.2.2.2.2.2.1, hnow.1, htexts.2.2.2.2.2.2.2⟩
  | withdrawExposure _ _ =>
    rw [onExposures, mem_sorted] at he
    exact hl e (mem_filter.1 he).1
  | setExposureAlias install exposure host subject now =>
    rw [onExposures, mem_sorted] at he
    rcases mem_setLast he with hmem | ⟨e', he', -, rfl⟩
    · exact hl e hmem
    · obtain ⟨htexts, hapex, -⟩ := hl e' he'
      simp only [plain, Exposure.texts, forall_mem_cons] at htexts
      have hnone : rereadText x.scalar "" = some "" := rfl
      by_cases hempty : label = ""
      · rw [if_pos hempty]
        refine ⟨?_, hapex, fun _ => ⟨rfl, rfl⟩⟩
        simp only [plain, Exposure.texts, forall_mem_cons]
        exact ⟨htexts.1, htexts.2.1, htexts.2.2.1, htexts.2.2.2.1, htexts.2.2.2.2.1,
          htexts.2.2.2.2.2.1, htexts.2.2.2.2.2.2.1, htexts.2.2.2.2.2.2.2.1,
          htexts.2.2.2.2.2.2.2.2.1, htexts.2.2.2.2.2.2.2.2.2.1, htexts.2.2.2.2.2.2.2.2.2.2.1,
          hnone, hnone, hnone, fun _ h => absurd h not_mem_nil⟩
      · obtain rfl := hlabel _ _ _ _ _ rfl hempty
        rw [if_neg hempty]
        simp only [PerimeterRequest.plain, plain, forall_mem_cons] at hr
        refine ⟨?_, hapex, fun h => absurd h hempty⟩
        simp only [plain, Exposure.texts, forall_mem_cons]
        exact ⟨htexts.1, htexts.2.1, htexts.2.2.1, htexts.2.2.2.1, htexts.2.2.2.2.1,
          htexts.2.2.2.2.2.1, htexts.2.2.2.2.2.2.1, htexts.2.2.2.2.2.2.2.1,
          htexts.2.2.2.2.2.2.2.2.1, htexts.2.2.2.2.2.2.2.2.2.1, htexts.2.2.2.2.2.2.2.2.2.2.1,
          hr.1, hr.2.1, hr.2.2.1, fun _ h => absurd h not_mem_nil⟩
  | _ => exact hl e he

/-- An alias is the first label of its host. -/
theorem aliasLabel_eq_hostLabel {host kernel : String} (h : aliasLabel x host kernel = .ok label) :
    label = hostLabel host := by
  unfold aliasLabel at h
  set full := toLower (trimSuffix (trimSpace host) ".") with hfull
  dsimp only at h
  split_ifs at h with hbad hkept
  cases h
  simp only [Bool.or_eq_true, not_or, decide_eq_true_eq, Bool.not_eq_true',
    Bool.not_eq_false] at hbad
  obtain ⟨⟨⟨hne, -⟩, -⟩, hchars⟩ := hbad
  have hsuffix : hasSuffix full ("." ++ kernel) := by
    by_contra hno
    exact hne (if_neg hno)
  obtain ⟨t, ht⟩ := hasSuffix_iff.1 hsuffix
  have htrim : trimSuffix full ("." ++ kernel) = t := by rw [ht, trimSuffix_append]
  rw [htrim] at hchars ⊢
  have hdot : ∀ c ∈ t.toList, c ≠ '.' := by
    rintro c hc rfl
    rw [isAliasLabel] at hchars
    split at hchars
    · have := all_eq_true.1 (Bool.and_eq_true_iff.1 hchars).2 '.' hc
      exact absurd this (by decide)
    · cases hchars
  rw [hostLabel, ← hfull, ht]
  refine String.toList_inj.1 ?_
  have hkernel : (t ++ ("." ++ kernel)).toList = t.toList ++ '.' :: kernel.toList := by simp
  rw [String.toList_ofList, hkernel, takeWhile_append_of_pos (by simpa using hdot),
    takeWhile_cons_of_neg (by simp), append_nil]

end plain

section safe

variable {x : Platform} {h₀ : List (Commit Path Doc)} {j : ℕ} {k : PerimeterCall}
  {w : World Path Doc}

/-- The call has counted for what it answers. -/
def Answers (j : ℕ) (r : Except Err Result) (w : World Path Doc) : Prop :=
  ∃ m, Has j m [] w ∧ Counts False False r m

theorem answers_error (e : Err) (w : World Path Doc) (hw : Has j 0 [] w) :
    Answers j (.error e) w := ⟨0, hw, .inl rfl⟩

/-- A part of a request that ends with the call counted for its answer. -/
abbrev AnswersSafe (x : Platform) (cluster tenant : String) (h₀ : List (Commit Path Doc)) (j : ℕ)
    (k : PerimeterCall) (y : Run Doc Result) (w : World Path Doc) : Prop :=
  SafeE (approving x cluster tenant) ((requestsOf x cluster tenant h₀).spec PerimeterCall.proc
    (steady x cluster tenant)) j k (fun a => Answers j (.ok a)) (fun e => Answers j (.error e)) y w

/-- A rewrite of a list is safe where its draft has the lists that the request makes. -/
theorem rewrite_safe {L : ListFile β} {fn : List β → Except Err (Decision β)} {label : String}
    (hkust : L.file ≠ "kustomization.yaml") (hfile : k.request.file = L.file) (hfn : Respects L fn)
    (hnames : k.request.Names x label) (hw : Has j 0 [] w)
    (hdraft : ∀ t manifest l d next draft, Decides L cluster tenant fn t manifest l d →
      d.next = some next → k.request.plain x → (listsOf cluster tenant t).Plain x →
      tenantFilePlan t manifest L.file (L.render x.scalar tenant next) .patch = .draft draft →
      listsOf cluster tenant (draft.tree t) = k.request.apply label (listsOf cluster tenant t)) :
    AnswersSafe x cluster tenant h₀ j k (locked (rewriteList x.scalar L cluster tenant fn)) w := by
  refine answered_safe (fun _ _ => trivial) not_false (steady_not_lossy x cluster tenant j k) hw
    fun _ hw' => rewriteList_safe hkust hfn (hfile ▸ steady_steady x cluster tenant j k) hw' ?_
  intro h manifest l d next hdec hd draft hplan calls w' f hrem hi hj hc
  have hh : Replayed x cluster tenant calls h₀ h := hrem ▸ hi.history
  have hplain : k.request.plain x ∧ (listsOf cluster tenant (tip h)).Plain x := by
    rw [← hrem]
    cases f <;> first | exact hc | exact absurd hc id
  exact .commit hh hj hnames (hdraft _ _ _ _ _ _ hdec hd hplain.1 hplain.2 hplan)

/-- A request on privileges makes of them what it should. -/
theorem privileges_safe {fn : List PrivilegeGrant → Except Err (Decision PrivilegeGrant)}
    (hfile : k.request.file = privilegesFile.file) (hfn : Respects privilegesFile fn)
    (hnext : ∀ l d next, fn l = .ok d → d.next = some next →
      privilegesFile.sorted next = k.request.onPrivileges l)
    (hother : ∀ l, k.request.onExposures "" l = l) (hnames : k.request.Names x "")
    (hw : Has j 0 [] w) :
    AnswersSafe x cluster tenant h₀ j k
      (locked (rewriteList x.scalar privilegesFile cluster tenant fn)) w := by
  refine rewrite_safe (by decide) hfile hfn hnames hw ?_
  intro t _ l d next _ h hd hr hl hdraft
  have hplain : ∀ g ∈ next, g.reread x.scalar = some g := by
    intro g hg
    have hmem : g ∈ k.request.onPrivileges l := by
      rw [← hnext l d next h.decision hd]
      exact mem_sorted.2 hg
    exact PrivilegeGrant.reread_of_texts
      (plain_onPrivileges hr (hl.1 l (by rw [listsOf, h.listOf_eq]; rfl)) g hmem)
  rw [apply, listsOf, listsOf, h.listOf_eq,
    h.listOf_draft (fun _ _ => rfl) hplain (by decide) (by decide) hdraft,
    hnext l d next h.decision hd,
    h.listOf_draft_of_ne (by decide) (by decide) (by decide) (by decide) hdraft]
  cases exposuresFile.listOf cluster tenant t with
  | error e => rfl
  | ok es => exact congrArg (fun l => Lists.mk _ (.ok l)) (hother es).symm

/-- A request on published entries makes of them what it should. -/
theorem exposures_safe (label : String) {fn : List Exposure → Except Err (Decision Exposure)}
    (hfile : k.request.file = exposuresFile.file) (hfn : Respects exposuresFile fn)
    (hnext : ∀ l d next, fn l = .ok d → d.next = some next →
      exposuresFile.sorted next = k.request.onExposures label l)
    (hother : ∀ l, k.request.onPrivileges l = l) (hnames : k.request.Names x label)
    (hw : Has j 0 [] w) :
    AnswersSafe x cluster tenant h₀ j k
      (locked (rewriteList x.scalar exposuresFile cluster tenant fn)) w := by
  refine rewrite_safe (by decide) hfile hfn hnames hw ?_
  intro t _ l d next _ h hd hr hl hdraft
  have hplain : ∀ e ∈ next, e.reread x.scalar = some e := by
    intro e he
    have hmem : e ∈ k.request.onExposures label l := by
      rw [← hnext l d next h.decision hd]
      exact mem_sorted.2 he
    have hfirst : ∀ install exposure host subject now,
        k.request = .setExposureAlias install exposure host subject now → label ≠ "" →
        label = hostLabel host := by
      intro _ _ _ _ _ hk hlabel
      rw [hk] at hnames
      rcases hnames with ⟨-, hempty⟩ | ⟨kernel, hkernel⟩
      · exact absurd hempty hlabel
      · exact aliasLabel_eq_hostLabel hkernel
    obtain ⟨htexts, hapex, halias⟩ := plain_onExposures hr hfirst
      (hl.2 l (by rw [listsOf, h.listOf_eq]; rfl)) e hmem
    exact Exposure.reread_of_texts htexts hapex halias
  rw [apply, listsOf, listsOf, h.listOf_eq,
    h.listOf_draft (fun _ _ => rfl) hplain (by decide) (by decide) hdraft,
    hnext l d next h.decision hd,
    h.listOf_draft_of_ne (by decide) (by decide) (by decide) (by decide) hdraft]
  cases privilegesFile.listOf cluster tenant t with
  | error e => rfl
  | ok ps => exact congrArg (fun l => Lists.mk (.ok l) _) (hother ps).symm

theorem withoutKey_next {L : ListFile β} {want : String} {l next : List β}
    (h : (withoutKey L want l).next = some next) : next = l.filter fun b => L.key b ≠ want := by
  rw [withoutKey, ite_none_left_eq_some, some.injEq] at h
  exact h.2.symm

/-- **Each request is safe**, and its answer counts its commits. -/
theorem perimeterCall_safe (x : Platform) (cluster tenant : String) (h₀ : List (Commit Path Doc))
    (j : ℕ) (k : PerimeterCall) (w : World Path Doc) (hw : Has j 0 [] w) :
    Safe (approving x cluster tenant) ((requestsOf x cluster tenant h₀).spec PerimeterCall.proc
      (steady x cluster tenant)) j k (Answers j) (k.request.run x cluster tenant).run w := by
  have hsafe : AnswersSafe x cluster tenant h₀ j k (k.request.run x cluster tenant) w := by
    have hnone : ∀ {γ} {L : ListFile γ} {fn : List γ → Except Err (Decision γ)},
        (∀ l d, fn l = .ok d → d.check = none) → Respects L fn := by
      intro γ L fn hfn l d check hd hcheck
      rw [hfn l d hd] at hcheck
      cases hcheck
    obtain ⟨-, r⟩ := k
    cases r with
    | grantPrivilege g now =>
      rw [run]
      split_ifs
      · exact .throw (answers_error _ _ hw)
      · exact .throw (answers_error _ _ hw)
      · refine privileges_safe rfl (hnone ?_) ?_ (fun _ => rfl) trivial hw
        · rintro l _ ⟨⟩
          rfl
        · rintro l _ next ⟨⟩ ⟨⟩
          rfl
    | revokePrivilege install _ =>
      refine privileges_safe rfl (hnone ?_) ?_ (fun _ => rfl) trivial hw
      · rintro l _ ⟨⟩
        rfl
      · rintro l _ next ⟨⟩ hnext
        rw [withoutKey_next hnext]
        rfl
    | publishExposure e now =>
      rw [run]
      split
      · exact .throw (answers_error _ _ hw)
      · refine exposures_safe "" rfl (hnone ?_) ?_ (fun _ => rfl) trivial hw
        · rintro l d hd
          rw [publish] at hd
          split_ifs at hd
          cases hd
          rfl
        · rintro l d next hd hnext
          rw [publish] at hd
          split_ifs at hd
          cases hd
          cases hnext
          rfl
    | withdrawExposure install exposure =>
      refine exposures_safe "" rfl (hnone ?_) ?_ (fun _ => rfl) trivial hw
      · rintro l _ ⟨⟩
        rfl
      · rintro l _ next ⟨⟩ hnext
        rw [withoutKey_next hnext]
        rfl
    | setExposureAlias install exposure _ _ now =>
      rw [run]
      split_ifs
      · exact .throw (answers_error _ _ hw)
      · exact .throw (answers_error _ _ hw)
      · exact .throw (answers_error _ _ hw)
      · refine .bind (aliasTarget_safe (fun _ _ => trivial) hw (fun label _ hlabel h1 => ?_)
          answers_error)
        refine exposures_safe label rfl setAlias_respects (fun l d next hd hnext => ?_) (fun _ => rfl)
          hlabel h1
        rw [setAlias_next hd hnext, onExposures]
  exact hsafe.safe (fun _ _ => id) fun _ _ => id

end safe

/-! ### What is removed stays removed -/

/-- The request grants the privilege of a key. -/
def PerimeterRequest.Grants (key : String) : PerimeterRequest → Prop
  | .grantPrivilege g _ => g.key = key
  | _ => False

/-- The request publishes the entry of a key. -/
def PerimeterRequest.Publishes (key : String) : PerimeterRequest → Prop
  | .publishExposure e _ => e.key = key
  | _ => False

variable {r : PerimeterRequest} {key : String}

/-- Only a grant brings a key into the list. -/
theorem key_of_onPrivileges {l : List PrivilegeGrant} (hr : ¬r.Grants key)
    (hl : ∀ g ∈ l, g.key ≠ key) : ∀ g ∈ r.onPrivileges l, g.key ≠ key := by
  intro g hg
  cases r with
  | grantPrivilege new now =>
    rw [onPrivileges, mem_sorted, withGrant] at hg
    have hnew : (new.stated now).key ≠ key := hr
    split_ifs at hg
    · obtain ⟨g', hg', rfl⟩ := mem_map.1 hg
      split_ifs
      · exact hnew
      · exact hl g' hg'
    · rcases mem_append.1 hg with hg | hg
      · exact hl g hg
      · rw [mem_singleton.1 hg]
        exact hnew
  | revokePrivilege _ _ =>
    rw [onPrivileges, mem_sorted] at hg
    exact hl g (mem_filter.1 hg).1
  | _ => exact hl g hg

theorem key_review (e h : Exposure) : (e.review h).key = e.key := by
  rw [Exposure.review]
  split_ifs <;> rfl

theorem mem_reviewed {e : Exposure} {hs : List Exposure} {g : Exposure}
    (hg : g ∈ (reviewed e hs).1) : g.key = e.key ∨ g ∈ hs := by
  induction hs generalizing e with
  | nil => cases hg
  | cons h hs ih =>
    rw [reviewed] at hg
    split_ifs at hg
    · rcases mem_cons.1 hg with rfl | hg
      · exact .inl (key_review e h)
      · rcases ih hg with hkey | hmem
        · exact .inl (hkey.trans (key_review e h))
        · exact .inr (mem_cons_of_mem _ hmem)
    · rcases mem_cons.1 hg with rfl | hg
      · exact .inr mem_cons_self
      · exact (ih hg).imp id (mem_cons_of_mem _)

/-- Only a publication brings a key into the list. -/
theorem key_of_onExposures {label : String} {l : List Exposure} (hr : ¬r.Publishes key)
    (hl : ∀ e ∈ l, e.key ≠ key) : ∀ e ∈ r.onExposures label l, e.key ≠ key := by
  intro e he
  cases r with
  | publishExposure new now =>
    rw [onExposures, mem_sorted, withExposure] at he
    have hnew : (new.stated now).key ≠ key := hr
    have hreviewed : ∀ e ∈ (reviewed (new.stated now) l).1, e.key ≠ key := by
      intro e he
      rcases mem_reviewed he with hkey | hmem
      · rwa [hkey]
      · exact hl e hmem
    split_ifs at he
    · exact hreviewed e he
    · rcases mem_append.1 he with he | he
      · exact hreviewed e he
      · rw [mem_singleton.1 he]
        exact hnew
  | withdrawExposure install exposure =>
    rw [onExposures, mem_sorted] at he
    exact hl e (mem_filter.1 he).1
  | setExposureAlias install exposure _ _ now =>
    rw [onExposures, mem_sorted] at he
    rcases mem_setLast he with hmem | ⟨e', he', -, rfl⟩
    · exact hl e hmem
    · split_ifs
      · exact hl e' he'
      · exact hl e' he'
  | _ => exact hl e he

variable {x : Platform} {calls : List PerimeterCall} {h₀ newer older : List (Commit Path Doc)}
  {j : ℕ} {k : PerimeterCall} {t : Tree Doc} {install name : String}

/-- The newest commit is one call's. -/
theorem Replayed.newest (hauthors : ∀ c ∈ h₀, c.author = none) {c : Commit Path Doc}
    {h : List (Commit Path Doc)} (hj : ∃ c' ∈ c :: h, c'.author = some j)
    (hh : Replayed x cluster tenant calls h₀ (c :: h)) :
    ∃ i k label, c.author = some i ∧ calls[i]? = some k ∧ Replayed x cluster tenant calls h₀ h ∧
      listsOf cluster tenant c.tree = k.request.apply label (listsOf cluster tenant (tip h)) := by
  obtain ⟨c', hc', hauthor⟩ := hj
  generalize hg : c :: h = g at hh
  cases hh with
  | start =>
    rw [hg] at hc'
    rw [hauthors c' hc'] at hauthor
    cases hauthor
  | commit hh hi _ ht =>
    obtain ⟨rfl, rfl⟩ := cons.inj hg
    exact ⟨_, _, _, rfl, hi, hh, ht⟩

/-- What a commit makes true stays so until one that undoes it. -/
theorem Replayed.lasting {P : Lists → Prop} (hauthors : ∀ c ∈ h₀, c.author = none)
    (hh : Replayed x cluster tenant calls h₀ (newer ++ ⟨t, some j⟩ :: older))
    (hj : calls[j]? = some k) (hmade : ∀ label ls, P (k.request.apply label ls))
    (hkept : ∀ c ∈ newer, ∀ i k', c.author = some i → calls[i]? = some k' →
      ∀ label ls, P ls → P (k'.request.apply label ls)) :
    P (listsOf cluster tenant (tip (newer ++ ⟨t, some j⟩ :: older))) := by
  -- by induction on the commits since
  induction newer with
  | nil =>
    obtain ⟨i, k', label, hauthor, hi, -, ht⟩ :=
      Replayed.newest hauthors ⟨_, mem_cons_self, rfl⟩ hh
    obtain rfl : j = i := some.inj hauthor
    obtain rfl : k = k' := some.inj (hj.symm.trans hi)
    exact ht ▸ hmade label _
  | cons c newer ih =>
    obtain ⟨i, k', label, hauthor, hi, hrest, ht⟩ :=
      Replayed.newest hauthors ⟨⟨t, some j⟩, by simp, rfl⟩ hh
    have hbefore := ih hrest fun c hc => hkept c (mem_cons_of_mem _ hc)
    have hafter := hkept c mem_cons_self i k' hauthor hi label _ hbefore
    exact ht ▸ hafter

/-- No privilege of a key is in the list. -/
def Lists.NoPrivilege (key : String) (ls : Lists) : Prop :=
  ∀ l, ls.privileges = .ok l → ∀ g ∈ l, g.key ≠ key

/-- No entry of a key is in the list. -/
def Lists.NoExposure (key : String) (ls : Lists) : Prop :=
  ∀ l, ls.exposures = .ok l → ∀ e ∈ l, e.key ≠ key

/-- A revoked privilege is gone. -/
theorem noPrivilege_revoked (label : String) (ls : Lists) :
    ((PerimeterRequest.revokePrivilege install name).apply label ls).NoPrivilege
      (install ++ " " ++ name) := by
  intro l hl g hg
  obtain ⟨l0, -, rfl⟩ := map_eq_ok.1 hl
  rw [onPrivileges, mem_sorted] at hg
  simpa using (mem_filter.1 hg).2

/-- And stays so while it is not granted. -/
theorem noPrivilege_apply (hr : ¬r.Grants key) (label : String) (ls : Lists)
    (h : ls.NoPrivilege key) : (r.apply label ls).NoPrivilege key := by
  intro l hl
  obtain ⟨l0, hl0, rfl⟩ := map_eq_ok.1 hl
  exact key_of_onPrivileges hr (h l0 hl0)

/-- A withdrawn entry is gone. -/
theorem noExposure_withdrawn (label : String) (ls : Lists) :
    ((PerimeterRequest.withdrawExposure install name).apply label ls).NoExposure
      (install ++ " " ++ name) := by
  intro l hl e he
  obtain ⟨l0, -, rfl⟩ := map_eq_ok.1 hl
  rw [onExposures, mem_sorted] at he
  simpa using (mem_filter.1 he).2

/-- And stays so while it is not published. -/
theorem noExposure_apply (hr : ¬r.Publishes key) (label : String) (ls : Lists)
    (h : ls.NoExposure key) : (r.apply label ls).NoExposure key := by
  intro l hl
  obtain ⟨l0, hl0, rfl⟩ := map_eq_ok.1 hl
  exact key_of_onExposures hr (h l0 hl0)

/-! ### Nothing is lost -/

/-- Requests under way. -/
abbrev Approving :=
  Pool (World Path Doc) PerimeterCall (Op Path Doc) (Op.Ans Path Doc) (Except Err Result)

/-- What the requests have done to the remote: the lists are what they make of them
one after another, each answer says whether there is a commit, and what a revocation
or a withdrawal removed is there again only when it was approved again. -/
structure NothingLost (x : Platform) (cluster tenant : String) (h₀ : List (Commit Path Doc))
    (p : Approving) : Prop where
  replayed : Replayed x cluster tenant p.calls h₀ p.shared.remote
  changed : ∀ j res, p.answer j = some (.ok res) → res.changed = true →
    authored j p.shared.remote = 1
  unchanged : ∀ j res, p.answer j = some (.ok res) → res.changed = false →
    authored j p.shared.remote = 0
  failed : ∀ j e, p.answer j = some (.error e) → authored j p.shared.remote = 0
  revoked : ∀ newer older t j k install name,
    p.shared.remote = newer ++ ⟨t, some j⟩ :: older → p.calls[j]? = some k →
    k.request = .revokePrivilege install name →
    (∀ c ∈ newer, ∀ i k', c.author = some i → p.calls[i]? = some k' →
      ¬k'.request.Grants (install ++ " " ++ name)) →
    (listsOf cluster tenant (tip p.shared.remote)).NoPrivilege (install ++ " " ++ name)
  withdrawn : ∀ newer older t j k install name,
    p.shared.remote = newer ++ ⟨t, some j⟩ :: older → p.calls[j]? = some k →
    k.request = .withdrawExposure install name →
    (∀ c ∈ newer, ∀ i k', c.author = some i → p.calls[i]? = some k' →
      ¬k'.request.Publishes (install ++ " " ++ name)) →
    (listsOf cluster tenant (tip p.shared.remote)).NoExposure (install ++ " " ++ name)

/-- A tenant with one privilege. -/
def oneGrant : World Path Doc :=
  .start [⟨(FileTree.empty.set (tenantPath "one" "acme" "tenant.yaml")
    (.manifest ⟨"acme", "", ⟨false, []⟩, []⟩)).set (tenantPath "one" "acme" "privileges.yaml")
    (.privileges "acme" [⟨"shop", "net", "ops", "", "asked", "", ""⟩]), none⟩]

/-- A privilege is granted. -/
def grantChat : PerimeterCall :=
  ⟨0, .grantPrivilege ⟨"chat", "net", "ops", "", "asked", "", ""⟩ "noon"⟩

/-- Another is revoked. -/
def revokeShop : PerimeterCall := ⟨1, .revokePrivilege "shop" "net"⟩

/-- A platform that keeps no name and has nothing expire, and on which `on` is read as YAML does. -/
def anyPlatform : Platform :=
  ⟨fun _ => false, fun _ => true, fun _ => false, fun s => some (if s = "on" then "true" else s)⟩

/-- The list is read for the grant, the other process revokes, and the grant goes
on. -/
def revokedBetween : List (Move PerimeterCall (Fate Path Doc) ℕ) :=
  .begin grantChat :: .begin revokeShop :: replicate 8 (.run 0 .done) ++
    replicate 23 (.run 1 .done) ++ replicate 16 (.run 0 .done)

/-- A grant to the install `on`. -/
def grantOn : PerimeterCall :=
  ⟨0, .grantPrivilege ⟨"on", "net", "ops", "", "asked", "", ""⟩ "noon"⟩

/-- The revocation follows the grant that is in the remote. -/
def revokedAfter : List (Move PerimeterCall (Fate Path Doc) ℕ) :=
  .begin grantChat :: .begin revokeShop :: replicate 24 (.run 0 .done) ++
    replicate 23 (.run 1 .done)

end Gentian.Gitops
