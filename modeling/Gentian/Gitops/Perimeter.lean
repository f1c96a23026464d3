/-
# A tenant's approvals and published surfaces

`GrantPrivilege` and `RevokePrivilege` (`privileges.go`), `PublishExposure` and
`WithdrawExposure` (`exposures.go`) and `SetExposureAlias` (`exposure_alias.go`):
each reads a list of the tenant's through the freshness window, computes the next one and
writes it whole with `writeTenantFileLocked`, on a checkout that is synced again.

As long as a checkout that a call has read is synced only while the files it reads (`reads`)
are the remote's (`Steady`), it decides on the state it lands on (`rewriteList_safe`).
-/

import Gentian.Gitops.Docs

namespace Gentian.Gitops

open Threads Git GoStrings List Option FileTree

/-! ### The lists and what the calls make of them -/

/-- What is read of a text that was written without quotes, where `scalar` says what YAML makes of
a bare scalar; `none` is a file that does not parse. -/
def rereadText (scalar : String → Option String) (text : String) : Option String :=
  if text = "" then some "" else scalar text

/-- The texts of an entry that are written without quotes. -/
def PrivilegeGrant.texts (g : PrivilegeGrant) : List String :=
  [g.install, g.privilege, g.approver, g.approvedAt, g.expiresAt, g.digest]

/-- The texts of an entry that are written. -/
@[inherit_doc PrivilegeGrant.texts]
def Exposure.texts (e : Exposure) : List String :=
  [e.install, e.exposureName, e.kind, e.owner, e.expiresAt, e.reviewAt, e.publishedAt,
    e.lastReviewedBy, e.lastReviewedAt, e.apexAcknowledgedBy, e.apexAcknowledgedAt, e.aliasLabel,
    e.aliasSetBy, e.aliasSetAt]

/-- An entry as it is read once it is written. -/
def PrivilegeGrant.reread (scalar : String → Option String) (g : PrivilegeGrant) :
    Option PrivilegeGrant := do
  let install ← rereadText scalar g.install
  let privilege ← rereadText scalar g.privilege
  let approver ← rereadText scalar g.approver
  let approvedAt ← rereadText scalar g.approvedAt
  let expiresAt ← rereadText scalar g.expiresAt
  let digest ← rereadText scalar g.digest
  pure ⟨install, privilege, approver, approvedAt, g.reason, expiresAt, digest⟩

/-- An entry as it is read back. -/
@[inherit_doc PrivilegeGrant.reread]
def Exposure.reread (scalar : String → Option String) (e : Exposure) : Option Exposure := do
  let install ← rereadText scalar e.install
  let exposureName ← rereadText scalar e.exposureName
  let kind ← rereadText scalar e.kind
  let owner ← rereadText scalar e.owner
  let expiresAt ← rereadText scalar e.expiresAt
  let reviewAt ← rereadText scalar e.reviewAt
  let publishedAt ← rereadText scalar e.publishedAt
  let lastReviewedBy ← rereadText scalar e.lastReviewedBy
  let lastReviewedAt ← rereadText scalar e.lastReviewedAt
  let apexAcknowledgedBy ← rereadText scalar e.apexAcknowledgedBy
  -- who set an alias, or acknowledged the main address, is written with it or not at all
  let apexAcknowledgedAt ← rereadText scalar
    (if e.apexAcknowledgedBy = "" then "" else e.apexAcknowledgedAt)
  let aliasLabel ← rereadText scalar e.aliasLabel
  let aliasSetBy ← rereadText scalar (if e.aliasLabel = "" then "" else e.aliasSetBy)
  let aliasSetAt ← rereadText scalar (if e.aliasLabel = "" then "" else e.aliasSetAt)
  pure ⟨install, exposureName, kind, owner, expiresAt, reviewAt, e.reason, publishedAt,
    lastReviewedBy, lastReviewedAt, e.apex, apexAcknowledgedBy, apexAcknowledgedAt, aliasLabel,
    aliasSetBy, aliasSetAt⟩

/-- A list kept in a file beside a tenant's manifest: the file's name, how it is
read, what is written, and an entry as it is read once it is written.  The written list is sorted
by key. -/
structure ListFile (β : Type) where
  file : String
  read : Doc → Except Err (List β)
  key : β → String
  doc : String → List β → Doc
  reread : (String → Option String) → β → Option β

/-- A list in the order of its keys. -/
def ListFile.sorted {β : Type} (L : ListFile β) (l : List β) : List β :=
  l.insertionSort fun a b => L.key a ≤ L.key b

/-- `renderPrivileges` and `renderExposures`, as they are read again; a list with no entry is the
absence of the file. -/
def ListFile.render {β : Type} (L : ListFile β) (scalar : String → Option String) (tenant : String)
    (l : List β) : Option Doc :=
  if l.isEmpty then none
  else some (((L.sorted l).mapM (L.reread scalar)).elim (.other "") (L.doc tenant))

/-- The file of privileges. -/
def privilegesFile : ListFile PrivilegeGrant :=
  ⟨"privileges.yaml", Doc.readPrivileges, PrivilegeGrant.key, .privileges,
    PrivilegeGrant.reread⟩

/-- The file of published entries. -/
def exposuresFile : ListFile Exposure :=
  ⟨"exposures.yaml", Doc.readExposures, Exposure.key, .exposures, Exposure.reread⟩

/-- The list beside a manifest, empty where there is no file. -/
def ListFile.listIn {β : Type} (L : ListFile β) (t : Tree Doc) (manifest : Path) :
    Except Err (List β) :=
  match t.get (manifest.dropLast ++ [L.file]) with
  | none => .ok []
  | some d => L.read d

/-- What a call decides of the list it read: what it asks of the other files before
it goes on, and the next list, if anything is to change. -/
structure Decision (β : Type) where
  check : Option (Tree Doc → Path → Except Err Unit)
  next : Option (List β)

/-- The list of `GrantPrivilege`: the grant in place of one with its key, or at the
end. -/
def withGrant (grant : PrivilegeGrant) (have_ : List PrivilegeGrant) : List PrivilegeGrant :=
  if have_.any fun h => h.key = grant.key then
    have_.map fun h => if h.key = grant.key then grant else h
  else have_ ++ [grant]

/-- A list without the entries of a key, if there is one. -/
def withoutKey {β : Type} (L : ListFile β) (want : String) (have_ : List β) : Decision β :=
  let next := have_.filter fun h => L.key h ≠ want
  ⟨none, if next.length = have_.length then none else some next⟩

/-- The kind of an entry behind the sign-in. -/
def kindSignInAppAuthorization : String := "signInAppAuthorization"

/-- What a new statement of an entry keeps of the old one. -/
def Exposure.review (e h : Exposure) : Exposure :=
  let e := { e with owner := h.owner, publishedAt := h.publishedAt }
  if e.kind ≠ kindSignInAppAuthorization && !e.apex then
    { e with aliasLabel := h.aliasLabel, aliasSetBy := h.aliasSetBy, aliasSetAt := h.aliasSetAt }
  else e

/-- The loop of `PublishExposure` over the entries: the list, and whether an entry
was replaced. -/
def reviewed : Exposure → List Exposure → List Exposure × Bool
  | _, [] => ([], false)
  | e, h :: hs =>
    if h.key = e.key then (e.review h :: (reviewed (e.review h) hs).1, true)
    else (h :: (reviewed e hs).1, (reviewed e hs).2)

/-- The entry as `PublishExposure` records it at the time `now`. -/
def Exposure.stated (e : Exposure) (now : String) : Exposure :=
  { e with
    lastReviewedBy := e.owner
    lastReviewedAt := now
    aliasLabel := ""
    aliasSetBy := ""
    aliasSetAt := ""
    apexAcknowledgedBy := if e.apex then e.apexAcknowledgedBy else ""
    apexAcknowledgedAt := if e.apex then now else "" }

/-- The list of `PublishExposure`. -/
def withExposure (e : Exposure) (now : String) (have_ : List Exposure) : List Exposure :=
  let r := reviewed (e.stated now) have_
  if r.2 then r.1 else r.1 ++ [{ e.stated now with publishedAt := now }]

/-- `Exposure.live`; `expired` says which expiry dates are times that have come. -/
def Exposure.live (e : Exposure) (expired : String → Bool) : Bool :=
  e.expiresAt = "" || !expired e.expiresAt

/-- The last entry of a key. -/
def lastWith (want : String) (have_ : List Exposure) : Option Exposure :=
  have_.reverse.find? fun e => e.key = want

/-- The last entry of a key changed. -/
def setLast (want : String) (f : Exposure → Exposure) : List Exposure → List Exposure
  | [] => []
  | e :: es =>
    if es.any fun e => e.key = want then e :: setLast want f es
    else if e.key = want then f e :: es
    else e :: es

/-- The files of one name in the directories directly under `dir`, each with the name
of its directory. -/
def filesIn (t : Tree Doc) (dir : Path) (file : String) : List (String × Doc) :=
  t.entries.filterMap fun f =>
    if dir.isPrefixOf f.1 then
      match f.1.drop dir.length with
      | [name, base] => if base = file then some (name, f.2) else none
      | _ => none
    else none

/-- The aliases of one tenant's exposures beside the others': the label, the
directory's name and the key of the entry. -/
def heldWith (f : String × Doc) (rest : Except Err (List (String × String × String))) :
    Except Err (List (String × String × String)) := do
  let entries ← f.2.readExposures
  let held ← rest
  pure ((entries.filter fun e => e.aliasLabel ≠ "").map
    (fun e => (e.aliasLabel, f.1, e.key)) ++ held)

/-- `aliasesHeld`: the aliases that the exposures in a tenants directory hold, in the
order they are read. -/
def aliasesHeld (t : Tree Doc) (dir : Path) : Except Err (List (String × String × String)) :=
  (filesIn t dir exposuresFile.file).foldr heldWith (pure [])

/-- The checks `SetExposureAlias` makes on the other tenants' files: no tenant is
called the label, and no other surface holds it. -/
def aliasFree (tenant want label : String) (t : Tree Doc) (manifest : Path) : Except Err Unit :=
  let tenants := manifest.dropLast.dropLast
  if (t.get (tenants ++ [label, "tenant.yaml"])).isSome then
    .error (.said "the address is already in use")
  else do
    let held ← aliasesHeld t tenants
    match held.reverse.find? fun a => a.1 = label with
    | none => pure ()
    | some a => if a.2 = (tenant, want) then pure () else
        throw (.said "the address is already in use")

/-- What `SetExposureAlias` decides of the tenant's exposures; the empty label
takes the alias away. -/
def setAlias (tenant want label subject now : String) (expired : String → Bool)
    (have_ : List Exposure) : Except Err (Decision Exposure) :=
  match lastWith want have_ with
  | none => if label = "" then .ok ⟨none, none⟩ else .error (.said "the surface is not published")
  | some e =>
    if label = "" then
      .ok ⟨none, if e.aliasLabel = "" then none else some (setLast want (fun e =>
        { e with aliasLabel := "", aliasSetBy := "", aliasSetAt := "" }) have_)⟩
    else if !e.live expired then .error (.said "the surface is not published")
    else if e.kind = kindSignInAppAuthorization then .error (.said "the surface is not published")
    else if e.apex then .error (.said "invalid alias")
    else .ok ⟨some (aliasFree tenant want label), if e.aliasLabel = label then none else
      some (setLast want (fun e =>
        { e with aliasLabel := label, aliasSetBy := subject, aliasSetAt := now }) have_)⟩

/-! ### The calls -/

/-- What a decision asks of the other files, which are read anew. -/
def askFirst (cluster tenant : String) : Option (Tree Doc → Path → Except Err Unit) → Run Doc Unit
  | none => pure ()
  | some check => do
    let manifest ← tenantFileWithin cluster tenant readFreshness
    let t ← readTree
    match check t manifest with
    | .error e => throw e
    | .ok () => pure ()

/-- A list that is rewritten: read through the freshness window, asked about, and
written on a checkout that is synced again. -/
def rewriteList {β : Type} (scalar : String → Option String) (L : ListFile β)
    (cluster tenant : String)
    (fn : List β → Except Err (Decision β)) : Run Doc Result := do
  let manifest ← tenantFileWithin cluster tenant readFreshness
  let t ← readTree
  match (L.listIn t manifest).bind fn with
  | .error e => throw e
  | .ok d => do
    askFirst cluster tenant d.check
    match d.next with
    | none => pure (unchanged "unchanged")
    | some next => writeTenantFileLocked cluster tenant L.file (L.render scalar tenant next) .patch

/-- `hostnames.Kept`, the platform's table of names, the times of a request (which texts are
RFC 3339 timestamps and which of those have come), and what YAML reads of a bare scalar. -/
structure Platform where
  kept : String → Bool
  timestamp : String → Bool
  expired : String → Bool
  scalar : String → Option String

/-- `aliasLabelPattern.MatchString`. -/
def isAliasLabel (label : String) : Bool :=
  match label.toList, label.toList.getLast? with
  | c :: _, some l => Api.isLabelEnd c && Api.isLabelEnd l && label.toList.all Api.isLabelChar
  | _, _ => false

/-- `AliasLabel`: the label that a host asks for. -/
def aliasLabel (x : Platform) (host kernel : String) : Except Err String :=
  let host := toLower (trimSuffix (trimSpace host) ".")
  let label := trimSuffix host ("." ++ kernel)
  if label = host || label = "" || decide (label.toList.length > 63) || !isAliasLabel label then
    .error (.said "invalid alias")
  else if x.kept label then .error (.said "invalid alias")
  else .ok label

/-- `lookupPath` of one setting. -/
def Claim.setting (c : Claim) (path : String) : String :=
  ((c.settings.find? fun s => s.1 = path).map Prod.snd).getD ""

/-- `readClusterClaim`. -/
def readClusterClaim (cluster : String) : Run Doc Claim := do
  let t ← locked do
    ensureRepoRead
    readTree
  match t.get (claimPath cluster) with
  | none => throw .noClusterClaim
  | some (.claim c) => pure c
  | some (.other _) => throw (.said "parse cluster claim")
  | some _ => pure ⟨"", [], []⟩

/-- What `SetExposureAlias` asks before it takes the lock: the label the host
stands for. -/
def aliasTarget (x : Platform) (cluster host : String) : Run Doc String :=
  if trimSpace host = "" then pure ""
  else do
    let kernel ← readClusterClaim cluster
    if kernel.kernelDomain = "" then throw .noClusterClaim
    else match aliasLabel x host kernel.kernelDomain with
      | .error e => throw e
      | .ok label => do
        match ← (readClusterClaim cluster).attempt with
        | .ok c =>
          if Api.isSingle (c.setting "tenancyMode") then throw (.said "invalid alias")
          else pure label
        | .error .noClusterClaim => pure label
        | .error e => throw e

/-- The requests on a tenant's privileges and published entries. -/
inductive PerimeterRequest where
  | grantPrivilege (grant : PrivilegeGrant) (now : String)
  | revokePrivilege (install privilege : String)
  | publishExposure (e : Exposure) (now : String)
  | withdrawExposure (install exposure : String)
  | setExposureAlias (install exposure host subject now : String)
deriving DecidableEq

/-- `KindPublic` and `KindPublicAppCredential`. -/
def kindPublic : String := "public"

/-- The kind of an entry that the app itself guards. -/
@[inherit_doc kindPublic]
def kindPublicAppCredential : String := "publicAppCredential"

/-- `validKind`. -/
def validKind (kind : String) : Bool :=
  kind = "" || kind = kindPublic || kind = kindPublicAppCredential ||
    kind = kindSignInAppAuthorization

/-- The checks of `PublishExposure` before it reads anything. -/
def Exposure.check (x : Platform) (e : Exposure) : Except Err Unit :=
  if !validName e.install then .error (.invalidName "install" e.install)
  else if !validName e.exposureName then .error (.invalidName "exposure" e.exposureName)
  else if e.owner = "" then .error (.said "an exposure needs an owner")
  else if !validKind e.kind then .error (.invalidName "kind" e.kind)
  else if e.apex && e.kind ≠ "" && e.kind ≠ kindPublic then
    .error (.said "the cluster's main address is for a public address that passes no credential on")
  else if e.reviewAt = "" then
    .error (.said "an exposure needs a review date: what is public is looked at again")
  else if !x.timestamp e.reviewAt then .error (.said "reviewAt must be an RFC 3339 timestamp")
  else if e.expiresAt ≠ "" && !x.timestamp e.expiresAt then
    .error (.said "expiresAt must be an RFC 3339 timestamp")
  else if e.apex && e.apexAcknowledgedBy = "" then .error (.said
    "a website on the cluster's main address needs the approver's acknowledgement of the rule for it")
  else .ok ()

/-- The approval `GrantPrivilege` records. -/
def PrivilegeGrant.stated (g : PrivilegeGrant) (now : String) : PrivilegeGrant :=
  { g with approvedAt := if g.approvedAt = "" then now else g.approvedAt }

/-- What `PublishExposure` decides: one surface holds the main address at a time. -/
def publish (x : Platform) (e : Exposure) (now : String) (have_ : List Exposure) :
    Except Err (Decision Exposure) :=
  if e.apex && have_.any fun h => h.apex && h.key ≠ e.key && h.live x.expired then
    .error (.said "the cluster's main address is already held")
  else .ok ⟨none, some (withExposure e now have_)⟩

/-- The program of a request for one tenant of one cluster. -/
def PerimeterRequest.run (x : Platform) (cluster tenant : String) :
    PerimeterRequest → Run Doc Result
  | .grantPrivilege g now =>
    if !validName g.install then throw (.invalidName "install" g.install)
    else if g.privilege = "" || g.approver = "" || trimSpace g.reason = "" then
      throw (.said "a grant needs a privilege, an approver and a reason")
    else locked (rewriteList x.scalar privilegesFile cluster tenant fun have_ =>
      .ok ⟨none, some (withGrant (g.stated now) have_)⟩)
  | .revokePrivilege install privilege =>
    locked (rewriteList x.scalar privilegesFile cluster tenant fun have_ =>
      .ok (withoutKey privilegesFile (install ++ " " ++ privilege) have_))
  | .publishExposure e now =>
    match e.check x with
    | .error e => throw e
    | .ok () => locked (rewriteList x.scalar exposuresFile cluster tenant (publish x e now))
  | .withdrawExposure install exposure =>
    locked (rewriteList x.scalar exposuresFile cluster tenant fun have_ =>
      .ok (withoutKey exposuresFile (install ++ " " ++ exposure) have_))
  | .setExposureAlias install exposure host subject now =>
    if !Api.validTenantName tenant then throw (.invalidName "tenant" tenant)
    else if !validName install then throw (.invalidName "install" install)
    else if !validName exposure then throw (.invalidName "exposure" exposure)
    else do
      let label ← aliasTarget x cluster host
      locked (rewriteList x.scalar exposuresFile cluster tenant
        (setAlias tenant (install ++ " " ++ exposure) label subject now x.expired))

/-! ### What a decision depends on -/

/-- The files that a call about one list reads: every manifest, and the list's file
in every directory. -/
def reads (file : String) (p : Path) : Bool :=
  p.getLast? = some "tenant.yaml" || p.getLast? = some file

variable {β : Type} {L : ListFile β} {cluster tenant : String}
  {fn : List β → Except Err (Decision β)} {t t' : Tree Doc}

theorem manifestPath_of_reads {file : String} (h : t.keep (reads file) = t'.keep (reads file)) :
    manifestPath t cluster tenant = manifestPath t' cluster tenant := by
  have hpreferred := get_of_keep_eq h
    (p := tenantPath cluster tenant "tenant.yaml") (by simp [reads, tenantPath])
  have hfind := find?_of_keep_eq (q := fun e => (tenantsDir cluster).isPrefixOf e.1 &&
    decide (e.1.getLast? = some "tenant.yaml") && Content.declares e.2 tenant) (fun e he => by
      simp only [Bool.and_eq_true] at he
      simp [reads, he.1.2]) h
  simp [manifestPath, hpreferred, hfind]

/-- A list depends on the files that are read alone. -/
theorem listIn_of_reads (h : t.keep (reads L.file) = t'.keep (reads L.file)) (manifest : Path) :
    L.listIn t manifest = L.listIn t' manifest := by
  have hget := get_of_keep_eq h (p := manifest.dropLast ++ [L.file]) (by simp [reads])
  rw [ListFile.listIn, ListFile.listIn, hget]

theorem aliasesHeld_of_reads
    (h : t.keep (reads exposuresFile.file) = t'.keep (reads exposuresFile.file))
    (dir : Path) : aliasesHeld t dir = aliasesHeld t' dir := by
  have hfiles : filesIn t dir exposuresFile.file = filesIn t' dir exposuresFile.file := by
    refine filterMap_of_keep_eq (fun e he => ?_) h
    split_ifs
    · split
      next _ file hdrop =>
        rw [if_neg]
        rintro rfl
        have hlast : e.1.getLast? = some exposuresFile.file := by
          rw [← take_append_drop dir.length e.1, hdrop]
          simp
        simp [reads, hlast] at he
      · rfl
    · rfl
  rw [aliasesHeld, aliasesHeld, hfiles]

/-- What a call decides of one tree: this next list of the tenant with this
manifest. -/
structure Decides (L : ListFile β) (cluster tenant : String)
    (fn : List β → Except Err (Decision β)) (t : Tree Doc) (manifest : Path) (have_ : List β)
    (d : Decision β) : Prop where
  found : manifestPath t cluster tenant = some manifest
  listed : L.listIn t manifest = .ok have_
  decision : fn have_ = .ok d
  checked : ∀ c, d.check = some c → c t manifest = .ok ()

/-- The checks of a decision read the files that the call reads. -/
def Respects (L : ListFile β) (fn : List β → Except Err (Decision β)) : Prop :=
  ∀ l d check, fn l = .ok d → d.check = some check → ∀ t t' manifest,
    t.keep (reads L.file) = t'.keep (reads L.file) → check t manifest = check t' manifest

variable {l : List Exposure} {label now subject want : String} {expired : String → Bool}

/-- So does an alias. -/
theorem setAlias_respects :
    Respects exposuresFile (setAlias tenant want label subject now expired) := by
  have hfree : ∀ t t' manifest,
      t.keep (reads exposuresFile.file) = t'.keep (reads exposuresFile.file) →
      aliasFree tenant want label t manifest = aliasFree tenant want label t' manifest := by
    intro t t' manifest h
    have hget := get_of_keep_eq h
      (p := manifest.dropLast.dropLast ++ [label, "tenant.yaml"]) (by simp [reads])
    simp [aliasFree, hget, aliasesHeld_of_reads h]
  intro l d _ hd hcheck
  rw [setAlias] at hd
  split at hd
  · split_ifs at hd
    cases hd
    cases hcheck
  · split_ifs at hd
    · cases hd
      cases hcheck
    · cases hd
      cases hcheck
    · cases hd
      cases hcheck
      exact hfree
    · cases hd
      cases hcheck
      exact hfree

/-- What an alias makes of the list. -/
theorem setAlias_next {next : List Exposure} {d : Decision Exposure}
    (hd : setAlias tenant want label subject now expired l = .ok d) (hnext : d.next = some next) :
    next = setLast want (fun e =>
      if label = "" then { e with aliasLabel := "", aliasSetBy := "", aliasSetAt := "" }
      else { e with aliasLabel := label, aliasSetBy := subject, aliasSetAt := now }) l := by
  rw [setAlias] at hd
  split at hd
  · split_ifs at hd
    cases hd
    cases hnext
  · split_ifs at hd with hlabel hsame hlive hkind hapex hsame
    · cases hd
      cases hnext
    · cases hd
      rw [hlabel]
      exact (some.inj hnext).symm
    · cases hd
      cases hnext
    · cases hd
      simp only [hlabel]
      exact (some.inj hnext).symm

theorem mem_sorted {l : List β} {b : β} : b ∈ L.sorted l ↔ b ∈ l :=
  mem_insertionSort _

/-- Only the entry of the key is changed. -/
theorem mem_setLast {f : Exposure → Exposure} {g : Exposure}
    (hg : g ∈ setLast want f l) : g ∈ l ∨ ∃ e ∈ l, e.key = want ∧ g = f e := by
  induction l with
  | nil => cases hg
  | cons e _ ih =>
    rw [setLast] at hg
    split_ifs at hg with hmore hkey
    · rcases mem_cons.1 hg with rfl | hg
      · exact .inl mem_cons_self
      · rcases ih hg with hmem | ⟨e', he', hrest⟩
        · exact .inl (mem_cons_of_mem _ hmem)
        · exact .inr ⟨e', mem_cons_of_mem _ he', hrest⟩
    · rcases mem_cons.1 hg with rfl | hg
      · exact .inr ⟨e, mem_cons_self, hkey, rfl⟩
      · exact .inl (mem_cons_of_mem _ hg)
    · exact .inl hg

/-! ### A list that is rewritten -/

/-- Call `j` holds the lock of process `p`, has read its checkout, and the checkout
says in the files `R` what `t` says. -/
def Saw (j p n : ℕ) (R : Path → Bool) (t : Tree Doc) (w : World Path Doc) : Prop :=
  ∃ c h, At j p c n h w ∧ c.seen = true ∧ c.work.keep R = t.keep R

theorem Saw.locked {j p n : ℕ} {R : Path → Bool} {w : World Path Doc} (h : Saw j p n R t w) :
    Locked j p n w :=
  let ⟨_, _, ha, _⟩ := h
  locked_of_at ha

section specs

variable {κ α : Type} {K : Keeps κ Path Doc} {proc : κ → ℕ}
  {code : κ → Prog (Op Path Doc) (Op.Ans Path Doc) α}
  {cond : ℕ → κ → Op Path Doc → Fate Path Doc → List κ → World Path Doc → Prop} {j n : ℕ} {k : κ}
  {c : Clone Path Doc} {h : List (Commit Path Doc)} {w : World Path Doc} {R : Path → Bool}
  {E : Err → World Path Doc → Prop} {file : String}

/-- A checkout that the call has read is synced only while it still says what the
remote says. -/
def Steady (cond : ℕ → κ → Op Path Doc → Fate Path Doc → List κ → World Path Doc → Prop) (p j : ℕ)
    (k : κ) (R : Path → Bool) : Prop :=
  ∀ f calls w, cond j k (.on .fetch) f calls w → (w.clones p).seen = true →
    (w.clones p).work.keep R = (tip w.remote).keep R

/-- The rule of the read of a manifest. -/
theorem tenantFileRead_safe {P : Tree Doc → Prop} {Q : Path → World Path Doc → Prop}
    (hcond : Steady cond (proc k) j k R) (ha : At j (proc k) c n h w) (hP : P c.work)
    (hseen : c.seen ∨ ∀ t, P t) (hclosed : ∀ t t', t.keep R = t'.keep R → P t → P t')
    (hQ : ∀ t file w', manifestPath t cluster tenant = some file → P t →
      Saw j (proc k) n R t w' → Q file w')
    (hE : ∀ e w', Locked j (proc k) n w' → E e w') :
    K.SafeE proc code cond j k Q E (tenantFileWithin cluster tenant readFreshness) w := by
  have hread : ∀ (c : Clone Path Doc) h w, At j (proc k) c n h w → P c.work →
      K.SafeE proc code cond j k Q E (findManifest cluster tenant) w := by
    intro c h w ha hP
    refine .bind (readTree_safe ha (fun w1 ha1 => ?_) fun w1 ha1 => hE _ _ (locked_of_at ha1))
    split
    next hfile =>
      exact .pure (hQ c.work _ w1 hfile hP ⟨_, h, ha1, rfl, rfl⟩)
    · exact .throw (hE _ _ (locked_of_at ha1))
  rw [tenantFileWithin]
  split_ifs
  · refine .bind (ensureRepoRead_cond ha (fun w1 ha1 => hread c h w1 ha1 hP)
      (fun _ w1 c' w' hc hclone _ hat ha' _ => ?_) hE)
    refine hread c' _ w' ha' ?_
    rw [hat.work]
    rcases hseen with hseen | hall
    · -- what was read is what the remote says
      have heq := hcond _ _ _ hc (by rw [hclone, hseen])
      rw [hclone] at heq
      exact hclosed _ _ heq hP
    · exact hall _
  · exact .throw (hE _ _ (locked_of_at ha))

/-- What is read again is what was seen. -/
theorem readSaw_safe {Q : Tree Doc → World Path Doc → Prop} (hw : Saw j (proc k) n R t w)
    (hQ : ∀ t' w', t'.keep R = t.keep R → Saw j (proc k) n R t w' → Q t' w')
    (hE : ∀ w', Locked j (proc k) n w' → E .io w') : K.SafeE proc code cond j k Q E readTree w := by
  obtain ⟨c, h, ha, -, hk⟩ := hw
  exact readTree_safe ha (fun w1 ha1 => hQ c.work w1 hk ⟨_, h, ha1, rfl, hk⟩) fun w1 ha1 =>
    hE _ (locked_of_at ha1)

/-- **The write goes on a state that says what was read.** -/
theorem writeTenantFile_safe {name : String} {body : Option Doc} {list : KustomizationList}
    (hcond : Steady cond (proc k) j k (reads file)) (hw : Saw j (proc k) n (reads file) t w)
    (hkeep : ∀ h manifest, (tip h).keep (reads file) = t.keep (reads file) →
      manifestPath (tip h) cluster tenant = some manifest → ∀ d,
      tenantFilePlan (tip h) manifest name body list = .draft d → d.tree (tip h) ≠ tip h ∧
      K.Takes cond j k h (d.tree (tip h))) :
    Counted K proc code cond j n k (Counts False (Lossy cond j k))
      (writeTenantFileLocked cluster tenant name body list) w := by
  obtain ⟨c, h, ha, hs, hk⟩ := hw
  rw [writeTenantFileLocked, tenantFileWithin]
  split_ifs
  · refine .bind (.bind (sync_cond ha (fun _ w1 c' w2 hc hclone _ hat ha' hn => ?_) ends_error))
    have heq := hcond _ _ _ hc (by rw [hclone, hs])
    rw [hclone, hk] at heq
    have hedit : Edited j (proc k) n w1.remote (tip w1.remote) w2 :=
      ⟨c', ⟨ha', hn⟩, hat.upstream, hat.head, hat.index, hat.work⟩
    refine .bind (readSynced_safe hedit (fun w3 hedit => ?_) (ends_error _))
    split
    next manifest hmanifest =>
      refine .pure (.bind (readSynced_safe hedit (fun w4 hedit => ?_) (ends_error _)))
      have hdraft := hkeep w1.remote manifest heq.symm hmanifest
      have hidle : ¬Idle (.ok (tenantFilePlan (tip w1.remote) manifest name body list))
          (tip w1.remote) := by
        rintro ⟨d, hd, hsame⟩
        exact (hdraft d (Except.ok.inj hd)).1 hsame
      refine (finish_safe hedit fun d hd => (hdraft d (Except.ok.inj hd)).2).mono ?_ ?_
      · rintro a w ⟨m, hm, hc⟩
        exact ⟨m, hm, by simpa [hidle] using hc⟩
      · rintro e w ⟨m, hm, hc⟩
        exact ⟨m, hm, hc⟩
    · exact .throw (ends_error _ _ hedit.locked)
  · exact .throw (ends_error _ _ (locked_of_at ha))

theorem readClusterClaim_safe {Q : Claim → World Path Doc → Prop} (hK : ∀ h c, K.resting h c)
    (hw : Has j n [] w) (hQ : ∀ c w', Has j n [] w' → Q c w')
    (hE : ∀ e w', Has j n [] w' → E e w') :
    K.SafeE proc code cond j k Q E (readClusterClaim cluster) w := by
  refine .bind (lockedRead_safe hK hw (fun t _ _ h1 => ?_) hE)
  split
  · exact .throw (hE _ _ h1)
  · exact .pure (hQ _ _ h1)
  · exact .throw (hE _ _ h1)
  · exact .pure (hQ _ _ h1)

/-- The label is that of the host under some domain. -/
theorem aliasTarget_safe {x : Platform} {host : String} {Q : String → World Path Doc → Prop}
    (hK : ∀ h c, K.resting h c) (hw : Has j n [] w)
    (hQ : ∀ label w', ((trimSpace host = "" ∧ label = "") ∨
      ∃ kernel, aliasLabel x host kernel = .ok label) → Has j n [] w' → Q label w')
    (hE : ∀ e w', Has j n [] w' → E e w') :
    K.SafeE proc code cond j k Q E (aliasTarget x cluster host) w := by
  rw [aliasTarget]
  split
  next hhost =>
    exact .pure (hQ _ _ (.inl ⟨hhost, rfl⟩) hw)
  · refine .bind (readClusterClaim_safe hK hw (fun c _ h1 => ?_) hE)
    split_ifs
    · exact .throw (hE _ _ h1)
    · split
      · exact .throw (hE _ _ h1)
      next label hlabel =>
        have hnames : ∃ kernel, aliasLabel x host kernel = .ok label := ⟨_, hlabel⟩
        refine .bind (.attempt (readClusterClaim_safe hK h1 (fun c w2 h2 => ?_) fun e w2 h2 => ?_))
        · cases hsingle : Api.isSingle (c.setting "tenancyMode") with
          | true =>
            simp only [hsingle]
            exact .throw (hE _ _ h2)
          | false =>
            simp only [hsingle]
            exact .pure (hQ _ _ (.inr hnames) h2)
        · split
          next heq =>
            cases heq
          · exact .pure (hQ _ _ (.inr hnames) h2)
          · exact .throw (hE _ _ h2)

/-- The rule of the check before the write. -/
theorem askFirst_safe {check : Option (Tree Doc → Path → Except Err Unit)}
    {Q : Unit → World Path Doc → Prop} (hcond : Steady cond (proc k) j k (reads file))
    (hcheck : ∀ c, check = some c → ∀ t t' manifest,
      t.keep (reads file) = t'.keep (reads file) → c t manifest = c t' manifest)
    (hw : Saw j (proc k) n (reads file) t w)
    (hQ : ∀ w', (∀ c manifest, check = some c → manifestPath t cluster tenant = some manifest →
      c t manifest = .ok ()) → Saw j (proc k) n (reads file) t w' → Q () w')
    (hE : ∀ e w', Locked j (proc k) n w' → E e w') :
    K.SafeE proc code cond j k Q E (askFirst cluster tenant check) w := by
  cases check with
  | none => exact .pure (hQ w (nofun) hw)
  | some check =>
    obtain ⟨c, h, ha, hs, hk⟩ := hw
    refine .bind (tenantFileRead_safe hcond ha hk (.inl hs) (fun u u' huu hu => huu.symm.trans hu)
      (fun u manifest _ hmanifest hu hsaw => ?_) hE)
    refine .bind (readSaw_safe hsaw (fun u' w2 hu' hsaw => ?_) fun w2 h2 => hE _ _ h2)
    have hsaw' : Saw j (proc k) n (reads file) t w2 := by
      obtain ⟨c, h, ha, hs, hk⟩ := hsaw
      exact ⟨c, h, ha, hs, hk.trans hu⟩
    split
    · exact .throw (hE _ _ hsaw'.locked)
    next hok =>
      refine .pure (hQ w2 (fun c m hc hm => ?_) hsaw')
      obtain rfl := some.inj hc
      rw [manifestPath_of_reads hu, hm] at hmanifest
      obtain rfl := some.inj hmanifest
      rw [← hcheck check rfl u' t m (hu'.trans hu)]
      exact hok

/-- **A call rewrites the list of the state it lands on**, as it decides on that
state. -/
theorem rewriteList_safe {scalar : String → Option String}
    (hfile : L.file ≠ "kustomization.yaml") (hfn : Respects L fn)
    (hcond : Steady cond (proc k) j k (reads L.file)) (hw : Locked j (proc k) n w)
    (hkeep : ∀ h manifest l d next, Decides L cluster tenant fn (tip h) manifest l d →
      d.next = some next → ∀ draft,
      tenantFilePlan (tip h) manifest L.file (L.render scalar tenant next) .patch = .draft draft →
      K.Takes cond j k h (draft.tree (tip h))) :
    Counted K proc code cond j n k (Counts False (Lossy cond j k))
      (rewriteList scalar L cluster tenant fn) w := by
  obtain ⟨c, ha⟩ := hw
  refine .bind (tenantFileRead_safe hcond ha trivial
    (.inr fun _ => trivial) (fun _ _ _ _ => trivial)
    (fun t manifest _ hmanifest _ hsaw => ?_) ends_error)
  refine .bind (readSaw_safe hsaw (fun _ _ ht' hsaw => ?_) (ends_error _))
  rw [listIn_of_reads ht']
  cases hlist : L.listIn t manifest with
  | error e => exact .throw (ends_error _ _ hsaw.locked)
  | ok l =>
    show SafeE _ _ _ _ _ _ (match fn l with
      | .error e => _
      | .ok d => _) _
    cases hd : fn l with
    | error e => exact .throw (ends_error _ _ hsaw.locked)
    | ok d =>
      refine .bind (askFirst_safe hcond (fun c hc => hfn l d c hd hc) hsaw
        (fun _ hasked hsaw => ?_) ends_error)
      cases hnext : d.next with
      | none => exact .pure ⟨0, hsaw.locked, by simp [Counts, unchanged]⟩
      | some next =>
        refine writeTenantFile_safe hcond hsaw fun h manifest' hk hm' draft hdraft => ?_
        -- the call decides the same on the state it lands on
        have hm : manifestPath (tip h) cluster tenant = manifestPath t cluster tenant :=
          manifestPath_of_reads hk
        rw [hm', hmanifest] at hm
        obtain rfl := some.inj hm
        refine ⟨tenantFilePlan_tree_ne hfile hdraft, hkeep h _ l d next ?_ hnext draft hdraft⟩
        refine ⟨hm', (listIn_of_reads hk _).trans hlist, hd, fun c hc => ?_⟩
        exact (hfn l d c hd hc _ _ manifest' hk).trans (hasked c manifest' hc hmanifest)

end specs

/-! ### The lists after a commit -/

section lists

variable {manifest : Path} {name : String} {d : Draft Doc} {body : Option Doc}
  {list : KustomizationList}

/-- A draft moves no manifest. -/
theorem manifestPath_draft (hname : name ≠ "tenant.yaml") (hkust : name ≠ "kustomization.yaml")
    (hd : tenantFilePlan t manifest name body list = .draft d) (cluster tenant : String) :
    manifestPath (d.tree t) cluster tenant = manifestPath t cluster tenant := by
  have hkeep : (d.tree t).keep (reads "tenant.yaml") = t.keep (reads "tenant.yaml") := by
    refine keep_eq_keep fun p hp => ?_
    have hlast : p.getLast? = some "tenant.yaml" := by simpa [reads] using hp
    rw [tenantFilePlan_get hkust hd, if_neg, if_neg]
    · rintro ⟨-, rfl⟩
      simp at hlast
    · rintro rfl
      exact hname (by simpa using hlast)
  exact manifestPath_of_reads hkeep

/-- It changes no other list. -/
theorem listIn_draft_of_ne {M : ListFile β} (hne : M.file ≠ name)
    (hM : M.file ≠ "kustomization.yaml") (hkust : name ≠ "kustomization.yaml")
    (hd : tenantFilePlan t manifest name body list = .draft d) :
    M.listIn (d.tree t) manifest = M.listIn t manifest := by
  rw [ListFile.listIn, tenantFilePlan_get hkust hd, if_neg (by simpa using hne),
    if_neg (by simp [hM]), ListFile.listIn]

variable {scalar : String → Option String}

theorem mapM_eq_some {l : List β} {f : β → Option β} (h : ∀ b ∈ l, f b = some b) :
    l.mapM f = some l := by
  induction l with
  | nil => rfl
  | cons b l ih =>
    rw [mapM_cons, h b mem_cons_self, ih fun b' hb' => h b' (mem_cons_of_mem b hb')]
    rfl

/-- A privilege whose texts survive is read back as it was. -/
theorem PrivilegeGrant.reread_of_texts {g : PrivilegeGrant}
    (h : ∀ s ∈ g.texts, rereadText scalar s = some s) : g.reread scalar = some g := by
  simp only [PrivilegeGrant.texts, forall_mem_cons] at h
  simp [PrivilegeGrant.reread, h]

/-- So is a published entry. -/
theorem Exposure.reread_of_texts {e : Exposure}
    (h : ∀ s ∈ e.texts, rereadText scalar s = some s)
    (happroved : e.apexAcknowledgedBy = "" → e.apexAcknowledgedAt = "")
    (hset : e.aliasLabel = "" → e.aliasSetBy = "" ∧ e.aliasSetAt = "") :
    e.reread scalar = some e := by
  have happroved' : (if e.apexAcknowledgedBy = "" then "" else e.apexAcknowledgedAt) =
      e.apexAcknowledgedAt := by
    split_ifs with hno
    · exact (happroved hno).symm
    · rfl
  have hset' : (if e.aliasLabel = "" then "" else e.aliasSetBy) = e.aliasSetBy ∧
      (if e.aliasLabel = "" then "" else e.aliasSetAt) = e.aliasSetAt := by
    split_ifs with hno
    · exact ⟨(hset hno).1.symm, (hset hno).2.symm⟩
    · exact ⟨rfl, rfl⟩
  simp only [Exposure.texts, forall_mem_cons] at h
  simp [Exposure.reread, happroved', hset', h]

/-- **The list that is read is the list that was written**, where its entries read as they are. -/
theorem listIn_draft {next : List β} (hread : ∀ tenant l, L.read (L.doc tenant l) = .ok l)
    (hplain : ∀ b ∈ next, L.reread scalar b = some b) (hkust : L.file ≠ "kustomization.yaml")
    (hd : tenantFilePlan t manifest L.file (L.render scalar tenant next) list = .draft d) :
    L.listIn (d.tree t) manifest = .ok (L.sorted next) := by
  rw [ListFile.listIn, tenantFilePlan_get hkust hd, if_pos rfl]
  have hmap : (L.sorted next).mapM (L.reread scalar) = some (L.sorted next) :=
    mapM_eq_some fun b hb => hplain b (mem_sorted.1 hb)
  cases next with
  | nil => rfl
  | cons b next =>
    have hrender : L.render scalar tenant (b :: next) = some (L.doc tenant (L.sorted (b :: next))) :=
      congrArg (fun o : Option (List β) => some (o.elim (Doc.other "") (L.doc tenant))) hmap
    rw [hrender]
    exact hread tenant _

end lists

end Gentian.Gitops
