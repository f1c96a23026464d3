/-
# The bouncer's route table

`internal/bouncer/table.go` (`Route`, `Route.Denies`, `Table`, `ParseTable`,
`Table.Match`) and `internal/bouncer/cookies.go` (`ownsCookie`,
`withoutSessionCookies`).

`ParseTable` refuses an entry whose mode is neither of the two, so a route's mode is
one of two values here, and only an entry's is a text.  A table's `Checkers` are
another endpoint's and are left out.
-/

import Gentian.Base.GoStrings

namespace Gentian.Bouncer

open GoStrings List

/-- `AuthMode`: a session the Gateway's filter establishes, or a token the caller
presents. -/
inductive AuthMode where
  | oidc
  | bearer
deriving DecidableEq

/-- `AuthModeOIDC`, `AuthModeBearer`. -/
def AuthMode.parse (text : String) : Option AuthMode :=
  if text = "oidc" then some .oidc else if text = "bearer" then some .bearer else none

/-- What a route says beside its mode: a host, what must hold for a caller to reach
it, and what is done with the request. -/
structure RouteFields where
  host : String
  relation : String
  object : String
  keepClientToken : Bool := false
  idTokenSession : Bool := false
  idTokenAudience : String := ""
  forwardToken : Bool := false
  exchangeScope : String := ""
  denyPaths : List String := []
  sessionCookies : List String := []
  sessionCookiePrefixes : List String := []
  deniedRedirect : String := ""
deriving DecidableEq

/-- An entry of the table as it is written. -/
structure RouteEntry extends RouteFields where
  authMode : String
deriving DecidableEq

/-- An entry whose mode is known. -/
structure Route extends RouteFields where
  authMode : AuthMode
deriving DecidableEq

/-- `pathOnly`: the path without its query and fragment. -/
def pathOnly (path : String) : String := untilAny path "?#"

/-- Whether an entry of `DenyPaths` refuses a path: on segment boundaries, and
everything when it is `/`. -/
def deniedBy (path entry : String) : Bool :=
  if entry = "" then false
  else if entry = "/" then true
  else
    let d := trimSuffix entry "/"
    decide (path = d) || hasPrefix path (d ++ "/")

/-- `Route.Denies`: whether the route refuses the path outright. -/
def Route.denies (r : Route) (path : String) : Bool := r.denyPaths.any (deniedBy (pathOnly path))

/-- `ownsCookie`: whether a cookie of that name is the edge's on this route. -/
def Route.ownsCookie (r : Route) (name : String) : Bool :=
  r.sessionCookies.any (fun n => decide (name = n)) ||
    r.sessionCookiePrefixes.any fun p => hasPrefix name p

/-- Whether a piece of a Cookie header is one of the edge's cookies. -/
def Route.ownsPiece (r : Route) (piece : String) : Bool :=
  match cut piece '=' with
  | none => false
  | some (name, _) => r.ownsCookie (trim name " \t")

/-- `withoutSessionCookies`: the header without the edge's cookies, and whether
there were any. -/
def Route.withoutSessionCookies (r : Route) (header : String) : String × Bool :=
  if header = "" ∨ (r.sessionCookies = [] ∧ r.sessionCookiePrefixes = []) then (header, false)
  else
    let pieces := split header ';'
    if pieces.any r.ownsPiece then
      (trimLeft (String.intercalate ";" (pieces.filter fun piece => !r.ownsPiece piece)) " \t", true)
    else (header, false)

/-- `Table`: the routes. -/
structure Table where
  routes : List Route
deriving DecidableEq

/-! ### `ParseTable` -/

/-- Why a table is refused: which entry, with its host as it is written. -/
inductive TableError where
  | incomplete (i : ℕ) (host : String)
  | authMode (i : ℕ) (host : String)
  | exchangeScope (i : ℕ) (host : String)
  | listedTwice (host : String)
  | sessionCookie (i : ℕ) (host : String)
  | deniedRedirect (i : ℕ) (host : String)
deriving DecidableEq

/-- The message, `quote` being Go's `%q`. -/
def TableError.text (quote : String → String) : TableError → String
  | .incomplete i host => entry i host ++ " needs host, relation and object"
  | .authMode i host => entry i host ++ " needs authMode oidc or bearer"
  | .exchangeScope i host =>
    entry i host ++ " exchanges a token only behind a session, and hands on one token"
  | .listedTwice host => "route table: host " ++ quote host ++ " listed twice"
  | .sessionCookie i host => entry i host ++ " names an empty session cookie"
  | .deniedRedirect i host =>
    entry i host ++ " sends a refusal only from a session route to an https address"
where
  entry (i : ℕ) (host : String) : String :=
    "route table: entry " ++ toString i ++ " (" ++ quote host ++ ")"

/-- `normalisePaths`: each entry trimmed and with a leading slash, an empty one
dropped. -/
def normalisePaths (paths : List String) : List String :=
  paths.filterMap fun path =>
    let p := trimSpace path
    if p = "" then none else if hasPrefix p "/" then some p else some ("/" ++ p)

/-- One entry of `ParseTable`'s loop.  `redirects` says of which texts `url.Parse`
makes an https address with a host and no user. -/
def parseEntry (redirects : String → Bool) (seen : List String) (i : ℕ) (e : RouteEntry) :
    Except TableError Route :=
  let host := toLower (trimSpace e.host)
  if host = "" ∨ e.relation = "" ∨ e.object = "" then .error (.incomplete i e.host)
  else
    match AuthMode.parse e.authMode with
    | none => .error (.authMode i e.host)
    | some mode =>
      if e.exchangeScope ≠ "" ∧
          (mode ≠ .oidc ∨ e.forwardToken ∨ e.keepClientToken ∨ e.idTokenSession) then
        .error (.exchangeScope i e.host)
      else if host ∈ seen then .error (.listedTwice host)
      else if (e.sessionCookies ++ e.sessionCookiePrefixes).any fun n => trimSpace n = "" then
        .error (.sessionCookie i e.host)
      else if e.deniedRedirect ≠ "" ∧ (mode ≠ .oidc ∨ redirects e.deniedRedirect = false) then
        .error (.deniedRedirect i e.host)
      else
        .ok { e.toRouteFields with
          host := host, denyPaths := normalisePaths e.denyPaths, authMode := mode }

/-- The loop, from entry `i` on with the hosts seen so far. -/
def parseEntries (redirects : String → Bool) (seen : List String) (i : ℕ) :
    List RouteEntry → Except TableError (List Route)
  | [] => .ok []
  | e :: es =>
    match parseEntry redirects seen i e with
    | .error err => .error err
    | .ok r =>
      match parseEntries redirects (r.host :: seen) (i + 1) es with
      | .error err => .error err
      | .ok rs => .ok (r :: rs)

/-- `ParseTable`, once the file is read. -/
def parseTable (redirects : String → Bool) (es : List RouteEntry) : Except TableError Table :=
  match parseEntries redirects [] 0 es with
  | .error err => .error err
  | .ok rs => .ok ⟨rs⟩

/-- A route with a host and a question. -/
def Route.Complete (r : Route) : Prop := r.host ≠ "" ∧ r.relation ≠ "" ∧ r.object ≠ ""

theorem ne_empty_of_mem_normalisePaths {paths : List String} {d : String}
    (h : d ∈ normalisePaths paths) : d ≠ "" := by
  obtain ⟨path, -, hd⟩ := mem_filterMap.1 h
  dsimp only at hd
  split_ifs at hd with hempty hslash
  · cases hd
    exact hempty
  · cases hd
    simp

variable {r : Route} {redirects : String → Bool} {t : Table}

variable {es : List RouteEntry} {seen : List String} {host : String} {i : ℕ}

/-- What an entry that was accepted has. -/
theorem parseEntry_ok {e : RouteEntry} (h : parseEntry redirects seen i e = .ok r) :
    r.Complete ∧ r.host ∉ seen ∧ ∀ d ∈ r.denyPaths, d ≠ "" := by
  unfold parseEntry at h
  cases hmode : AuthMode.parse e.authMode with
  | none =>
    rw [hmode] at h
    dsimp only at h
    split_ifs at h
  | some _ =>
    rw [hmode] at h
    dsimp only at h
    split_ifs at h with hcomplete hexchange hseen hcookie hredirect
    obtain rfl := Except.ok.inj h
    simp only [not_or] at hcomplete
    exact ⟨hcomplete, hseen, fun d hd => ne_empty_of_mem_normalisePaths hd⟩

/-- No two of them have one host. -/
theorem parseEntries_ok {rs : List Route} (h : parseEntries redirects seen i es = .ok rs) :
    (rs.map fun r => r.host).Nodup ∧
      ∀ r ∈ rs, r.Complete ∧ r.host ∉ seen ∧ ∀ d ∈ r.denyPaths, d ≠ "" := by
  induction es generalizing seen i rs with
  | nil =>
    cases h
    exact ⟨nodup_nil, nofun⟩
  | cons e es ih =>
    unfold parseEntries at h
    split at h
    · cases h
    next r hr =>
      split at h
      · cases h
      next _ hrs =>
        cases h
        obtain ⟨hnodup, hall⟩ := ih hrs
        refine ⟨nodup_cons.2 ⟨fun hmem => ?_, hnodup⟩, forall_mem_cons.2
          ⟨parseEntry_ok hr, fun x hx => ⟨(hall x hx).1, fun hseen => ?_, (hall x hx).2.2⟩⟩⟩
        · obtain ⟨x, hx, hhost⟩ := mem_map.1 hmem
          exact (hall x hx).2.1 (hhost ▸ mem_cons_self)
        · exact (hall x hx).2.1 (mem_cons_of_mem _ hseen)

/-! ### Cookies -/

/-- The blanks before a piece say nothing about whose it is. -/
theorem Route.ownsPiece_trimLeft (r : Route) (piece : String) :
    r.ownsPiece (trimLeft piece " \t") = r.ownsPiece piece := by
  cases hcut : cut piece '=' with
  | none =>
    have hleft : cut (trimLeft piece " \t") '=' = none :=
      cut_eq_none_iff.2 fun hm => cut_eq_none_iff.1 hcut (mem_of_mem_trimLeft hm)
    rw [Route.ownsPiece, Route.ownsPiece, hcut, hleft]
  | some parts =>
    obtain ⟨name, value⟩ := parts
    obtain ⟨hname, hpiece⟩ := cut_eq_some_iff.1 hcut
    have hjoin : piece = name ++ String.ofList ('=' :: value.toList) :=
      String.toList_inj.1 (by simpa using hpiece)
    have hleft : cut (trimLeft piece " \t") '=' = some (trimLeft name " \t", value) := by
      refine cut_eq_some_iff.2 ⟨fun hm => hname (mem_of_mem_trimLeft hm), ?_⟩
      rw [hjoin, trimLeft_append (by simp)]
      simp
    have htrim : trim (trimLeft name " \t") " \t" = trim name " \t" := by
      simp [trim, trimLeft, dropWhile_idempotent]
    simp [Route.ownsPiece, hcut, hleft, htrim]

/-- The two cases `withoutSessionCookies` begins with have no piece of the edge's. -/
theorem Route.withoutSessionCookies_eq (r : Route) (header : String) :
    r.withoutSessionCookies header =
      if (split header ';').any r.ownsPiece then
        (trimLeft (String.intercalate ";"
          ((split header ';').filter fun piece => !r.ownsPiece piece)) " \t", true)
      else (header, false) := by
  unfold Route.withoutSessionCookies
  by_cases hnone : header = "" ∨ (r.sessionCookies = [] ∧ r.sessionCookiePrefixes = [])
  · have hany : (split header ';').any r.ownsPiece = false := by
      rcases hnone with rfl | ⟨hnames, hprefixes⟩
      · rfl
      · refine any_eq_false.2 fun piece _ => ?_
        unfold Route.ownsPiece
        split <;> simp [Route.ownsCookie, hnames, hprefixes]
    rw [if_pos hnone, hany, if_neg Bool.false_ne_true]
  · rw [if_neg hnone]

/-- **`withoutSessionCookies` removes just the edge's cookies.**  None is left, the other pieces
are those of the header but for the blanks before the first, a header without any is not
touched, and a second call changes nothing.  Where every piece was the edge's the result is
empty. -/
theorem Route.withoutSessionCookies_exact (r : Route) (header : String) :
    let out := r.withoutSessionCookies header
    let kept := (split header ';').filter fun piece => !r.ownsPiece piece
    (∀ piece ∈ split out.1 ';', r.ownsPiece piece = false) ∧ (kept = [] → out.1 = "") ∧
      (∀ first rest, kept = first :: rest →
        split out.1 ';' = (if out.2 then trimLeft first " \t" else first) :: rest) ∧
      (out.2 = false ↔ ∀ piece ∈ split header ';', r.ownsPiece piece = false) ∧
      (out.2 = false → out.1 = header) ∧ r.withoutSessionCookies out.1 = (out.1, false) := by
  intro out kept
  have hclean : ∀ text, (∀ piece ∈ split text ';', r.ownsPiece piece = false) →
      r.withoutSessionCookies text = (text, false) := by
    intro text htext
    rw [Route.withoutSessionCookies_eq, any_eq_false.2 fun piece h => by simp [htext piece h],
      if_neg Bool.false_ne_true]
  by_cases hany : (split header ';').any r.ownsPiece
  · have hout : out = (trimLeft (String.intercalate ";" kept) " \t", true) :=
      (r.withoutSessionCookies_eq header).trans (if_pos hany)
    obtain ⟨owned, hmem, howned⟩ := any_eq_true.1 hany
    have hchanged : ¬∀ piece ∈ split header ';', r.ownsPiece piece = false :=
      fun h => by simp [h owned hmem] at howned
    have hfree : ∀ piece ∈ kept, r.ownsPiece piece = false ∧ ';' ∉ piece.toList := by
      intro piece hpiece
      obtain ⟨hpiece, hnot⟩ := mem_filter.1 hpiece
      exact ⟨by simpa using hnot, not_mem_of_mem_split hpiece⟩
    rw [hout]
    cases hcases : kept with
    | nil =>
      have hempty : trimLeft (String.intercalate ";" []) " \t" = "" := rfl
      rw [hempty]
      refine ⟨fun piece h => ?_, fun _ => rfl, nofun, by simpa using hchanged, nofun,
        hclean "" fun piece h => ?_⟩ <;>
      · rw [mem_singleton.1 h]
        rfl
    | cons first rest =>
      rw [hcases] at hfree
      have hsplit : split (trimLeft (String.intercalate ";" (first :: rest)) " \t") ';' =
          trimLeft first " \t" :: rest := by
        have hjoin : trimLeft (String.intercalate ";" (first :: rest)) " \t" =
            String.intercalate ";" (trimLeft first " \t" :: rest) := by
          cases rest with
          | nil => simp
          | cons _ rest =>
            rw [String.intercalate_cons_cons, String.intercalate_cons_cons, String.append_assoc,
              trimLeft_append (by simp), String.append_assoc]
        rw [hjoin]
        refine split_intercalate (cons_ne_nil _ _) (forall_mem_cons.2 ⟨fun hm => ?_, fun p hp => ?_⟩)
        · exact (hfree first mem_cons_self).2 (mem_of_mem_trimLeft hm)
        · exact (hfree p (mem_cons_of_mem _ hp)).2
      have hnone : ∀ piece ∈ trimLeft first " \t" :: rest, r.ownsPiece piece = false := by
        refine forall_mem_cons.2 ⟨?_, fun p hp => (hfree p (mem_cons_of_mem _ hp)).1⟩
        rw [r.ownsPiece_trimLeft]
        exact (hfree first mem_cons_self).1
      rw [hsplit]
      refine ⟨hnone, nofun, fun f l heq => ?_, by simpa using hchanged, nofun,
        hclean _ (hsplit ▸ hnone)⟩
      cases heq
      rfl
  · have hnone : ∀ piece ∈ split header ';', r.ownsPiece piece = false := by
      simpa using hany
    have hkept : kept = split header ';' :=
      filter_eq_self.2 fun piece h => by simp [hnone piece h]
    rw [hkept, show out = (header, false) from hclean header hnone]
    exact ⟨hnone, fun h => absurd h split_ne_nil, fun _ _ h => h, by simpa using hnone, fun _ => rfl,
      hclean header hnone⟩

/-- A header of nothing but the edge's cookies has no other piece, and the empty result is
one. -/
theorem withoutSessionCookies_all_owned :
    let r : Route := { host := "wiki", relation := "can_use", object := "app:demo/wiki",
                       authMode := .oidc, sessionCookies := ["idt"] }
    (split "idt=1" ';').filter (fun piece => !r.ownsPiece piece) = [] ∧
      split (r.withoutSessionCookies "idt=1").1 ';' = [""] := by
  decide

/-! ### Hosts -/

/-- A host without its port. -/
def withoutPort (host : String) : String :=
  match lastIndex host ':' with
  | some i =>
    if 0 < i ∧ ']' ∉ host.toList.drop i then String.ofList (host.toList.take i) else host
  | none => host

/-- `Table.Match`: the route for a host, `none` when the host has no route. -/
def Table.matching (t : Table) (host : String) : Option Route :=
  t.routes.find? fun r => decide (r.host = withoutPort (toLower host))

/-- The route of a table for the host of another table's route. -/
def Table.serving (t : Table) (host : String) : Option Route :=
  t.routes.find? fun r => decide (r.host = host)

/-- The host of the route that matches. -/
theorem Table.host_of_matching (h : t.matching host = some r) :
    r.host = withoutPort (toLower host) := by
  simpa using find?_some h

theorem Table.serving_of_matching (h : t.matching host = some r) : t.serving r.host = some r := by
  rw [Table.host_of_matching h]
  exact h

/-- **Each route of a table that `ParseTable` accepts is complete, is the one route for
its host, and denies no empty path.** -/
theorem Table.serving_of_parse (h : parseTable redirects es = .ok t)
    (hr : r ∈ t.routes) : r.Complete ∧ t.serving r.host = some r ∧ ∀ d ∈ r.denyPaths, d ≠ "" := by
  unfold parseTable at h
  split at h
  · cases h
  next rs hrs =>
    cases h
    obtain ⟨hnodup, hall⟩ := parseEntries_ok hrs
    refine ⟨(hall r hr).1, ?_, (hall r hr).2.2⟩
    cases hf : Table.serving ⟨rs⟩ r.host with
    | none => simpa using find?_eq_none.1 hf r hr
    | some r' =>
      have hhost : r'.host = r.host := by simpa using find?_some hf
      rw [inj_on_of_nodup_map hnodup (mem_of_find?_eq_some hf) hr hhost]

end Gentian.Bouncer
