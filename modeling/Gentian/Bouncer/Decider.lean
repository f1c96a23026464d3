/-
# What one decision of the bouncer computes

`internal/bouncer/decider.go` (`Decider.decide` and what it calls): the parts of `decide`
between two uses of the table, the cache or the store.

| part | of `decide` |
| --- | --- |
| `opening` | from the matched route to the cache lookup |
| `hit` | a cached allow |
| `asked` | a miss: who the store is asked about |
| `unreachable`, `refused` | the store failed, or said no |
| `granted` | the store said yes |

The verifier's answers and the result of the token exchange are given.
-/

import Gentian.Authz.Names
import Gentian.Bouncer.Table

namespace Gentian.Bouncer

open GoStrings Authz Prod List

/-- `Request`: what the Gateway tells the bouncer. -/
structure Request where
  id : String
  host : String
  path : String
  authorization : String
  idToken : String := ""
  cookie : String := ""
deriving DecidableEq

/-- `identity`: who a verified token says is asking. -/
structure Identity where
  subject : String
  realm : String
  session : String
  email : String := ""
  name : String := ""
deriving DecidableEq

/-- `Verifier`: what it says of an access token, and of an ID token issued to a
client. -/
structure Verifier where
  verify : String → Except String Identity
  verifyIDToken : String → String → Except String Identity

/-- `Decision`: the bouncer's answer, and what its audit record names. -/
structure Decision where
  allow : Bool := false
  status : ℕ := 0
  reason : String := ""
  headers : List (String × String) := []
  removeHeaders : List String := []
  browser : Bool := false
  redirect : String := ""
  subject : String := ""
  relation : String := ""
  object : String := ""
  cached : Bool := false
deriving DecidableEq

/-- The path a session is ended at. -/
def logoutPath : String := "/oauth2/logout"

/-- The path the front door itself signs out at. -/
def signOutPath : String := "/oauth2/sign-out"

/-- The header that names the user. -/
def headerSubject : String := "x-gentian-subject"

/-- The header that names the realm. -/
def headerRealm : String := "x-gentian-realm"

/-- The header that names the session. -/
def headerSession : String := "x-gentian-session"

/-- The header with the user's address. -/
def headerEmail : String := "x-gentian-email"

/-- The header with the user's name. -/
def headerName : String := "x-gentian-name"

/-- The header with the ID token. -/
def headerIDToken : String := "x-gentian-id-token"

/-- The header of cookies. -/
def headerCookie : String := "cookie"

/-- `IdentityHeaders`: every header of the front door's own. -/
def identityHeaders : List String :=
  [headerSubject, headerRealm, headerSession, headerEmail, headerName, headerIDToken]

/-- `deny`: a refusal with its status and reason. -/
def deny (status : ℕ) (reason : String) : Decision := { status := status, reason := reason }

/-- `about`: the question and the subject, for the audit record. -/
def about (route : Route) (subject : String) (dec : Decision) : Decision :=
  { dec with subject := subject, relation := route.relation, object := route.object }

/-- `browserRefusal`: a denial on a session route is read by a person. -/
def browserRefusal (route : Route) (dec : Decision) : Decision :=
  if route.authMode = .oidc then { dec with browser := true } else dec

/-- `bearer`: the token of an Authorization header, empty when it is no bearer
header. -/
def bearer (h : String) : String :=
  if "bearer ".toList.length < h.toList.length ∧
      (h.toList.take "bearer ".toList.length).map Char.toLower = "bearer ".toList then
    trimSpace (String.ofList (h.toList.drop "bearer ".toList.length))
  else ""

/-- `session`: the identity in the one token the route's mode calls for. -/
def session (v : Verifier) (route : Route) (req : Request) : Except String Identity :=
  if route.authMode = .oidc ∧ (route.keepClientToken || route.idTokenSession) then
    if route.idTokenAudience = "" then
      .error "route names no client to hold its session against"
    else if req.idToken = "" then .error "no session token"
    else
      match v.verifyIDToken req.idToken route.idTokenAudience with
      | .error e => .error ("session token refused: " ++ e)
      | .ok id => .ok id
  else if bearer req.authorization = "" then .error "no token"
  else
    match v.verify (bearer req.authorization) with
    | .error e => .error ("token refused: " ++ e)
    | .ok id => .ok id

/-- `allow`: the identity headers are set, and the session's own token and cookies
taken out. -/
def allow (route : Route) (req : Request) (who : Identity) : Decision :=
  let headers := [(headerSubject, who.subject), (headerRealm, who.realm),
    (headerSession, who.session), (headerEmail, who.email), (headerName, who.name)]
  let remove := headerIDToken ::
    if !route.forwardToken && !route.keepClientToken then ["authorization"] else []
  let rest := route.withoutSessionCookies req.cookie
  if route.authMode = .oidc ∧ rest.2 = true then
    if trim rest.1 "; \t" = "" then
      { allow := true, headers := headers, removeHeaders := remove ++ [headerCookie] }
    else
      { allow := true, headers := headers ++ [(headerCookie, rest.1)], removeHeaders := remove }
  else { allow := true, headers := headers, removeHeaders := remove }

/-- `finish`: the request is let through, on a route that asks for it with the
app's own token in place of the session's, and refused when that could not be
obtained. -/
def finish (route : Route) (req : Request) (who : Identity) (exchange : Except String String) :
    Decision :=
  let dec := allow route req who
  if route.exchangeScope = "" then dec
  else
    match exchange with
    | .error _ => deny 503 "the app's token could not be obtained"
    | .ok token =>
      let kept := dec.headers.filter fun h => decide (h.1 ∉ identityHeaders)
      let dropped := (dec.headers.filter fun h => decide (h.1 ∈ identityHeaders)).map Prod.fst
      let remove := dec.removeHeaders.filter (fun h => decide (h ≠ "authorization")) ++ dropped
      { dec with
        headers := ("authorization", "Bearer " ++ token) :: kept
        removeHeaders := remove.insertionSort fun a b => a ≤ b }

/-- The first part of `decide`: an answer, or a verified session and the route it
is on. -/
def opening (table : Table) (v : Verifier) (req : Request) : Decision ⊕ (Route × Identity) :=
  match table.matching req.host with
  | none => .inl (deny 403 ("no route class for host " ++ req.host))
  | some route =>
    if route.authMode = .oidc ∧ pathOnly req.path = signOutPath then
      .inl { status := 302, redirect := logoutPath, reason := "sign out" }
    else if route.denies req.path then
      .inl (about route "" (deny 403 ("path is not published on " ++ req.host)))
    else
      match session v route req with
      | .error e => .inl (about route "" (browserRefusal route (deny 401 e)))
      | .ok id =>
        if id.session = "" then
          .inl (about route id.subject (browserRefusal route (deny 401 "token names no session")))
        else .inr (route, id)

/-- The decision on an answer that was cached. -/
def hit (route : Route) (req : Request) (who cached : Identity) (exchange : Except String String) :
    Decision :=
  { about route who.subject (finish route req cached exchange) with cached := true }

/-- The text of an `ErrInvalidID`.  `%q` is written without its escapes. -/
def idErrorText : IDError → String
  | .invalid id => "identifier cannot be represented in OpenFGA: \"" ++ id ++ "\""
  | .realm realm => "identifier cannot be represented in OpenFGA: realm \"" ++ realm ++ "\""

/-- A miss: the user the store is asked about, and the role holder it is asked
about when the user is refused, empty when the realm has no such name. -/
def asked (route : Route) (who : Identity) : Except Decision (String × String) :=
  match user who.subject with
  | .error e => .error (about route who.subject (deny 401 (idErrorText e)))
  | .ok u =>
    match holderUser who.realm who.subject with
    | .error _ => .ok (u, "")
    | .ok h => .ok (u, h)

/-- The refusal when the store does not answer. -/
def unreachable (route : Route) (who : Identity) : Decision :=
  about route who.subject (deny 503 "authorization store unreachable")

/-- The store said no: a refusal, or the way home on a route that sends refused
browsers there. -/
def refused (route : Route) (who : Identity) : Decision :=
  let reason := "not " ++ route.relation ++ " on " ++ route.object
  if route.deniedRedirect ≠ "" ∧ route.authMode = .oidc then
    about route who.subject { status := 302, redirect := route.deniedRedirect, reason := reason }
  else about route who.subject (browserRefusal route (deny 403 reason))

/-- The decision when the store says yes. -/
def granted (route : Route) (req : Request) (who : Identity) (exchange : Except String String) :
    Decision :=
  about route who.subject (finish route req who exchange)

/-- `Decider`: its table, and what its verifier, its cache, the store and the token exchange
answer. -/
structure Decider where
  table : Table
  verifier : Verifier
  cached : String → String → String → Option Identity
  check : String → String → String → Except Unit Bool
  exchange : Except String String

/-- `Decider.decide`, from its first part to its answer. -/
def Decider.decide (d : Decider) (req : Request) : Decision :=
  match opening d.table d.verifier req with
  | .inl dec => dec
  | .inr (route, who) =>
    match d.cached who.subject who.session route.host with
    | some cached => hit route req who cached d.exchange
    | none =>
      match asked route who with
      | .error dec => dec
      | .ok (user, holder) =>
        match checkAs d.check user holder route.relation route.object with
        | .error _ => unreachable route who
        | .ok false => refused route who
        | .ok true => granted route req who d.exchange

/-! ### What is let through -/

/-- A decision that goes on has a route and a session. -/
theorem matching_of_opening {table : Table} {v : Verifier} {req : Request} {route : Route}
    {who : Identity} (h : opening table v req = .inr (route, who)) :
    table.matching req.host = some route ∧ session v route req = .ok who ∧ who.session ≠ "" := by
  unfold opening at h
  split at h
  · cases h
  next _ hmatch =>
    split_ifs at h
    split at h
    · cases h
    next _ hsession =>
      split_ifs at h with hid
      cases Sum.inr.inj h
      exact ⟨hmatch, hsession, hid⟩

/-! ### What a backend is told -/

/-- A client's request as the Gateway hands it over with the ID token of its session: on a route
that proves its session by that token, what the client sent in its place is gone. -/
def Table.handedOver (t : Table) (token : String) (req : Request) : Request :=
  match t.matching req.host with
  | some route =>
    if route.authMode = .oidc ∧ (route.keepClientToken || route.idTokenSession) then
      { req with idToken := token }
    else req
  | none => req

variable {d : Decider} {req : Request} {route : Route} {who : Identity}

/-- One that ends at once lets nothing through. -/
theorem allow_of_opening {dec : Decision} (h : opening d.table d.verifier req = .inl dec) :
    dec.allow = false := by
  unfold opening at h
  split at h
  · cases h
    rfl
  · split_ifs at h
    · cases h
      rfl
    · cases h
      rfl
    · split at h
      · cases h
        unfold browserRefusal
        split_ifs <;> rfl
      · split_ifs at h
        cases h
        unfold browserRefusal
        split_ifs <;> rfl

/-- Only `finish` lets a request through, for the session it was verified to be of. -/
theorem Decider.finish_of_allow (h : (d.decide req).allow) :
    ∃ route id who, d.table.matching req.host = some route ∧
      session d.verifier route req = .ok id ∧ (finish route req who d.exchange).allow ∧
      (d.decide req).headers = (finish route req who d.exchange).headers ∧
      (d.decide req).removeHeaders = (finish route req who d.exchange).removeHeaders := by
  unfold Decider.decide at h ⊢
  cases hopen : opening d.table d.verifier req with
  | inl dec =>
    rw [hopen] at h
    exact absurd h (by simp [allow_of_opening hopen])
  | inr found =>
    obtain ⟨route, id⟩ := found
    obtain ⟨hmatch, hsession, -⟩ := matching_of_opening hopen
    simp only [hopen] at h ⊢
    split at h
    next cached _ =>
      exact ⟨route, id, cached, hmatch, hsession, h, rfl, rfl⟩
    · split at h
      next dec hasked =>
        unfold asked at hasked
        split at hasked
        · cases hasked
          cases h
        · split at hasked <;> cases hasked
      · split at h
        · cases h
        · unfold refused at h
          split_ifs at h
          · cases h
          · unfold browserRefusal at h
            split_ifs at h <;> cases h
        · exact ⟨route, id, id, hmatch, hsession, h, rfl, rfl⟩

/-- What `allow` sets and removes, apart from the Cookie header. -/
theorem mem_allow {name : String} (hcookie : name ≠ headerCookie) :
    (name ∈ (allow route req who).headers.map Prod.fst ↔
      name ∈ [headerSubject, headerRealm, headerSession, headerEmail, headerName]) ∧
    (name ∈ (allow route req who).removeHeaders ↔ name = headerIDToken ∨
      name = "authorization" ∧ route.forwardToken = false ∧ route.keepClientToken = false) := by
  unfold allow
  dsimp only
  split_ifs <;> simp_all

variable {exchange : Except String String}

/-- Each of the front door's own headers is set or removed, and never both. -/
theorem finish_identity (h : (finish route req who exchange).allow) : ∀ name ∈ identityHeaders,
      name ∈ (finish route req who exchange).headers.map Prod.fst ↔
        name ∉ (finish route req who exchange).removeHeaders := by
  have hallow : ∀ name ∈ identityHeaders, name ∈ (allow route req who).headers.map fst ↔
      name ∉ (allow route req who).removeHeaders := by
    intro name hname
    have hcookie : name ≠ headerCookie := by
      rintro rfl
      exact absurd hname (by decide)
    have hne : name ≠ "authorization" := by
      rintro rfl
      exact absurd hname (by decide)
    simp only [(mem_allow hcookie).1, (mem_allow hcookie).2, hne, false_and, or_false]
    revert name
    decide
  intro name hname
  unfold finish at h ⊢
  split_ifs at h ⊢ with hscope
  · exact hallow name hname
  · cases exchange with
    | error e => cases h
    | ok _ =>
      have hne : name ≠ "authorization" := by
        rintro rfl
        exact absurd hname (by decide)
      have hkept : name ∈ (allow route req who).removeHeaders ∨
          name ∈ (allow route req who).headers.map fst := by
        by_cases hin : name ∈ (allow route req who).removeHeaders
        · exact .inl hin
        · exact .inr ((hallow name hname).2 hin)
      refine iff_of_false (fun hin => ?_) (not_not.2 ?_)
      · simp [hne, hname] at hin
      · rw [(perm_insertionSort _ _).mem_iff]
        rcases hkept with hin | hin
        · exact mem_append_left _ (mem_filter.2 ⟨hin, by simpa using hne⟩)
        · obtain ⟨x, hx, rfl⟩ := mem_map.1 hin
          refine mem_append_right _ (mem_map.2 ⟨x, mem_filter.2 ⟨hx, ?_⟩, rfl⟩)
          simpa using hname

/-- The Authorization header is set to the app's own token, on a route that asks for one, or
removed unless the route forwards or keeps it. -/
theorem finish_authorization (h : (finish route req who exchange).allow) :
    (∀ value, ("authorization", value) ∈ (finish route req who exchange).headers →
      route.exchangeScope ≠ "" ∧ ∃ token, exchange = .ok token ∧ value = "Bearer " ++ token) ∧
    ("authorization" ∉ (finish route req who exchange).headers.map Prod.fst →
      ("authorization" ∈ (finish route req who exchange).removeHeaders ↔
        route.forwardToken = false ∧ route.keepClientToken = false)) ∧
    (route.exchangeScope = "" →
      "authorization" ∉ (finish route req who exchange).headers.map Prod.fst) := by
  have hallow : "authorization" ∉ (allow route req who).headers.map fst ∧
      ("authorization" ∈ (allow route req who).removeHeaders ↔
        route.forwardToken = false ∧ route.keepClientToken = false) := by
    have hmem := @mem_allow req route who "authorization" (by decide)
    exact ⟨by rw [hmem.1]; decide, hmem.2.trans (by simp [headerIDToken])⟩
  unfold finish at h ⊢
  split_ifs at h ⊢ with hscope
  · exact ⟨fun value hin => absurd (mem_map_of_mem hin) hallow.1, fun _ => hallow.2,
      fun _ => hallow.1⟩
  · cases exchange with
    | error e => cases h
    | ok token =>
      refine ⟨fun value hin => ⟨hscope, token, rfl, ?_⟩, fun hno => absurd (by simp) hno,
        fun hno => absurd hno hscope⟩
      rcases mem_cons.1 hin with heq | hin
      · exact congrArg snd heq
      · exact absurd (mem_map_of_mem (mem_of_mem_filter hin)) hallow.1

/-- On a route that asks for the app's own token the Authorization header is set. -/
theorem finish_sets_authorization {route : Route} {req : Request} {who : Identity}
    {exchange : Except String String} (h : (finish route req who exchange).allow)
    (hscope : route.exchangeScope ≠ "") :
    "authorization" ∈ (finish route req who exchange).headers.map Prod.fst := by
  unfold finish at h ⊢
  rw [if_neg hscope] at h ⊢
  cases exchange with
  | error e => cases h
  | ok token => simp

/-- What the client sends in place of the ID token is not looked at. -/
theorem Decider.decide_handedOver (d : Decider) (req : Request) (token x : String) :
    d.decide (d.table.handedOver token { req with idToken := x }) =
      d.decide (d.table.handedOver token req) := by
  cases hmatch : d.table.matching req.host with
  | none => simp only [Table.handedOver, Decider.decide, opening, hmatch]
  | some route =>
    simp only [Table.handedOver, hmatch]
    split_ifs with hread
    · rfl
    · have hsession : session d.verifier route { req with idToken := x } =
          session d.verifier route req := by
        rw [session, session, if_neg hread, if_neg hread]
      simp only [Decider.decide, opening, hmatch, hsession]
      rfl

/-- The Authorization header a backend sees of an allowed request: one that is left as it came is
the client's on a route that keeps it, or the session's own on a route that forwards it and does
not prove its session by an ID token; one that is neither is removed. -/
structure AuthorizationTold (d : Decider) (req : Request) (route : Route) : Prop where
  passed : "authorization" ∉ (d.decide req).headers.map Prod.fst →
    "authorization" ∉ (d.decide req).removeHeaders →
    route.keepClientToken = true ∨ route.forwardToken = true ∧ route.idTokenSession = false ∧
      ∃ id, d.verifier.verify (bearer req.authorization) = .ok id
  removed : route.keepClientToken = false →
    route.forwardToken = false ∨ route.idTokenSession = true → route.exchangeScope = "" →
    "authorization" ∈ (d.decide req).removeHeaders

/-- A route that forwards the Authorization header, although its session is proved by an ID token
and the header is neither the client's to keep nor replaced. -/
def Route.forwardsUnread (r : Route) : Prop :=
  r.forwardToken = true ∧ r.idTokenSession = true ∧ r.keepClientToken = false ∧
    r.exchangeScope = ""

/-- **What a backend is told is not what the client asserts.**  An allowed request has each of the
front door's own headers set or removed, an Authorization header that is set is the exchanged token,
and what the client puts in place of the ID token changes nothing; **the Authorization header is as
it should be exactly when the request's route does not forward one that was not read.** -/
theorem backend_told {d : Decider} {req : Request} (h : (d.decide req).allow = true) :
    ∃ route ∈ d.table.routes, d.table.matching req.host = some route ∧
      (∀ name ∈ identityHeaders, name ∈ (d.decide req).headers.map Prod.fst ↔
        name ∉ (d.decide req).removeHeaders) ∧
      (∀ value, ("authorization", value) ∈ (d.decide req).headers →
        route.exchangeScope ≠ "" ∧ ∃ token, d.exchange = .ok token ∧ value = "Bearer " ++ token) ∧
      (AuthorizationTold d req route ↔ ¬route.forwardsUnread) ∧
      ∀ token x, d.decide (d.table.handedOver token { req with idToken := x }) =
        d.decide (d.table.handedOver token req) := by
  obtain ⟨route, id, who, hmatch, hsession, hfinish, hheaders, hremove⟩ := Decider.finish_of_allow h
  have hmem : route ∈ d.table.routes := mem_of_find?_eq_some hmatch
  obtain ⟨hset, hremoved, hunset⟩ := finish_authorization hfinish
  rw [← hheaders] at hset hremoved hunset
  rw [← hremove] at hremoved
  refine ⟨route, hmem, hmatch, ?_, hset, ⟨?_, fun hread => ⟨fun hno hleft => ?_, ?_⟩⟩,
    d.decide_handedOver req⟩
  · rw [hheaders, hremove]
    exact finish_identity hfinish
  · rintro htold ⟨hforward, hproof, hkeep, hscope⟩
    have hgone := htold.removed hkeep (.inr hproof) hscope
    rw [hremoved (hunset hscope), hforward] at hgone
    exact absurd hgone.1 (by decide)
  · by_cases hkeep : route.keepClientToken
    · exact .inl hkeep
    · have hforward : route.forwardToken := by
        by_contra hnot
        exact hleft ((hremoved hno).2 ⟨by simpa using hnot, by simpa using hkeep⟩)
      have hscope : route.exchangeScope = "" := by
        by_contra hscope
        refine hno ?_
        rw [hheaders]
        exact finish_sets_authorization hfinish hscope
      have hproof : route.idTokenSession = false := by
        by_contra hnot
        exact hread ⟨hforward, by simpa using hnot, by simpa using hkeep, hscope⟩
      refine .inr ⟨hforward, hproof, ?_⟩
      unfold session at hsession
      rw [if_neg (by simp [hkeep, hproof])] at hsession
      split_ifs at hsession
      split at hsession
      · cases hsession
      · exact ⟨_, ‹_›⟩
  · intro hkeep hforward hscope
    refine (hremoved (hunset hscope)).2 ⟨?_, hkeep⟩
    by_contra hnot
    exact hread ⟨by simpa using hnot, hforward.resolve_left hnot, hkeep, hscope⟩

/-- A bouncer with one route, which forwards the Authorization header, for a person who has a
session and may use the app. -/
def forwardingDecider (idTokenSession : Bool) : Decider where
  table := ⟨[{ host := "desk.org", relation := "can_use", object := "app:demo/desk",
               authMode := .oidc, forwardToken := true, idTokenSession := idTokenSession,
               idTokenAudience := "zone" }]⟩
  verifier := ⟨fun raw => if raw = "session" then .ok ⟨"eve", "demo", "s-1", "", ""⟩ else .error "",
    fun _ _ => .ok ⟨"eve", "demo", "s-1", "", ""⟩⟩
  cached := fun _ _ _ => none
  check := fun _ _ _ => .ok true
  exchange := .error ""

/-- The session's own token is forwarded where the route's session is proved by it. -/
theorem backend_told_forwarding :
    ∃ id, (forwardingDecider false).verifier.verify (bearer "Bearer session") = .ok id := by
  obtain ⟨route, hmem, -, -, -, htold, -⟩ := @backend_told (forwardingDecider false)
    ⟨"r", "desk.org", "/", "Bearer session", "", ""⟩ (by decide)
  rw [mem_singleton.1 hmem] at htold
  rcases (htold.2 fun h => absurd h.2.1 (by decide)).passed (by decide) (by decide) with
    hkeep | ⟨-, -, hverified⟩
  · cases hkeep
  · exact hverified

/-- **The client's own Authorization header reaches the backend** on a route that proves its
session by an ID token and forwards the header, which the table may say. -/
theorem client_authorization_forwarded : let d := forwardingDecider true
    let dec := d.decide ⟨"r", "desk.org", "/", "Bearer forged", "token", ""⟩
    parseTable (fun _ => true)
        [{ host := "desk.org", relation := "can_use", object := "app:demo/desk", authMode := "oidc",
           forwardToken := true, idTokenSession := true, idTokenAudience := "zone" }] =
      .ok d.table ∧ dec.allow ∧ "authorization" ∉ dec.headers.map Prod.fst ∧
      "authorization" ∉ dec.removeHeaders ∧ d.verifier.verify (bearer "Bearer forged") = .error "" ∧
      d.table.routes.map (·.keepClientToken) = [false] := by
  decide

end Gentian.Bouncer
