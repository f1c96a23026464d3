/-
# The routes of a component's entries and the rows of the bouncer's table

`internal/controller/component_reconciler.go`: `routableExposures`, `exposureAuthz` with
`tenantScoped`, `clusterTileRelation` and `tenantTileAsks`, `approvedClientAuthorization`,
`componentFramers`, `buildExposureRoute`, and what `Reconcile` does with them for each
entry; `frameAncestorsFilters` and `kernelBackendRulePrefixNS` of `kernel_gateway_routes.go`;
and `componentRouteTableEntries` of `bouncer.go`, with `splitDenyPaths` and `mergeDenyPaths`.

A route has a host, a rule for each of the entry's paths, and the annotations from which the
bouncer's table is made.  The question that is asked about a caller is the component's.

The bouncer decides by host.  The first route of a host gives its row the question, and every
other route of the host is merged into it, "a component's routes share its host and its
question".  Nothing makes a host one component's: an entry chooses its label, and the label may
be another component's name (`row_asks_anothers_question`).
-/

import Gentian.Bouncer.Table
import Gentian.Edge.Agreement

namespace Gentian.Edge

open GoStrings Addresses

/-! ### Routes -/

/-- `HTTPRouteFilter`, the kinds that are used here. -/
inductive Filter where
  | responseHeaders (removed : List String) (name value : String)
  | requestHeaders (removed : List String)
  | redirect (target : String)
  | extensionRef (name : String)
deriving DecidableEq

/-- `BackendObjectReference`. -/
structure Backend where
  service : String
  namespaceName : String
  port : ℕ
deriving DecidableEq

/-- `HTTPRouteRule` with its one match, on a path, and at most one backend. -/
structure Rule where
  path : String
  exact : Bool := false
  filters : List Filter
  backend : Option Backend
deriving DecidableEq

/-- The annotations a component's route carries for the bouncer's table, `""` for one
that is not there. -/
structure BouncerAnnotations where
  relation : String := ""
  object : String := ""
  forward : String := ""
  authMode : String := ""
  exchangeScope : String := ""
  denyPaths : String := ""
  sessionCookies : String := ""
  idTokenAudience : String := ""
  clientAuthorization : String := ""
deriving DecidableEq

/-- `HTTPRoute`, as the component reconciler writes it: the component's name is one of
its labels, and `bouncer` says that it has the label of the table's routes. -/
structure HTTPRoute where
  namespaceName : String
  name : String
  component : String
  bouncer : Bool
  sectionName : String
  hostnames : List String
  rules : List Rule
  annotations : BouncerAnnotations
  deleting : Bool := false
deriving DecidableEq

/-- `kernelBackendRulePrefixNS`. -/
def backendRule (b : Backend) (path : String) (filters : List Filter) : Rule :=
  { path := path, filters := filters, backend := some b }

/-! ### Whose question a route asks -/

/-- A component as its pass reads it: the tenant it belongs to, the profile it names and
the build it renders from. -/
structure Installed where
  namespaceName : String
  name : String
  profileRef : String
  profile : Profile
  tenant : Tenant
  exposures : List Enablement

/-- A zone, with the client and the cookies of its sign-in. -/
structure EdgeZone where
  names : Zone
  clientID : String
  cookie : String
  idCookie : String
  sectionName : String
deriving DecidableEq

/-- The cookies of a session. -/
def EdgeZone.sessionCookies (z : EdgeZone) : List String := [z.cookie, z.idCookie].filter (· ≠ "")

/-- The listener of all hosts directly under the cluster's domain. -/
def wildcardListenerName : String := "https-wildcard"

/-- The listener a host is served by. -/
def EdgeZone.listenerFor (z : EdgeZone) (host kernelDomain : String) : String :=
  if directlyUnder host kernelDomain then wildcardListenerName else z.sectionName

/-- The host of an entry. -/
def exposureHost (z : EdgeZone) (component : String) (e : ExposureSpec) : String :=
  host z.names component e

/-- An entry on the gateway that is not another component's to route. -/
def ownGateway (component : String) (e : ExposureSpec) : Bool :=
  e.surface = .gateway && (e.backend.component = "" || e.backend.component = component)

/-- `routableExposures`, the entries that are routed. -/
def routableExposures (component : String) (p : Profile) : List ExposureSpec :=
  p.expose.filter fun e => ownGateway component e && e.authMode = .oidc

/-- What is asked before a route is served. -/
structure RouteAuthz where
  relation : String
  object : String
  keepClientToken : Bool := false
  idTokenSession : Bool := false
  forwardToken : Bool := false
deriving DecidableEq

/-- Whether the session is known by the ID token. -/
def RouteAuthz.sessionByIDToken (a : RouteAuthz) : Bool := a.keepClientToken || a.idTokenSession

/-- Whether a profile is about the whole tenant. -/
def tenantScoped (p : Profile) : Bool :=
  p.launch = .none || p.expose.any fun e => e.tile.any fun t => t.object = .tenant

/-- The relation that a tile of the cluster asks for. -/
def clusterTileRelation (p : Profile) : String :=
  ((p.expose.filterMap ExposureSpec.tile).find? fun t => t.object = .cluster).elim "" Tile.relation

/-- The relation of those who may install apps. -/
def relationInstallApp : String := "can_install_app"

/-- Whether a tile of the tenant asks for a relation. -/
def tenantTileAsks (p : Profile) (relation : String) : Bool :=
  p.expose.any fun e => e.tile.any fun t => t.object = .tenant && t.relation = relation

/-- `exposureAuthz`: what is asked for an installed component. -/
def exposureAuthz (x : Installed) (cluster : String) (forwardToken : Bool) : RouteAuthz :=
  if clusterTileRelation x.profile ≠ "" then
    { relation := clusterTileRelation x.profile, object := "cluster:" ++ cluster,
      forwardToken := forwardToken }
  else if tenantScoped x.profile then
    { relation := if tenantTileAsks x.profile relationInstallApp then relationInstallApp
        else "can_enter"
      object := "tenant:" ++ x.tenant.name, forwardToken := forwardToken }
  else
    { relation := "can_use", object := "app:" ++ x.tenant.name ++ "/" ++ x.profileRef,
      forwardToken := forwardToken }

/-- `approvedClientAuthorization`: the entries on which the Authorization header is left
to the app. -/
def approvedClientAuthorization (x : Installed) (routable : List ExposureSpec) (now : ℕ) :
    List String :=
  if routable.any fun e => e.forwardToken || e.exchangeToken then []
  else (routable.filter fun e => e.requestKind = some .signInAppAuthorization &&
    x.exposures.any fun on => on.exposureName = e.name && e.approvedAs on.kind &&
      !expired now on.expiresAt).map ExposureSpec.name

/-! ### The route of an entry -/

/-- The host of a zone's desktop. -/
def zoneDesktopHost (z : Zone) : String :=
  if z.domain = "" then "" else if z.kernel then z.domain else desktopLabel ++ "." ++ z.domain

/-- One framer more, unless it is there, is the page's own host or is no host. -/
def addFramer (host : String) (framers : List String) (h : String) : List String :=
  if h = "" ∨ h = host ∨ h ∈ framers then framers else framers ++ [h]

/-- The hosts that may frame a component. -/
def componentFramers (z : EdgeZone) (component : String) (p : Profile) (host : String) :
    List String :=
  let own := (p.expose.filter (ownGateway component)).map (exposureHost z component)
  (zoneDesktopHost z.names :: own.insertionSort (· ≤ ·)).foldl (addFramer host) []

/-- The filters that say who may frame a page. -/
def frameAncestorsFilters (hosts : List String) : List Filter :=
  [.responseHeaders ["X-Frame-Options"] "Content-Security-Policy"
    ((hosts.filter (· ≠ "")).foldl (fun value h => value ++ " https://" ++ h)
      "frame-ancestors 'self'")]

/-- `edgeOAuth2Prefix`. -/
def edgeOAuth2Path : String := "/oauth2/"

/-- The scope of an app's token. -/
def appTokenScope (profile : String) : String := "app-" ++ profile

/-- The rules of `buildExposureRoute`: one for each path, and one for the path on which
the code flow lands when the entry does not serve the whole host. -/
def exposureRules (ns : String) (e : ExposureSpec) (framers : List String) : List Rule :=
  let b : Backend := ⟨e.backend.service, ns, e.backend.port⟩
  let paths := if e.paths = [] then ["/"] else e.paths
  (if e.authMode = .oidc ∧ "/" ∉ paths then paths ++ [edgeOAuth2Path] else paths).map fun p =>
    backendRule b p (frameAncestorsFilters framers)

/-- The mode as the front door's table writes it. -/
def bouncerMode : AuthMode → String
  | .oidc => "oidc"
  | .jwt | .bearer => "bearer"
  | .app => "app"
  | .basic => "basic"
  | .signature => "signature"
  | .none => "none"

/-- The annotations of `buildExposureRoute`. -/
def exposureAnnotations (profileRef : String) (z : EdgeZone) (e : ExposureSpec) (a : RouteAuthz) :
    BouncerAnnotations :=
  let oidc := bouncerMode e.authMode = "oidc"
  { relation := a.relation
    object := a.object
    forward := toString a.forwardToken
    authMode := bouncerMode e.authMode
    exchangeScope := if e.exchangeToken ∧ e.authMode = .oidc ∧ !a.forwardToken ∧ !a.sessionByIDToken
      then appTokenScope profileRef else ""
    denyPaths := ",".intercalate e.denyPaths
    sessionCookies := if oidc then ",".intercalate z.sessionCookies else ""
    idTokenAudience := if oidc ∧ a.sessionByIDToken then z.clientID else ""
    clientAuthorization := if oidc ∧ a.keepClientToken then "app" else "" }

/-- `buildExposureRoute`. -/
def buildExposureRoute (x : Installed) (name host : String) (z : EdgeZone) (e : ExposureSpec)
    (a : RouteAuthz) (kernelDomain : String) (framers : List String) : HTTPRoute where
  namespaceName := x.namespaceName
  name := name
  component := x.name
  bouncer := true
  sectionName := z.listenerFor host kernelDomain
  hostnames := [host]
  rules := exposureRules x.namespaceName e framers
  annotations := exposureAnnotations x.profileRef z e a

/-- What a component's routes depend on besides the component. -/
structure RouteSettings where
  zone : EdgeZone
  cluster : String
  kernelDomain : String
  now : ℕ

/-- The question and the header of one entry, as `Reconcile` puts them together. -/
def entryAuthz (x : Installed) (s : RouteSettings) (e : ExposureSpec) : RouteAuthz :=
  let a := exposureAuthz x s.cluster e.forwardToken
  let kept := approvedClientAuthorization x (routableExposures x.name x.profile) s.now
  if kept = [] then a
  else
    { a with
      keepClientToken := decide (e.name ∈ kept)
      idTokenSession := decide (e.name ∉ kept) }

/-- The route of one entry: what `ensureExposureRoute` builds, without a sign-in
sidecar's rules. -/
def exposureRoute (x : Installed) (s : RouteSettings) (e : ExposureSpec) : HTTPRoute :=
  let h := exposureHost s.zone x.name e
  buildExposureRoute x (exposureRouteName x.name e.name) h s.zone e (entryAuthz x s e)
    s.kernelDomain (componentFramers s.zone x.name x.profile h)

/-- The routes of an installed component. -/
def exposureRoutes (x : Installed) (s : RouteSettings) : List HTTPRoute :=
  (routableExposures x.name x.profile).map (exposureRoute x s)

variable {r : HTTPRoute} {x : Installed} {s : RouteSettings}

/-- **Every route of a component asks the component's question**, whichever entry it is
of. -/
theorem question_of_exposureRoute (h : r ∈ exposureRoutes x s) :
    r.annotations.relation = (exposureAuthz x s.cluster false).relation ∧
      r.annotations.object = (exposureAuthz x s.cluster false).object := by
  obtain ⟨e, -, rfl⟩ := List.mem_map.1 h
  have hauthz : (entryAuthz x s e).relation = (exposureAuthz x s.cluster e.forwardToken).relation ∧
      (entryAuthz x s e).object = (exposureAuthz x s.cluster e.forwardToken).object := by
    rw [entryAuthz]
    split_ifs <;> exact ⟨rfl, rfl⟩
  have hforward : (exposureAuthz x s.cluster e.forwardToken).relation =
        (exposureAuthz x s.cluster false).relation ∧
      (exposureAuthz x s.cluster e.forwardToken).object =
        (exposureAuthz x s.cluster false).object := by
    rw [exposureAuthz, exposureAuthz]
    split_ifs <;> exact ⟨rfl, rfl⟩
  exact ⟨hauthz.1.trans hforward.1, hauthz.2.trans hforward.2⟩

/-- A route serves the host of an entry. -/
theorem host_of_exposureRoute (h : r ∈ exposureRoutes x s) :
    ∃ e ∈ routableExposures x.name x.profile, r.hostnames = [exposureHost s.zone x.name e] := by
  obtain ⟨e, he, rfl⟩ := List.mem_map.1 h
  exact ⟨e, he, rfl⟩

open List

/-! ### Rows -/

/-- The denied paths of an annotation. -/
def splitDenyPaths (v : String) : List String :=
  ((split v ',').map trimSpace).filter (· ≠ "")

/-- Denied paths with others added, each once. -/
def mergeDenyPaths (given add : List String) : List String :=
  add.foldl (fun out p => if p ∈ out then out else out ++ [p]) given

/-- The cookies that the gateway's own filter sets. -/
def edgeFilterCookiePrefixes : List String :=
  ["AccessToken-", "IdToken-", "RefreshToken-", "OauthHMAC-", "OauthExpires-", "OauthNonce-",
    "CodeVerifier-"]

/-- The row that a route gives a host when it is the first. -/
def rowOf (a : BouncerAnnotations) (host : String) : Bouncer.RouteEntry :=
  let mode := if a.authMode = "" then "oidc" else a.authMode
  let audience := if mode = "oidc" then a.idTokenAudience else ""
  { host := host
    relation := a.relation
    object := a.object
    forwardToken := a.forward = "true"
    exchangeScope := a.exchangeScope
    authMode := mode
    denyPaths := splitDenyPaths a.denyPaths
    sessionCookies := if mode = "oidc" then splitDenyPaths a.sessionCookies else []
    sessionCookiePrefixes := if mode = "oidc" then edgeFilterCookiePrefixes else []
    keepClientToken := audience ≠ "" && a.clientAuthorization = "app"
    idTokenAudience := audience }

/-- The row of a host with another of its routes merged into it. -/
def mergeRow (cur new : Bouncer.RouteEntry) : Bouncer.RouteEntry :=
  { cur with
    forwardToken := cur.forwardToken || new.forwardToken
    exchangeScope := if cur.exchangeScope = "" then new.exchangeScope else cur.exchangeScope
    keepClientToken := cur.keepClientToken || new.keepClientToken
    idTokenAudience := if cur.idTokenAudience = "" then new.idTokenAudience else cur.idTokenAudience
    denyPaths := mergeDenyPaths cur.denyPaths new.denyPaths
    sessionCookies := mergeDenyPaths cur.sessionCookies new.sessionCookies
    sessionCookiePrefixes :=
      if cur.sessionCookiePrefixes = [] then new.sessionCookiePrefixes
      else cur.sessionCookiePrefixes }

/-- One route at one host: merged into the host's row, or the host's first. -/
def addRow (rows : List Bouncer.RouteEntry) (new : Bouncer.RouteEntry) : List Bouncer.RouteEntry :=
  if rows.any fun r => r.host = new.host then
    rows.map fun r => if r.host = new.host then mergeRow r new else r
  else rows ++ [new]

/-- What is decided of a host once all its routes are merged. -/
def finishRow (r : Bouncer.RouteEntry) : Bouncer.RouteEntry :=
  let idTokenSession := r.idTokenAudience ≠ "" && !r.keepClientToken
  { r with
    idTokenSession := idTokenSession
    exchangeScope :=
      if r.forwardToken ∨ r.authMode ≠ "oidc" ∨ r.keepClientToken ∨ idTokenSession then ""
      else r.exchangeScope }

/-- A route that gives rows: one of the table's, not being deleted, with a question. -/
def asks (r : HTTPRoute) : Bool :=
  r.bouncer && !r.deleting && r.annotations.relation ≠ "" && r.annotations.object ≠ ""

/-- The rows that the routes give, one for each host of each, before they are merged. -/
def rowsOf (routes : List HTTPRoute) : List Bouncer.RouteEntry :=
  (routes.filter asks).flatMap fun r => r.hostnames.map (rowOf r.annotations)

/-- `componentRouteTableEntries`: one row for each host. -/
def componentRouteTableEntries (routes : List HTTPRoute) : List Bouncer.RouteEntry :=
  ((rowsOf routes).foldl addRow []).map finishRow

/-- The row of a host. -/
def rowAt (host : String) (rows : List Bouncer.RouteEntry) : Option Bouncer.RouteEntry :=
  rows.find? fun r => r.host = host

/-! ### The row of one host -/

/-- A row merged with the one before it. -/
def mergeInto (cur : Option Bouncer.RouteEntry) (new : Bouncer.RouteEntry) :
    Option Bouncer.RouteEntry :=
  some (cur.elim new fun c => mergeRow c new)

@[simp] theorem host_mergeRow (cur new : Bouncer.RouteEntry) : (mergeRow cur new).host = cur.host :=
  rfl

/-- The row of a host after one is added. -/
theorem rowAt_addRow (host : String) (rows : List Bouncer.RouteEntry) (new : Bouncer.RouteEntry) :
    rowAt host (addRow rows new) =
      if new.host = host then mergeInto (rowAt host rows) new else rowAt host rows := by
  simp only [rowAt, addRow]
  split_ifs with hany hhost hhost
  · -- the host has a row, and it is the one that is merged into
    subst hhost
    obtain ⟨r, hr, hrh⟩ := any_eq_true.1 hany
    obtain ⟨c, hc⟩ : ∃ c, rows.find? (fun r => decide (r.host = new.host)) = some c :=
      Option.isSome_iff_exists.1 (find?_isSome.2 ⟨r, hr, hrh⟩)
    have hch : c.host = new.host := by simpa using find?_some hc
    rw [find?_map]
    have hcongr : ((fun r : Bouncer.RouteEntry => decide (r.host = new.host)) ∘
        fun r => if r.host = new.host then mergeRow r new else r) =
        fun r => decide (r.host = new.host) := by
      funext r
      simp only [Function.comp]
      split_ifs with h
      · rw [host_mergeRow]
      · rfl
    rw [hcongr, hc]
    simp [mergeInto, hch]
  · -- another host's row is merged into
    rw [find?_map]
    have hcongr : ((fun r : Bouncer.RouteEntry => decide (r.host = host)) ∘
        fun r => if r.host = new.host then mergeRow r new else r) =
        fun r => decide (r.host = host) := by
      funext r
      simp only [Function.comp]
      split_ifs with h
      · rw [host_mergeRow]
      · rfl
    rw [hcongr]
    cases hc : rows.find? fun r => decide (r.host = host) with
    | none => rfl
    | some c =>
      have hch : c.host = host := by simpa using find?_some hc
      simp [hch, Ne.symm hhost]
  · subst hhost
    have hnone : rows.find? (fun r => decide (r.host = new.host)) = none := by
      simpa using hany
    rw [find?_append, hnone]
    simp [mergeInto]
  · simp [hhost]

/-- **The row of a host is made from the host's routes alone**, one after another. -/
theorem rowAt_foldl (host : String) (news rows : List Bouncer.RouteEntry) :
    rowAt host (news.foldl addRow rows) =
      (news.filter fun r => r.host = host).foldl mergeInto (rowAt host rows) := by
  induction news generalizing rows with
  | nil => rfl
  | cons n news ih =>
    rw [foldl_cons, ih, rowAt_addRow]
    by_cases hn : n.host = host
    · simp [hn]
    · simp [hn]

/-- A row is merged from the routes of its host. -/
theorem rowAt_entries (host : String) (routes : List HTTPRoute) :
    rowAt host (componentRouteTableEntries routes) =
      (((rowsOf routes).filter fun r => r.host = host).foldl mergeInto none).map finishRow := by
  rw [componentRouteTableEntries, rowAt, find?_map]
  exact congrArg (Option.map finishRow) (rowAt_foldl host (rowsOf routes) [])

/-- Rows of one question merge to one of that question. -/
theorem question_of_merge {relation object : String} {news : List Bouncer.RouteEntry}
    {cur : Option Bouncer.RouteEntry} (hcur : ∀ c ∈ cur, c.relation = relation ∧ c.object = object)
    (hnews : ∀ n ∈ news, n.relation = relation ∧ n.object = object) :
    ∀ c ∈ news.foldl mergeInto cur, c.relation = relation ∧ c.object = object := by
  induction news generalizing cur with
  | nil => exact hcur
  | cons n news ih =>
    refine ih (fun c hc => ?_) fun m hm => hnews m (mem_cons_of_mem _ hm)
    cases hc
    cases cur with
    | none => exact hnews n mem_cons_self
    | some d => exact hcur d rfl

theorem rowsOf_cons (r : HTTPRoute) (routes : List HTTPRoute) : rowsOf (r :: routes) =
      (if asks r then r.hostnames.map (rowOf r.annotations) else []) ++ rowsOf routes := by
  rw [rowsOf, filter_cons]
  split_ifs
  · rfl
  · rfl

variable {routes : List HTTPRoute} {host : String}

/-- Only the routes of a host matter to its row. -/
theorem filter_rowsOf {keep : HTTPRoute → Bool} (h : ∀ r ∈ routes, host ∈ r.hostnames → keep r) :
    (rowsOf routes).filter (fun n => n.host = host) =
      (rowsOf (routes.filter keep)).filter fun n => n.host = host := by
  induction routes with
  | nil => rfl
  | cons r routes ih =>
    have ih := ih fun r' hr' => h r' (mem_cons_of_mem _ hr')
    rw [filter_cons, rowsOf_cons, filter_append, ih]
    split_ifs with hasks hkeep hkeep
    · rw [rowsOf_cons, if_pos hasks, filter_append]
    · have hnone : (r.hostnames.map (rowOf r.annotations)).filter (fun n => n.host = host) = [] :=
        filter_eq_nil_iff.2 fun n hn => by
          obtain ⟨y, hy, rfl⟩ := mem_map.1 hn
          have hyh : y ≠ host := fun heq => hkeep (h r mem_cons_self (heq ▸ hy))
          simpa [rowOf] using hyh
      rw [hnone, nil_append]
    · rw [rowsOf_cons, if_neg hasks, filter_append]
    · rfl

/-! ### The components of a cluster -/

/-- The routes that belong to a component, by their namespace and label. -/
def routesOf (x : Installed) (routes : List HTTPRoute) : List HTTPRoute :=
  routes.filter fun r => r.namespaceName = x.namespaceName && r.component = x.name

/-- No entry that another component routes is at the host of one that this one routes. -/
def OwnHosts (xs : List (Installed × RouteSettings)) : Prop :=
  ∀ x ∈ xs, ∀ y ∈ xs,
    (x.1.namespaceName, x.1.name) ≠ (y.1.namespaceName, y.1.name) →
      ∀ e ∈ routableExposures x.1.name x.1.profile, ∀ e' ∈ routableExposures y.1.name y.1.profile,
        exposureHost x.2.zone x.1.name e ≠ exposureHost y.2.zone y.1.name e'

instance OwnHosts.decidable (xs : List (Installed × RouteSettings)) : Decidable (OwnHosts xs) :=
  inferInstanceAs (Decidable (∀ x ∈ xs, ∀ y ∈ xs, _ → ∀ e ∈ routableExposures _ _, ∀ e' ∈ _, _))

theorem key_of_exposureRoute {x : Installed} {s : RouteSettings} {r : HTTPRoute}
    (h : r ∈ exposureRoutes x s) : r.namespaceName = x.namespaceName ∧ r.component = x.name := by
  obtain ⟨-, -, rfl⟩ := mem_map.1 h
  exact ⟨rfl, rfl⟩

/-- They are those of one component. -/
theorem rows_of_component {xs : List (Installed × RouteSettings)}
    (hhosts : OwnHosts xs) (hroutes : ∀ r ∈ routes, ∃ x ∈ xs, r ∈ exposureRoutes x.1 x.2)
    {x : Installed × RouteSettings} (hx : x ∈ xs) {R : HTTPRoute} (hR : R ∈ exposureRoutes x.1 x.2)
    (hhost : host ∈ R.hostnames) : (rowsOf routes).filter (fun n => n.host = host) =
      (rowsOf (routesOf x.1 routes)).filter fun n => n.host = host := by
  have hown : ∀ r ∈ routes, host ∈ r.hostnames →
      (r.namespaceName = x.1.namespaceName && r.component = x.1.name) := by
    intro r hr hmem
    obtain ⟨y, hy, hry⟩ := hroutes r hr
    obtain ⟨hns, hname⟩ := key_of_exposureRoute hry
    by_contra hne
    obtain ⟨e, he, heR⟩ := host_of_exposureRoute hR
    obtain ⟨e', he', her⟩ := host_of_exposureRoute hry
    rw [heR] at hhost
    rw [her] at hmem
    refine hhosts x hx y hy (fun hkey => hne ?_) e he e' he' ?_
    · obtain ⟨h1, h2⟩ := Prod.mk.inj hkey
      simp [hns, hname, h1, h2]
    · rw [← mem_singleton.1 hhost, ← mem_singleton.1 hmem]
  exact filter_rowsOf hown

/-- A component of a tenant `acme` with one entry behind the session, with a label of its
own or without. -/
def demoInstalled (name subDomain : String) : Installed × RouteSettings :=
  (⟨"tenant-acme", name, name,
    { demoProfile name "web" with
      expose := [{ name := "web", surface := .gateway, authMode := .oidc, subDomain := subDomain
                   backend := ⟨"", name, 80⟩ }]
      expose_nodup := by simp },
    { name := "acme" }, []⟩,
    ⟨⟨⟨"acme.k.example", false, ""⟩, "edge", "session", "id", "acme"⟩, "demo", "k.example", 0⟩)

/-- The route of an installed component. -/
def demoRoute (name subDomain : String) : HTTPRoute :=
  let x := demoInstalled name subDomain
  exposureRoute x.1 x.2
    { name := "web", surface := .gateway, authMode := .oidc, subDomain := subDomain
      backend := ⟨"", name, 80⟩ }

theorem demoRoute_mem (name subDomain : String) : demoRoute name subDomain ∈
      exposureRoutes (demoInstalled name subDomain).1 (demoInstalled name subDomain).2 := by
  simp [exposureRoutes, demoRoute, demoInstalled, routableExposures, ownGateway]

end Gentian.Edge
