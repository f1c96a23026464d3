/-
# The names of what is published

`internal/controller/component_perimeter.go` (`perimeterName`, and the names that
`ensurePerimeterProxy` gives its objects), `internal/controller/component_reconciler.go`
(the route's name in `ensureExposureRoute`) and
`internal/controller/gateway_platform_reconciler.go` (`perimeterTenantListeners`,
`publishedHost`, `perimeterListenerName`).

A name is put together from a component and an entry with a dash between them, or from a host
with its dots written as dashes, and is a hash of them when it is too long.  All of these may
hold dashes themselves, so two pairs and two hosts can have one name (`names_collide`): the
shared Gateway then has two listeners of one name, which makes it invalid.
-/

import Gentian.Addresses.MainAddress

namespace Gentian.Edge

open GoStrings Addresses List

/-! ### Names -/

/-- `perimeterName`.  `hash` is the first sixteen digits of a text's SHA-256. -/
def perimeterName (hash : String → String) (component entry : String) : String :=
  let name := "perimeter-" ++ component ++ "-" ++ entry
  if name.length ≤ 63 then name else "perimeter-" ++ hash (component ++ "/" ++ entry)

/-- The name of an entry's route. -/
def exposureRouteName (component entry : String) : String := component ++ "-" ++ entry

/-- The name of a host's listener, shortened by a hash. -/
def perimeterListenerName (hash : String → String) (host : String) : String :=
  let name := "perimeter-" ++ replaceAll host '.' '-'
  if name.length ≤ 63 then name else "perimeter-" ++ hash host

/-- The kinds of objects a component has. -/
inductive ObjectKind where
  | configMap
  | deployment
  | service
  | networkPolicy
  | httpRoute
deriving DecidableEq

/-- An object of a publishing proxy: in the tenant's DMZ, or in its namespace. -/
structure ObjectKey where
  kind : ObjectKind
  inDMZ : Bool
  name : String
deriving DecidableEq

/-- What `ensurePerimeterProxy` writes for one entry, in its order. -/
def perimeterObjects (hash : String → String) (component entry : String) : List ObjectKey :=
  let name := perimeterName hash component entry
  [⟨.configMap, true, name⟩, ⟨.deployment, true, name⟩, ⟨.service, true, name⟩,
    ⟨.networkPolicy, true, name ++ "-egress"⟩, ⟨.networkPolicy, true, name ++ "-ingress"⟩,
    ⟨.networkPolicy, false, name ++ "-ingress"⟩, ⟨.httpRoute, true, name⟩]

/-! ### Listeners -/

/-- A listener of the perimeter Gateway, with the tenant whose wildcard certificate it
has, or the cluster's own. -/
structure Listener where
  name : String
  hostname : String
  certificate : Option String
deriving DecidableEq

/-- Whether a host is a domain or one label below it. -/
def directlyUnder (host domain : String) : Bool :=
  if domain = "" then false
  else if host = domain then true
  else match cutSuffix host ("." ++ domain) with
    | some label => label ≠ "" && !contains label "."
    | none => false

/-- The host a publication is served under. -/
def publishedHost (profiles : String → Option Profile) (zone : Zone) (kernelDomain : String)
    (e : TenantExposure) : String :=
  match profiles e.install with
  | none => ""
  | some p =>
    if (check e.install p zone kernelDomain).isSome then ""
    else
      match p.expose.find? fun x => x.name = e.exposureName && x.surface = .perimeter &&
          x.approvedAs e.kind with
      | none => ""
      | some x => host zone e.install x

/-- The tenants whose surfaces are given listeners, and their exposures. -/
def servedExposures (i : Inputs) : List (Tenant × TenantExposure) :=
  (i.tenants.filter fun t => !t.deleting).flatMap fun t => t.exposures.map fun e => (t, e)

/-- The host of a tenant's publication. -/
def hostOf (i : Inputs) (te : Tenant × TenantExposure) : String :=
  publishedHost i.profiles (zoneOf te.1 i.cluster) i.cluster.kernelDomain te.2

/-- The alias of an exposure that is published, `""` when it has none. -/
def aliasOf (i : Inputs) (te : Tenant × TenantExposure) : String :=
  if hostOf i te = "" then "" else aliasHost i te.1.name te.2.install te.2.exposureName

/-- The hosts that are given a listener, in the order they are: every surface's own,
every alias, and the main address when a website holds it. -/
def publishedHosts (i : Inputs) : List (String × Option String) :=
  (((servedExposures i).map fun te => (hostOf i te,
      if directlyUnder (hostOf i te) i.cluster.kernelDomain then none else some te.1.name)) ++
    (servedExposures i).map fun te => (aliasOf i te, none)).filter (fun h => h.1 ≠ "") ++
  if (holder i).isSome then [(i.cluster.kernelDomain, none)] else []

/-- The listener of a host, unless one of the listeners has it already. -/
def addListener (hash : String → String) (out : List Listener) (h : String × Option String) :
    List Listener :=
  if out.any fun l => l.hostname = h.1 then out
  else out ++ [⟨perimeterListenerName hash h.1, h.1, h.2⟩]

/-- `perimeterTenantListeners`: a listener for each host that is published. -/
def perimeterTenantListeners (hash : String → String) (i : Inputs) : List Listener :=
  ((publishedHosts i).foldl (addListener hash) []).insertionSort fun a b => a.name ≤ b.name

variable {hash : String → String}

/-- The listeners that hosts come to, no two of one name. -/
structure Collected (hash : String → String) (hosts : List (String × Option String))
    (out : List Listener) : Prop where
  nodup : (out.map Listener.hostname).Nodup
  named : ∀ l ∈ out, l.name = perimeterListenerName hash l.hostname
  host : ∀ h, (∃ l ∈ out, l.hostname = h) ↔ ∃ c, (h, c) ∈ hosts

variable {hosts : List (String × Option String)} {out : List Listener} {c e : String}

/-- One host more. -/
theorem Collected.add (h : Collected hash hosts out) (x : String × Option String) :
    Collected hash (hosts ++ [x]) (addListener hash out x) := by
  rw [addListener]
  split_ifs with hany
  · obtain ⟨l, hl, hlx⟩ := any_eq_true.1 hany
    refine ⟨h.nodup, h.named, fun y => (h.host y).trans ⟨fun ⟨c, hc⟩ => ⟨c, by simp [hc]⟩, ?_⟩⟩
    rintro ⟨c, hc⟩
    rcases mem_append.1 hc with hc | hc
    · exact ⟨c, hc⟩
    · obtain rfl := mem_singleton.1 hc
      exact (h.host y).1 ⟨l, hl, by simpa using hlx⟩
  · have hnew : ∀ l ∈ out, l.hostname ≠ x.1 := by simpa using hany
    refine ⟨?_, ?_, fun y => ?_⟩
    · rw [map_append, nodup_append]
      refine ⟨h.nodup, by simp, ?_⟩
      rintro a ha b hb rfl
      obtain ⟨l, hl, rfl⟩ := mem_map.1 ha
      exact hnew l hl (by simpa using hb)
    · intro l hl
      rcases mem_append.1 hl with hl | hl
      · exact h.named l hl
      · obtain rfl := mem_singleton.1 hl
        rfl
    · constructor
      · rintro ⟨l, hl, rfl⟩
        rcases mem_append.1 hl with hl | hl
        · obtain ⟨c, hc⟩ := (h.host _).1 ⟨l, hl, rfl⟩
          exact ⟨c, by simp [hc]⟩
        · obtain rfl := mem_singleton.1 hl
          exact ⟨x.2, by simp⟩
      · rintro ⟨c, hc⟩
        rcases mem_append.1 hc with hc | hc
        · obtain ⟨l, hl, hly⟩ := (h.host y).2 ⟨c, hc⟩
          exact ⟨l, mem_append_left _ hl, hly⟩
        · obtain rfl := mem_singleton.1 hc
          exact ⟨_, mem_append_right _ (mem_singleton.2 rfl), rfl⟩

theorem collected_foldl (xs : List (String × Option String)) (h : Collected hash hosts out) :
    Collected hash (hosts ++ xs) (xs.foldl (addListener hash) out) := by
  induction xs generalizing hosts out with
  | nil => simpa using h
  | cons x xs ih => simpa using ih (h.add x)

/-- **The listeners**: one for each host that is published, under the host's name. -/
theorem perimeterTenantListeners_collected (hash : String → String) (i : Inputs) :
    Collected hash (publishedHosts i) (perimeterTenantListeners hash i) := by
  have hnone : Collected hash [] [] := ⟨by simp, by simp, by simp⟩
  have h : Collected hash (publishedHosts i) ((publishedHosts i).foldl (addListener hash) []) := by
    simpa using collected_foldl (publishedHosts i) hnone
  have hperm : (perimeterTenantListeners hash i).Perm _ := perm_insertionSort _ _
  refine ⟨(hperm.map _).nodup_iff.2 h.nodup, fun l hl => h.named l (hperm.mem_iff.1 hl),
    fun y => ?_⟩
  rw [← h.host y]
  exact exists_congr fun l => and_congr_left fun _ => hperm.mem_iff

/-! ### Names that differ -/

/-- The pattern and the length that an entry's name is held to. -/
def entryName (name : String) : Bool := Api.labelOf 38 name

/-- The two are one component, or neither's name and a dash go on to the other's as the name of
an entry may begin. -/
def ComponentsApart (c c' : String) : Prop :=
  c = c' ∨ Api.mayMeet 38 (c ++ "-") (c' ++ "-") = false
deriving Decidable

/-- Two hosts whose listeners have names of at most 63 characters, and that differ in nothing but
dots in the place of dashes. -/
def DashForDot (h h' : String) : Prop :=
  ("perimeter-" ++ replaceAll h '.' '-').length ≤ 63 ∧ replaceAll h '.' '-' = replaceAll h' '.' '-'
deriving Decidable

/-- **Routes of two components have names of their own**, over every entry, exactly when the
components are apart. -/
theorem componentsApart_iff {c c' : String} : ComponentsApart c c' ↔
    ∀ e e', entryName e = true → entryName e' = true →
      exposureRouteName c e = exposureRouteName c' e' → (c, e) = (c', e') := by
  constructor
  · rintro (rfl | hapart) e e' he he' heq
    · rw [(String.append_right_inj _).1 heq]
    · rw [Api.mayMeet_iff.2 ⟨e, e', he, he', heq⟩] at hapart
      cases hapart
  · intro hown
    rw [ComponentsApart, or_iff_not_imp_right, Bool.not_eq_false]
    intro hmeet
    obtain ⟨e, e', he, he', heq⟩ := Api.mayMeet_iff.1 hmeet
    exact congrArg Prod.fst (hown e e' he he' heq)

/-- A shortened name is none of the others. -/
theorem hashed_ne {text x : String} (hx : '-' ∉ x.toList) (ht : '-' ∈ text.toList) :
    "perimeter-" ++ text ≠ "perimeter-" ++ x := by
  intro h
  exact hx ((String.append_right_inj _).1 h ▸ ht)

/-- Two entries have two names. -/
theorem perimeterName_ne (hhash : ∀ s, '-' ∉ (hash s).toList) {c' e' : String}
    (hroute : exposureRouteName c e ≠ exposureRouteName c' e')
    (hdiffer : hash (c ++ "/" ++ e) ≠ hash (c' ++ "/" ++ e')) :
    perimeterName hash c e ≠ perimeterName hash c' e' := by
  have hdash : ∀ c e, '-' ∈ (c ++ "-" ++ e).toList := by simp
  have hassoc : ∀ c e, "perimeter-" ++ c ++ "-" ++ e = "perimeter-" ++ (c ++ "-" ++ e) :=
    fun c e => by simp [String.append_assoc]
  simp only [perimeterName, hassoc]
  split_ifs
  · exact fun h => hroute ((String.append_right_inj _).1 h)
  · exact hashed_ne (hhash _) (hdash c e)
  · exact (hashed_ne (hhash _) (hdash c' e')).symm
  · exact fun h => hdiffer ((String.append_right_inj _).1 h)

/-- **The listeners of two hosts have one name exactly when they differ in nothing but dots for
dashes** and are not too long for it. -/
theorem perimeterListenerName_eq_iff (hhash : ∀ s, '-' ∉ (hash s).toList) {h h' : String}
    (hdot : '.' ∈ h.toList) (hdot' : '.' ∈ h'.toList) (hdiffer : hash h ≠ hash h') :
    perimeterListenerName hash h = perimeterListenerName hash h' ↔ DashForDot h h' := by
  have hdash : ∀ h, '.' ∈ h.toList → '-' ∈ (replaceAll h '.' '-').toList := by
    intro h hdot
    rw [toList_replaceAll]
    exact mem_map.2 ⟨'.', hdot, by simp⟩
  simp only [perimeterListenerName, DashForDot]
  constructor
  · intro heq
    split_ifs at heq with hshort hshort'
    · exact ⟨hshort, (String.append_right_inj _).1 heq⟩
    · exact absurd heq (hashed_ne (hhash _) (hdash h hdot))
    · exact absurd heq.symm (hashed_ne (hhash _) (hdash h' hdot'))
    · exact absurd ((String.append_right_inj _).1 heq) hdiffer
  · rintro ⟨hshort, heq⟩
    rw [if_pos hshort, heq, if_pos (heq ▸ hshort)]

/-- And no object in common. -/
theorem perimeterObjects_disjoint {c' e' : String}
    (hne : perimeterName hash c e ≠ perimeterName hash c' e') (o : ObjectKey)
    (ho : o ∈ perimeterObjects hash c e) : o ∉ perimeterObjects hash c' e' := by
  -- the two suffixes of a policy's name are none of each other
  have hsuffix : ∀ a b, a ++ "-egress" ≠ b ++ "-ingress" := by
    intro a b h
    rcases hasSuffix_of_append_eq h with h | h
    · cases h
    · cases h
  intro ho'
  simp only [perimeterObjects, mem_cons, not_mem_nil, or_false] at ho ho'
  rcases ho with rfl | rfl | rfl | rfl | rfl | rfl | rfl <;>
    simp [hne, hsuffix, (hsuffix _ _).symm] at ho'

/-- The names of two components differ, whatever their entries are: those of the routes, of the
proxies and of every object of the proxies. -/
def NamesDiffer (hash : String → String) (c c' : String) : Prop :=
  ∀ e e', entryName e = true → entryName e' = true → (c, e) ≠ (c', e') →
    exposureRouteName c e ≠ exposureRouteName c' e' ∧
      (hash (c ++ "/" ++ e) ≠ hash (c' ++ "/" ++ e') →
        perimeterName hash c e ≠ perimeterName hash c' e' ∧
          ∀ o ∈ perimeterObjects hash c e, o ∉ perimeterObjects hash c' e')

/-- The hosts that are published, each once. -/
def hostNames (i : Inputs) : List String := (publishedHosts i).map Prod.fst

/-- **Names that are given to what is published differ** exactly when no component's name goes on
to another's and no two hosts differ in nothing but dots for dashes: per pair of components over
every entry of theirs, per pair of hosts, and over all the listeners of a cluster. -/
theorem published_names_differ (hhash : ∀ s, '-' ∉ (hash s).toList) :
    (∀ c c', NamesDiffer hash c c' ↔ ComponentsApart c c') ∧
      (∀ h h', '.' ∈ h.toList → '.' ∈ h'.toList → hash h ≠ hash h' →
        (perimeterListenerName hash h ≠ perimeterListenerName hash h' ↔ ¬DashForDot h h')) ∧
      ∀ i : Inputs, (∀ h ∈ hostNames i, '.' ∈ h.toList) →
        (∀ h ∈ hostNames i, ∀ h' ∈ hostNames i, h ≠ h' → hash h ≠ hash h') →
        (((perimeterTenantListeners hash i).map Listener.name).Nodup ↔
          ∀ h ∈ hostNames i, ∀ h' ∈ hostNames i, h ≠ h' → ¬DashForDot h h') := by
  refine ⟨fun c c' => ?_, fun h h' hdot hdot' hdiffer =>
    not_congr (perimeterListenerName_eq_iff hhash hdot hdot' hdiffer), fun i hdot hdiffer => ?_⟩
  · rw [componentsApart_iff]
    constructor
    · intro hnames e e' he he' heq
      by_contra hne
      exact (hnames e e' he he' hne).1 heq
    · intro hroutes e e' he he' hne
      have hroute := fun heq => hne (hroutes e e' he he' heq)
      refine ⟨hroute, fun hdiffer => ?_⟩
      have hname := perimeterName_ne hhash hroute hdiffer
      exact ⟨hname, perimeterObjects_disjoint hname⟩
  · have hcoll := perimeterTenantListeners_collected hash i
    have hmem : ∀ h, h ∈ hostNames i ↔ ∃ l ∈ perimeterTenantListeners hash i, l.hostname = h := by
      intro h
      rw [hcoll.host h, hostNames, mem_map]
      simp
    rw [nodup_map_iff_inj_on hcoll.nodup.of_map]
    constructor
    · intro hinj h hh h' hh' hne hconfused
      obtain ⟨l, hl, rfl⟩ := (hmem h).1 hh
      obtain ⟨l', hl', rfl⟩ := (hmem h').1 hh'
      have hname := (perimeterListenerName_eq_iff hhash (hdot _ hh) (hdot _ hh')
        (hdiffer _ hh _ hh' hne)).2 hconfused
      rw [← hcoll.named l hl, ← hcoll.named l' hl'] at hname
      exact hne (congrArg Listener.hostname (hinj l hl l' hl' hname))
    · intro hapart l hl l' hl' hname
      refine inj_on_of_nodup_map hcoll.nodup hl hl' ?_
      by_contra hne
      have hh := (hmem _).2 ⟨l, hl, rfl⟩
      have hh' := (hmem _).2 ⟨l', hl', rfl⟩
      rw [hcoll.named l hl, hcoll.named l' hl', perimeterListenerName_eq_iff hhash (hdot _ hh)
        (hdot _ hh') (hdiffer _ hh _ hh' hne)] at hname
      exact hapart _ hh _ hh' hne hname

/-- An entry on the perimeter. -/
def demoEntry (name service : String) : ExposureSpec where
  name := name
  surface := .perimeter
  authMode := .none
  paths := ["/"]
  backend := ⟨"", service, 80⟩

/-- A profile with one such entry. -/
def demoProfile (name entry : String) : Profile where
  name := name
  launch := .tile
  expose := [demoEntry entry name]
  expose_nodup := by simp
  origin := ""
  bundle := ""
  edition := ""

/-- A cluster of two tenants, each with one published surface. -/
def demoInputs (tenant install tenant' install' : String) : Inputs where
  tenants := [{ name := tenant, exposures := [{ install := install, exposureName := "share" }] },
    { name := tenant', exposures := [{ install := install', exposureName := "share" }] }]
  profiles := fun name => some (demoProfile name "share")
  cluster := ⟨"k.example", "kernel", "multi", ""⟩
  now := 0

/-- A hash that keeps hyphens out. -/
def demoHash (s : String) : String := replaceAll s '-' '0'

theorem not_mem_demoHash (s : String) : '-' ∉ (demoHash s).toList :=
  not_mem_replaceAll s (by decide)

/-- Two components of plain names, and two tenants that publish from an install of one name. -/
theorem wiki_names_differ : NamesDiffer demoHash "wiki" "files" ∧
      ((perimeterTenantListeners demoHash (demoInputs "acme" "wiki" "zeta" "wiki")).map
        Listener.name).Nodup :=
  have h := published_names_differ not_mem_demoHash
  ⟨(h.1 "wiki" "files").2 (by decide +kernel),
    (h.2.2 (demoInputs "acme" "wiki" "zeta" "wiki") (by decide +kernel) (by decide +kernel)).2
      (by decide +kernel)⟩

/-- **Names that collide.**  The entry `c` of a component `a-b` has the proxy and the
route's name of the entry `b-c` of a component `a` in the same tenant.  And a component
`a` of a tenant `b-c` publishes at a host whose listener has the name of another
tenant's, `c`, that publishes from a component `a-b`. -/
theorem names_collide : perimeterName demoHash "a-b" "c" = perimeterName demoHash "a" "b-c" ∧
      exposureRouteName "a-b" "c" = exposureRouteName "a" "b-c" ∧
      (perimeterTenantListeners demoHash (demoInputs "b-c" "a" "c" "a-b")).map
          (fun l => (l.name, l.hostname)) =
        [("perimeter-a-b-c-k-example", "a.b-c.k.example"),
          ("perimeter-a-b-c-k-example", "a-b.c.k.example")] := by
  decide +kernel

end Gentian.Edge
