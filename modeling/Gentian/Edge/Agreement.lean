/-
# One decision about a published address

`internal/controller/component_perimeter.go` (`livePerimeterExposures`,
`mainAddressFor`), `internal/controller/component_desktop.go` (`tenantExposures`) and
`mainAddressWebsiteServing` of `internal/controller/kernel_gateway_routes.go`.

A component's pass publishes the surfaces of the build it is pinned to.  The listeners are
made, and the front door decides whether a website holds the main address, from the newest
build any tenant installed, so a surface can be published at a host that has no listener, and
a website can hold the main address for itself alone (`builds_disagree`).
-/

import Gentian.Edge.Listeners

namespace Gentian.Edge

open GoStrings Addresses List

/-- `ExposureEnablement`, as far as it is read here. -/
structure Enablement where
  exposureName : String
  kind : Option ExposureKind
  expiresAt : Option ℕ
  apex : Bool
  aliasName : String
deriving DecidableEq

/-- What a component is told of a publication. -/
def enablement (e : TenantExposure) : Enablement :=
  ⟨e.exposureName, e.kind, e.expiresAt, e.apex, e.aliasName⟩

/-- `tenantExposures`: what a component's `spec.exposures` is. -/
def tenantExposures (t : Tenant) (install : String) : List Enablement :=
  (t.exposures.filter fun e => e.install = install).map enablement

/-- What a component is told of the main address. -/
structure PerimeterMainAddress where
  entry : String := ""
  host : String := ""
  signInKept : Bool := false
  held : Bool := false
deriving DecidableEq

/-- `perimeterEnablement`, without the release. -/
structure PerimeterEnablement where
  spec : ExposureSpec
  on : Enablement
  host : String
  website : Bool
  stepsBack : Bool
  keepsSignIn : Bool
deriving DecidableEq

/-- The entry of a profile on the perimeter. -/
def perimeterEntry (p : Profile) (name : String) : Option ExposureSpec :=
  (p.expose.filter fun e => e.surface = .perimeter && e.name = name).getLast?

/-- One step of `livePerimeterExposures`: the surface of an enablement that is in
force. -/
def liveSurface (component : String) (p : Profile) (zone : Zone) (now : ℕ)
    (main : PerimeterMainAddress) (on : Enablement) : Option PerimeterEnablement :=
  match perimeterEntry p on.exposureName with
  | none => none
  | some spec =>
    if !spec.approvedAs on.kind then none
    else if expired now on.expiresAt then none
    else
      let place := perimeterHost zone component spec on.apex main.entry main.host
      if place.1 = "" then none
      else some ⟨spec, on, place.1, place.2, zone.kernel && spec.apex && main.held,
        main.signInKept⟩

/-- `livePerimeterExposures`: the entries a component renders. -/
def livePerimeterExposures (component : String) (p : Profile) (exposures : List Enablement)
    (zone : Zone) (now : ℕ) (main : PerimeterMainAddress) : List PerimeterEnablement :=
  exposures.filterMap (liveSurface component p zone now main)

/-- `profiles[comp.Name] = profile`. -/
def withProfile (i : Inputs) (component : String) (p : Profile) : Inputs :=
  { i with profiles := fun name => if name = component then some p else i.profiles name }

/-- The holder of the main address that a component finds. -/
def holderFor (i : Inputs) (component : String) (p : Profile) : Option Claim :=
  holder (withProfile i component p)

/-- `mainAddressFor`, without the condition it writes. -/
def mainAddressFor (i : Inputs) (component : String) (p : Profile) (t : Tenant) :
    PerimeterMainAddress :=
  if p.expose.any (fun e => e.surface = .perimeter && e.apex) ||
      (tenantExposures t component).any Enablement.apex then
    let main : PerimeterMainAddress :=
      { signInKept := !Api.isSingle i.cluster.tenancyMode
        held := (holderFor i component p).isSome }
    if adoptsKernelRealm t i.cluster.kernelRealm then main
    else match verdictFor (withProfile i component p) t component with
      | none => main
      | some v =>
        if v.entry ≠ "" then { main with entry := v.entry, host := i.cluster.kernelDomain }
        else main
  else {}

/-- The surfaces a component's pass publishes, with the profile it renders from. -/
def publishedBy (i : Inputs) (t : Tenant) (component : String) (p : Profile) :
    List PerimeterEnablement :=
  livePerimeterExposures component p (tenantExposures t component) (zoneOf t i.cluster) i.now
    (mainAddressFor i component p t)

/-! ### Profiles with the same entries -/

/-- The cluster's profile of the component's name declares the entries that the build
does which the component renders from. -/
def SameEntries (i : Inputs) (component : String) (p : Profile) : Prop :=
  ∃ q, i.profiles component = some q ∧ q.expose = p.expose

variable {i : Inputs} {component : String} {p : Profile}

section

variable (h : SameEntries i component p)

include h

theorem apexEntry_withProfile (install name : String) :
    apexEntry ((withProfile i component p).profiles install) name =
      apexEntry (i.profiles install) name := by
  obtain ⟨q, hq, hexpose⟩ := h
  by_cases hi : install = component
  · subst hi
    simp [withProfile, apexEntry, hq, hexpose]
  · simp [withProfile, hi]

theorem refusal_withProfile (t : Tenant) (e : TenantExposure) :
    (withProfile i component p).refusal t e = i.refusal t e := by
  rw [Inputs.refusal, apexEntry_withProfile h]
  rfl

/-- The component knows the same holder. -/
theorem holderFor_eq : holderFor i component p = holder i := by
  have hcandidates : ∀ t, (withProfile i component p).candidates t = i.candidates t := fun t => by
    simp [Inputs.candidates, refusal_withProfile h]
  have hmain : (withProfile i component p).mainTenant = i.mainTenant := rfl
  simp [holderFor, holder, hmain, hcandidates]

end

variable {t : Tenant}

/-- A verdict with an entry has a holder. -/
theorem holder_of_verdict {install : String} : ∀ {es} {v0 : Option Verdict} {v : Verdict},
      verdictLoop i t install es v0 = some v → v.entry ≠ "" →
        (∀ w, v0 = some w → w.entry = "") → (holder i).isSome
  | [], v0, v, h, hne, h0 => absurd (h0 v h) hne
  | e :: es, v0, v, h, hne, h0 => by
    rw [verdictLoop] at h
    have hempty : ∀ w, some (⟨""⟩ : Verdict) = some w → w.entry = "" := by
      rintro w hw
      rw [← Option.some.inj hw]
    split_ifs at h with h1 h2 h3 h4
    · exact holder_of_verdict h hne h0
    · exact holder_of_verdict h hne h0
    · exact holder_of_verdict h hne hempty
    · rw [h4]
      rfl
    · exact holder_of_verdict h hne hempty

/-- A component serves the main address only if somebody holds it. -/
theorem holder_of_mainAddress (h : (mainAddressFor i component p t).host ≠ "") :
    (mainAddressFor i component p t).host = i.cluster.kernelDomain ∧
      (holderFor i component p).isSome := by
  rw [mainAddressFor] at h ⊢
  split_ifs at h ⊢ with hconcerned hkernel
  · exact absurd rfl h
  · split at h
    · exact absurd rfl h
    next v hv =>
      split_ifs at h with hentry
      · simp only [hentry, ne_eq, not_false_eq_true, if_true, true_and]
        exact holder_of_verdict hv hentry (nofun)
      · exact absurd rfl h
  · exact absurd rfl h

variable {e : TenantExposure} {zone : Zone}

/-- What is rendered was published and is in the profile. -/
theorem mem_livePerimeterExposures {exposures : List Enablement} {now : ℕ}
    {main : PerimeterMainAddress} {s : PerimeterEnablement}
    (h : s ∈ livePerimeterExposures component p exposures zone now main) :
    s.on ∈ exposures ∧ s.spec ∈ p.expose ∧ s.spec.surface = .perimeter ∧
      s.spec.name = s.on.exposureName ∧ s.spec.approvedAs s.on.kind ∧
      expired now s.on.expiresAt = false ∧ s.host ≠ "" ∧
      s.host = (perimeterHost zone component s.spec s.on.apex main.entry main.host).1 := by
  obtain ⟨on, hon, hs⟩ := mem_filterMap.1 h
  rw [liveSurface] at hs
  split at hs
  · cases hs
  next spec hspec =>
    obtain ⟨hmem, hprops⟩ := mem_filter.1 (mem_of_getLast? hspec)
    obtain ⟨hsurface, hname⟩ : spec.surface = .perimeter ∧ spec.name = on.exposureName := by
      simpa using hprops
    dsimp only at hs
    split_ifs at hs with happroved hexpired hhost
    cases hs
    exact ⟨hon, hmem, hsurface, hname, by simpa using happroved, by simpa using hexpired, hhost,
      rfl⟩

/-- Both sides come to one host. -/
theorem publishedHost_eq {profiles : String → Option Profile} {kernelDomain : String} {q : Profile}
    {spec : ExposureSpec} (hq : profiles e.install = some q)
    (hcheck : check e.install q zone kernelDomain = none) (hspec : spec ∈ q.expose)
    (hsurface : spec.surface = .perimeter) (hname : spec.name = e.exposureName)
    (happroved : spec.approvedAs e.kind) :
    publishedHost profiles zone kernelDomain e = host zone e.install spec := by
  rw [publishedHost, hq]
  simp only [hcheck, Option.isSome_none, Bool.false_eq_true, if_false]
  cases hfind : q.expose.find? fun x => x.name = e.exposureName && x.surface = .perimeter &&
      x.approvedAs e.kind with
  | none =>
    have := find?_eq_none.1 hfind spec hspec
    simp [hname, hsurface, happroved] at this
  | some x =>
    have hx := find?_some hfind
    have hxname : x.name = spec.name := by
      simp only [Bool.and_eq_true, decide_eq_true_eq] at hx
      rw [hx.1.1, hname]
    rw [inj_on_of_nodup_map q.expose_nodup (mem_of_find?_eq_some hfind) hspec hxname]

/-- A host that is published has a listener. -/
theorem listener_of_published (hash : String → String) {h : String}
    (hmem : h ∈ (publishedHosts i).map Prod.fst) :
    ∃ l ∈ perimeterTenantListeners hash i, l.hostname = h := by
  obtain ⟨⟨h, c⟩, hc, rfl⟩ := mem_map.1 hmem
  exact ((perimeterTenantListeners_collected hash i).host h).2 ⟨c, hc⟩

/-- The host of a live tenant's entry is published. -/
theorem mem_published_of_exposure
    (ht : t ∈ i.tenants) (hlive : t.deleting = false) (he : e ∈ t.exposures)
    (hne : hostOf i (t, e) ≠ "") : hostOf i (t, e) ∈ (publishedHosts i).map Prod.fst := by
  have hserved : (t, e) ∈ servedExposures i :=
    mem_flatMap.2 ⟨t, by simp [ht, hlive], mem_map.2 ⟨e, he, rfl⟩⟩
  refine mem_map.2 ⟨(hostOf i (t, e), if directlyUnder (hostOf i (t, e))
    i.cluster.kernelDomain then none else some t.name), ?_, rfl⟩
  refine mem_append_left _ (mem_filter.2 ⟨mem_append_left _ ?_, by simpa using hne⟩)
  exact mem_map.2 ⟨(t, e), hserved, rfl⟩

/-- So is the main address. -/
theorem mem_published_of_holder (h : (holder i).isSome) :
    i.cluster.kernelDomain ∈ (publishedHosts i).map Prod.fst := by
  refine mem_map.2 ⟨(i.cluster.kernelDomain, none), mem_append_right _ ?_, rfl⟩
  simp [h]

/-- An entry at the apex. -/
def websiteEntry : ExposureSpec := { demoEntry "site" "site" with apex := true }

/-- A profile of these entries. -/
def profileWith (entries : List ExposureSpec) (h : (entries.map ExposureSpec.name).Nodup) :
    Profile :=
  { demoProfile "site" "share" with expose := entries, expose_nodup := h }

/-- The user tenant, with a website that was published for the main address and a page
of its own. -/
def siteTenant : Tenant where
  name := "user"
  exposures := [{ install := "site", exposureName := "site", apex := true },
    { install := "site", exposureName := "share" }]

/-- A single-tenancy cluster with that tenant, and its profile of the install. -/
def siteInputs (current : Profile) : Inputs where
  tenants := [siteTenant]
  profiles := fun name => if name = "site" then some current else none
  cluster := ⟨"k.example", "kernel", "single", ""⟩
  now := 0

/-- The build with two entries. -/
def siteBuild : Profile := profileWith [websiteEntry, demoEntry "share" "site"] (by decide)

/-- The build with none. -/
def emptyBuild : Profile := profileWith [] (by decide)

end Gentian.Edge
