/-
# Whose a volume claim is

`PVCBelongsToApp`, `OwnedKeys`, `IsAppRelease`, `OwnsRelease` and `AppVolumes` of
`internal/backup/inventory.go`, and `ExtensionOwner` and `DataHolders` of
`internal/backup/retained.go`.  A claim is an app's when a label or its name matches and the
Helm release it records, if it records one, is the app's:

| release | name |
| --- | --- |
| of the app | `<app>-release`, or `<namespace>-<app>` when a chart installed it |
| of an extension | `<app>-<extension>-release` |
| without a profile | `<app>-…-release` |

A name can be read in more than one of these ways (`extension_in_both`).  `DataHolders` reads
an app out of each of three places of a claim; `holder_has_volume` says which of them `AppVolumes`
gives the claim to.
-/

import Gentian.Backup.Inventory

namespace Gentian.Backup

open GoStrings List

/-! ### Claims and releases -/

/-- `PersistentVolumeClaim`: its name, its labels `gentianos.io/app`,
`app.kubernetes.io/instance` and `app.kubernetes.io/name`, and Helm's annotation. -/
structure VolumeClaim where
  name : String
  appLabel : Option String
  instanceLabel : Option String
  nameLabel : Option String
  releaseName : Option String
deriving DecidableEq

/-- `PVCBelongsToApp`: whether a claim's labels or name are an app's. -/
def pvcBelongsToApp (c : VolumeClaim) (app family : String) : Bool :=
  c.appLabel.getD "" = app ||
  c.instanceLabel.any (fun value => hasPrefix value app) ||
  c.nameLabel.any (fun name => name = app || (family ≠ "" && name = family)) ||
  contains c.name app || (family ≠ "" && contains c.name family)

/-- The apps of a tenant and their addons. -/
def tenantApps (t : Tenant) : List String := t.apps.flatMap fun a => a.profile :: a.addons

/-- The names an app's releases go by: its own, its extensions' and its addons'. -/
def ownedKeys (t : Tenant) (app : String) (extensions : List String) : List String :=
  app :: (extensions.map fun ext => app ++ "-" ++ ext).filter fun key =>
    !(tenantApps t).contains key

/-- The release of an app. -/
def appRelease (app : String) : String := app ++ "-release"

/-- The release of an extension of an app. -/
def extensionRelease (app extension : String) : String := app ++ "-" ++ extension ++ "-release"

/-- The release of an app that is installed directly. -/
def directRelease (ns app : String) : String := ns ++ "-" ++ app

/-- Whether a release is one of an app, whose profile may not be known. -/
def isAppRelease (release ns app : String) (extensions : List String) (known : Bool) : Bool :=
  if release = appRelease app || release = directRelease ns app then true
  else if !known then hasPrefix release (app ++ "-") && hasSuffix release "-release"
  else extensions.any fun ext => release = extensionRelease app ext

/-- The release a claim says it belongs to. -/
def claimRelease (c : VolumeClaim) : String :=
  statedOr (c.releaseName.getD "") (c.instanceLabel.getD "")

/-- Whether a release has the name of an app of the tenant that is not this one. -/
def namesAnother (t : Tenant) (app release : String) : Bool :=
  (cutSuffix release "-release").any fun key => key ≠ app && (tenantApps t).contains key

/-- Whether an app owns a release and no other app has its name. -/
def ownsRelease (t : Tenant) (app : String) (profile : Option ComponentProfile)
    (release : String) : Bool :=
  if namesAnother t app release then false
  else
    let extensions := (ownedKeys t app (sidecarNames profile)).tail.map fun key =>
      trimPrefix key (app ++ "-")
    isAppRelease release t.namespaceName app extensions profile.isSome

/-- The chart of a profile. -/
def chartName (profile : Option ComponentProfile) : String := (profile.bind (·.chart)).getD ""

/-- Whether a claim's release says that it is not the app's. -/
def vetoes (t : Tenant) (app : String) (profile : Option ComponentProfile) (c : VolumeClaim) :
    Bool :=
  claimRelease c ≠ "" && !ownsRelease t app profile (claimRelease c)

/-- `AppVolumes`: the names of the app's claims, and the claims that are left out, each
with the release it records. -/
def appVolumes (claims : List VolumeClaim) (t : Tenant) (app : String)
    (profile : Option ComponentProfile) : List String × List (String × String) :=
  let matching := claims.filter fun c => pvcBelongsToApp c app (chartName profile)
  ((matching.filter fun c => !vetoes t app profile c).map VolumeClaim.name,
    (matching.filter fun c => vetoes t app profile c).map fun c => (c.name, claimRelease c))

variable {t : Tenant} {app other key release ns : String} {profile : Option ComponentProfile}
  {claims : List VolumeClaim} {c : VolumeClaim}

/-- The names an app's releases go by. -/
theorem mem_ownedKeys {extensions : List String} : key ∈ ownedKeys t app extensions ↔
    key = app ∨ ∃ ext ∈ extensions, key = app ++ "-" ++ ext ∧ key ∉ tenantApps t := by
  simp only [ownedKeys, mem_cons, mem_filter, mem_map, Bool.not_eq_true',
    contains_eq_mem, decide_eq_false_iff_not]
  refine or_congr_right ⟨?_, ?_⟩
  · rintro ⟨⟨ext, hext, rfl⟩, hkey⟩
    exact ⟨ext, hext, rfl, hkey⟩
  · rintro ⟨ext, hext, rfl, hkey⟩
    exact ⟨⟨ext, hext, rfl⟩, hkey⟩

section

variable (hc : c ∈ claims) (hnodup : (claims.map VolumeClaim.name).Nodup)

include hc hnodup

/-- **A claim of the app's** matches it, and the release it records is the app's. -/
theorem mem_appVolumes :
    c.name ∈ (appVolumes claims t app profile).1 ↔
      pvcBelongsToApp c app (chartName profile) ∧ vetoes t app profile c = false := by
  simp only [appVolumes, mem_map, mem_filter, Bool.not_eq_true']
  constructor
  · rintro ⟨c', ⟨⟨hc', hmatch⟩, hveto⟩, hname⟩
    obtain rfl := inj_on_of_nodup_map hnodup hc' hc hname
    exact ⟨hmatch, hveto⟩
  · rintro ⟨hmatch, hveto⟩
    exact ⟨c, ⟨⟨hc, hmatch⟩, hveto⟩, rfl⟩

/-- A volume with a release is in an app's list only if the app owns that. -/
theorem ownsRelease_of_mem
    (hrelease : claimRelease c ≠ "") (h : c.name ∈ (appVolumes claims t app profile).1) :
    ownsRelease t app profile (claimRelease c) := by
  have hveto := ((mem_appVolumes hc hnodup).1 h).2
  simpa [vetoes, hrelease] using hveto

end

/-! ### The names of releases -/

/-- The names that an app's releases have, apart from the one of a chart that was
installed directly: the app's keys, or without a profile every name that begins like one. -/
def hasKey (t : Tenant) (app : String) (profile : Option ComponentProfile) (key : String) : Prop :=
  key ∈ ownedKeys t app (sidecarNames profile) ∨
    (profile = none ∧ hasPrefix key (app ++ "-") = true)

theorem appRelease_eq (app : String) : appRelease app = app ++ "-" ++ "release" := by
  rw [String.append_assoc]
  rfl

instance hasKey.decidable (t : Tenant) (app : String) (profile : Option ComponentProfile)
    (key : String) : Decidable (hasKey t app profile key) :=
  inferInstanceAs (Decidable (_ ∨ _))

/-- The names of an app's releases: that of a chart that was installed directly, or one of the
app's keys before `-release`, and not `<app>-release` of another installed app. -/
def HasRelease (t : Tenant) (app : String) (profile : Option ComponentProfile)
    (release : String) : Prop :=
  namesAnother t app release = false ∧ (release = directRelease t.namespaceName app ∨
    ∃ key, release = appRelease key ∧ hasKey t app profile key)

/-- **What a release of the app's is called.** -/
theorem ownsRelease_iff : ownsRelease t app profile release ↔ HasRelease t app profile release := by
  rw [ownsRelease, HasRelease]
  cases hanother : namesAnother t app release with
  | true => simp
  | false =>
    simp only [Bool.false_eq_true, if_false, true_and]
    rw [isAppRelease]
    split_ifs with hown hknown
    · rw [Bool.or_eq_true, decide_eq_true_eq, decide_eq_true_eq] at hown
      refine iff_of_true rfl ?_
      rcases hown with hown | hown
      · exact .inr ⟨app, hown, .inl (mem_ownedKeys.2 (.inl rfl))⟩
      · exact .inl hown
    all_goals
      rw [Bool.or_eq_true, decide_eq_true_eq, decide_eq_true_eq, not_or] at hown
      rw [or_iff_right hown.2]
    · -- without a profile: every name that begins like the app's
      have hnone : profile = none := by simpa using hknown
      rw [Bool.and_eq_true]
      constructor
      · rintro ⟨hstart, hsuffix⟩
        obtain ⟨x, hx⟩ := hasPrefix_iff.1 hstart
        obtain ⟨key, hkey⟩ := hasSuffix_iff.1 hsuffix
        refine ⟨key, hkey, ?_⟩
        have hjoin : app ++ "-" ++ x = key ++ "-" ++ "release" :=
          hx.symm.trans (hkey.trans (appRelease_eq key))
        rcases join_cases rfl (by decide) hjoin with ⟨rfl, -⟩ | ⟨y, rfl⟩
        · exact .inl (mem_ownedKeys.2 (.inl rfl))
        · exact .inr ⟨hnone, hasPrefix_append _ y⟩
      · rintro ⟨key, rfl, hkey⟩
        refine ⟨?_, hasSuffix_append _ _⟩
        rcases hkey with hkey | ⟨-, hkey⟩
        · rcases mem_ownedKeys.1 hkey with rfl | ⟨ext, hext, -⟩
          · exact absurd rfl hown.1
          · rw [hnone] at hext
            cases hext
        · obtain ⟨y, rfl⟩ := hasPrefix_iff.1 hkey
          rw [appRelease, String.append_assoc]
          exact hasPrefix_append _ _
    · -- with one: the app's declared extensions
      have hsome : profile ≠ none := by
        intro hnone
        simp [hnone] at hknown
      rw [any_eq_true]
      constructor
      · rintro ⟨ext, hext, heq⟩
        obtain ⟨key, hkey, rfl⟩ := mem_map.1 hext
        obtain ⟨ext, -, rfl⟩ := mem_map.1 (mem_of_mem_filter hkey)
        rw [decide_eq_true_eq, trimPrefix_append] at heq
        exact ⟨app ++ "-" ++ ext, heq, .inl (mem_of_mem_tail hkey)⟩
      · rintro ⟨key, rfl, hkey⟩
        rcases hkey with hkey | ⟨hnone, -⟩
        · rcases mem_cons.1 hkey with rfl | htail
          · exact absurd rfl hown.1
          · obtain ⟨ext, -, rfl⟩ := mem_map.1 (mem_of_mem_filter htail)
            refine ⟨ext, mem_map.2 ⟨_, htail, trimPrefix_append _ ext⟩, ?_⟩
            rw [decide_eq_true_eq]
            rfl
        · exact absurd hnone hsome

/-- The name of a release of a chart that was installed directly could be another's. -/
def endsInRelease (app : String) : Bool := app = "release" || hasSuffix app "-release"

theorem endsInRelease_of_direct (h : directRelease ns app = appRelease key) :
    endsInRelease app := by
  have hjoin : ns ++ "-" ++ app = key ++ "-" ++ "release" := h.trans (appRelease_eq key)
  rcases join_cases rfl (by decide) hjoin with ⟨-, rfl⟩ | ⟨x, rfl⟩
  · rfl
  · have happ : app = x ++ "-release" := by
      refine (String.append_right_inj (ns ++ "-")).1 (hjoin.trans ?_)
      rw [String.append_assoc, String.append_assoc]
      rfl
    rw [happ, endsInRelease, hasSuffix_append, Bool.or_true]

theorem namesAnother_of_installed (hinstalled : app ∈ tenantApps t) (hne : other ≠ app) :
    namesAnother t other (appRelease app) := by
  have hcut : cutSuffix (appRelease app) "-release" = some app := cutSuffix_eq_some.2 rfl
  simp [namesAnother, hcut, hinstalled, hne.symm]

/-- A name of an app is the app's, or goes on from it with a hyphen. -/
theorem hasKey_cases (h : hasKey t app profile key) : key = app ∨ hasPrefix key (app ++ "-") := by
  rcases h with h | ⟨-, h⟩
  · rcases mem_ownedKeys.1 h with rfl | ⟨ext, -, rfl, -⟩
    · exact .inl rfl
    · exact .inr (hasPrefix_append _ ext)
  · exact .inr h

/-- No name of a release is both apps'. -/
def ReleasesApart (t : Tenant) (profiles : String → Option ComponentProfile)
    (app other : String) : Prop :=
  ∀ release, release ≠ "" → ¬(HasRelease t app (profiles app) release ∧
    HasRelease t other (profiles other) release)

/-- Neither app is called like a release, and the profile of the first is there and none of its
extensions has a name that the second's releases have, or neither name begins the other. -/
def namesApart (t : Tenant) (profiles : String → Option ComponentProfile)
    (app other : String) : Prop :=
  endsInRelease app = false ∧ endsInRelease other = false ∧
    (((profiles app).isSome = true ∧ ∀ ext ∈ sidecarNames (profiles app),
        ¬hasKey t other (profiles other) (app ++ "-" ++ ext)) ∨
      (hasPrefix app (other ++ "-") = false ∧ hasPrefix other (app ++ "-") = false))

instance namesApart.decidable (t : Tenant) (profiles : String → Option ComponentProfile)
    (app other : String) : Decidable (namesApart t profiles app other) :=
  inferInstanceAs (Decidable (_ ∧ _ ∧ _))

/-- **Apps of such names have no release in common**, when the first is installed. -/
theorem releasesApart_of_namesApart {profiles : String → Option ComponentProfile}
    (hinstalled : app ∈ tenantApps t) (hne : other ≠ app)
    (hapart : namesApart t profiles app other) : ReleasesApart t profiles app other := by
  rintro release - ⟨⟨-, hown⟩, hanother, hown'⟩
  obtain ⟨happEnd, hotherEnd, hnames⟩ := hapart
  rcases hown with hdirect | ⟨key, hkey, hhas⟩
  · rcases hown' with hdirect' | ⟨key', hkey', -⟩
    · exact hne ((String.append_right_inj _).1 (hdirect'.symm.trans hdirect))
    · rw [endsInRelease_of_direct (hdirect.symm.trans hkey')] at happEnd
      cases happEnd
  · rcases hown' with hdirect' | ⟨key', hkey', hhas'⟩
    · rw [endsInRelease_of_direct (hdirect'.symm.trans hkey)] at hotherEnd
      cases hotherEnd
    · obtain rfl := (String.append_left_inj _).1 (hkey.symm.trans hkey')
      have hkeyApp : key ≠ app := by
        rintro rfl
        rw [hkey, namesAnother_of_installed hinstalled hne] at hanother
        cases hanother
      rcases hnames with ⟨hsome, hext⟩ | ⟨happOther, hotherApp⟩
      · -- the key is one of the app's extensions
        rcases hhas with hmem | ⟨hnone, -⟩
        · rcases mem_ownedKeys.1 hmem with heq | ⟨ext, hdeclared, rfl, -⟩
          · exact hkeyApp heq
          · exact hext ext hdeclared hhas'
        · exact absurd hsome (by simp [hnone])
      · have hprefix := (hasKey_cases hhas).resolve_left hkeyApp
        rcases hasKey_cases hhas' with rfl | hprefix'
        · exact absurd hprefix (by simp [hotherApp])
        · rcases nested_of_hasPrefix rfl hprefix hprefix' with rfl | h | h
          · exact hne rfl
          · exact absurd h (by simp [happOther])
          · exact absurd h (by simp [hotherApp])

/-- No claim that records a release is both apps'. -/
def VolumesApart (t : Tenant) (profiles : String → Option ComponentProfile)
    (app other : String) : Prop :=
  ∀ (claims : List VolumeClaim), ∀ c ∈ claims, (claims.map VolumeClaim.name).Nodup →
    claimRelease c ≠ "" → ¬(c.name ∈ (appVolumes claims t app (profiles app)).1 ∧
      c.name ∈ (appVolumes claims t other (profiles other)).1)

/-- **A volume claim is one app's exactly when no release is both apps'**, over every list of
claims; and so it is for an installed app when the names tell the two apart. -/
theorem volumes_apart (profiles : String → Option ComponentProfile) (t : Tenant)
    (app other : String) :
    (VolumesApart t profiles app other ↔ ReleasesApart t profiles app other) ∧
      (app ∈ tenantApps t → other ≠ app → namesApart t profiles app other →
        VolumesApart t profiles app other) := by
  have hiff : VolumesApart t profiles app other ↔ ReleasesApart t profiles app other := by
    constructor
    · rintro hvolumes release hrelease ⟨hown, hown'⟩
      -- a claim that both apps match by label and by name, and that records the release
      let c : VolumeClaim := ⟨other, some app, none, none, some release⟩
      have hc : claimRelease c = release := by simp [claimRelease, statedOr, c, hrelease]
      have hother : contains other other := contains_iff.2 ⟨"", "", by simp⟩
      refine hvolumes [c] c mem_cons_self (by simp) (by rwa [hc]) ⟨?_, ?_⟩
      · refine (mem_appVolumes mem_cons_self (by simp)).2 ⟨by simp [pvcBelongsToApp, c], ?_⟩
        rw [vetoes, hc, ownsRelease_iff.2 hown]
        simp
      · refine (mem_appVolumes mem_cons_self (by simp)).2
          ⟨by simp [pvcBelongsToApp, c, hother], ?_⟩
        rw [vetoes, hc, ownsRelease_iff.2 hown']
        simp
    · rintro hreleases claims c hc hnodup hrelease ⟨happ, hother⟩
      exact hreleases _ hrelease
        ⟨ownsRelease_iff.1 (ownsRelease_of_mem hc hnodup hrelease happ),
          ownsRelease_iff.1 (ownsRelease_of_mem hc hnodup hrelease hother)⟩
  exact ⟨hiff, fun hinstalled hne hnames =>
    hiff.2 (releasesApart_of_namesApart hinstalled hne hnames)⟩

/-- A profile that declares these extensions and no stores. -/
def profileWith (extensions : List String) : ComponentProfile :=
  ⟨extensions, none, none, false, none, false⟩

/-- Tenant `demo` with these apps installed. -/
def demoWith (apps : List String) : Tenant :=
  { plainTenant "demo" with apps := apps.map fun app => ⟨app, "", false, []⟩ }

/-- A claim that names its release. -/
def annotatedClaim (name release : String) : VolumeClaim := ⟨name, none, none, none, some release⟩

/-- A claim is among the volumes of an installed app and of one that is not, whose profile
is there or is gone. -/
def InBoth (known : Bool) : Prop :=
  ∃ (t : Tenant) (profiles : String → Option ComponentProfile) (claims : List VolumeClaim)
    (c : VolumeClaim) (app other : String), c ∈ claims ∧
    (claims.map VolumeClaim.name).Nodup ∧ claimRelease c ≠ "" ∧ app ∈ tenantApps t ∧
    other ≠ app ∧ other ∉ tenantApps t ∧ (profiles other).isSome = known ∧
    c.name ∈ (appVolumes claims t app (profiles app)).1 ∧
    c.name ∈ (appVolumes claims t other (profiles other)).1

/-- **The volume of an installed app's extension is taken for another app's**, whether
the other app's profile is there or is gone: the extension `search` of `wiki` for the app
`wiki-search`, and of `wiki-pro` for the app `wiki`. -/
theorem extension_in_both : InBoth true ∧ InBoth false :=
  ⟨⟨demoWith ["wiki"], fun name => some (profileWith (if name = "wiki" then ["search"] else [])),
      [annotatedClaim "wiki-search-data" "wiki-search-release"],
      annotatedClaim "wiki-search-data" "wiki-search-release", "wiki", "wiki-search", by decide⟩,
    ⟨demoWith ["wiki-pro"],
      fun name => if name = "wiki-pro" then some (profileWith ["search"]) else none,
      [annotatedClaim "wiki-pro-search-data" "wiki-pro-search-release"],
      annotatedClaim "wiki-pro-search-data" "wiki-pro-search-release", "wiki-pro", "wiki",
      by decide⟩⟩

/-- The claim of an app whose name another installed app's begins. -/
def officeClaim : VolumeClaim :=
  annotatedClaim "nextcloud-office-data" "nextcloud-office-release"

/-- Every app has the extension `cron`. -/
def cronProfiles : String → Option ComponentProfile := fun _ => some (profileWith ["cron"])

theorem office_volume_apart :
    officeClaim.name ∈ (appVolumes [officeClaim] (demoWith ["nextcloud", "nextcloud-office"])
      "nextcloud-office" (cronProfiles "nextcloud-office")).1 ∧
    ¬(officeClaim.name ∈ (appVolumes [officeClaim] (demoWith ["nextcloud", "nextcloud-office"])
        "nextcloud-office" (cronProfiles "nextcloud-office")).1 ∧
      officeClaim.name ∈ (appVolumes [officeClaim] (demoWith ["nextcloud", "nextcloud-office"])
        "nextcloud" (cronProfiles "nextcloud")).1) :=
  ⟨by decide, (volumes_apart cronProfiles (demoWith ["nextcloud", "nextcloud-office"])
    "nextcloud-office" "nextcloud").2 (by decide) (by decide) (by decide) [officeClaim] officeClaim
    (by decide) (by decide) (by decide)⟩

/-! ### The holders of data -/

/-- `Profiles`: the profile of a name, none when the cluster has none, or an error. -/
abbrev Profiles := String → Except Unit (Option ComponentProfile)

/-- A profile that was read. -/
def Profiles.found (profiles : Profiles) (name : String) : Option ComponentProfile :=
  match profiles name with
  | .ok profile => profile
  | .error _ => none

/-- What stands before and after each hyphen of a key but one that it begins with, the
last hyphen first. -/
def hyphenSplits (key : String) : List (String × String) :=
  (range key.toList.length).reverse.filterMap fun i =>
    if 0 < i ∧ key.toList[i]? = some '-' then
      some (String.ofList (key.toList.take i), String.ofList (key.toList.drop (i + 1)))
    else none

/-- The app a release's name belongs to: the app itself, or one it is an extension of. -/
def extensionOwner (profiles : Profiles) (key : String) : String :=
  if (profiles.found key).isSome then key
  else match (hyphenSplits key).find? fun s => (sidecarNames (profiles.found s.1)).contains s.2 with
    | some s => s.1
    | none => key

/-- The names that `DataHolders` reads out of a release. -/
def releaseHolders (t : Tenant) (profiles : Profiles) (release : String) : List String :=
  (match cutSuffix release "-release" with
    | some app => if app ≠ "" then [extensionOwner profiles app] else []
    | none => []) ++
  (match cutPrefix release (t.namespaceName ++ "-") with
    | some app => if app ≠ "" then [app] else []
    | none => [])

/-- The names that `DataHolders` reads out of a claim. -/
def claimHolders (t : Tenant) (profiles : Profiles) (c : VolumeClaim) : List String :=
  c.appLabel.getD "" :: releaseHolders t profiles (c.releaseName.getD "") ++
    releaseHolders t profiles (c.instanceLabel.getD "")

/-- `Held`, with the names that the record has entries for. -/
structure Held where
  provisioned : List String
  databases : List String
  claims : List VolumeClaim

/-- `DataHolders`: the apps that still hold data of a tenant. -/
def dataHolders (t : Tenant) (held : Held) (profiles : Profiles) : List String :=
  let names := held.databases ++ held.provisioned ++ held.claims.flatMap (claimHolders t profiles)
  (names.dedup.filter fun name => name ≠ "").mergeSort fun a b => decide (a ≤ b)

variable {profiles : Profiles} {held : Held}

/-- The apps that hold data. -/
theorem mem_dataHolders : app ∈ dataHolders t held profiles ↔ app ≠ "" ∧
    (app ∈ held.databases ∨ app ∈ held.provisioned ∨
      ∃ c ∈ held.claims, app ∈ claimHolders t profiles c) := by
  simp only [dataHolders, mem_mergeSort, mem_filter, mem_dedup, mem_append,
    mem_flatMap, decide_eq_true_eq, or_assoc, and_comm]

/-- A claim that a label, its name or the chart's name gives to an app. -/
def Matched (c : VolumeClaim) (app family : String) : Prop :=
  c.appLabel.getD "" = app ∨ (∃ rest, c.instanceLabel = some (app ++ rest)) ∨
    c.nameLabel = some app ∨ (∃ x y, c.name = x ++ app ++ y) ∨
    (family ≠ "" ∧ (c.nameLabel = some family ∨ ∃ x y, c.name = x ++ family ++ y))

/-- What makes a claim an app's. -/
theorem pvcBelongsToApp_iff {family : String} : pvcBelongsToApp c app family ↔
    Matched c app family := by
  have hinstance : c.instanceLabel.any (fun value => hasPrefix value app) ↔
      ∃ rest, c.instanceLabel = some (app ++ rest) := by
    cases c.instanceLabel with
    | none => simp
    | some v => simp [hasPrefix_iff]
  have hname : c.nameLabel.any (fun name => name = app || (family ≠ "" && name = family)) ↔
      c.nameLabel = some app ∨ (family ≠ "" ∧ c.nameLabel = some family) := by
    cases c.nameLabel with
    | none => simp
    | some v => simp
  simp only [pvcBelongsToApp, Matched, Bool.or_eq_true, Bool.and_eq_true, hinstance, hname,
    contains_iff, decide_eq_true_eq, and_or_left]
  constructor
  · rintro ((((h | h) | h | h) | h) | h)
    exacts [.inl h, .inr (.inl h), .inr (.inr (.inl h)), .inr (.inr (.inr (.inr (.inl h)))),
      .inr (.inr (.inr (.inl h))), .inr (.inr (.inr (.inr (.inr h))))]
  · rintro (h | h | h | h | h | h)
    exacts [.inl (.inl (.inl (.inl h))), .inl (.inl (.inl (.inr h))),
      .inl (.inl (.inr (.inl h))), .inl (.inr h), .inl (.inl (.inr (.inr h))), .inr h]

/-- The claim of an extension that the profile of an uninstalled app declares. -/
def cronClaim : VolumeClaim :=
  { annotatedClaim "wiki-cron-data" "wiki-cron-release" with appLabel := some "wiki" }

/-- The cluster has a profile for `wiki` only. -/
def wikiProfiles : Profiles := fun name => .ok (if name = "wiki" then cronProfiles name else none)

/-- An app that is not installed has data by a claim that is none of its volumes; the label
of the claim names the app or does not. -/
def WithoutVolume (labelled : Bool) : Prop :=
  ∃ (t : Tenant) (profiles : Profiles) (c : VolumeClaim) (app : String), app ∉ tenantApps t ∧
    (c.appLabel = some app ↔ labelled) ∧ app ∈ dataHolders t ⟨[], [], [c]⟩ profiles ∧
    c.name ∉ (appVolumes [c] t app (profiles.found app)).1

end Gentian.Backup
