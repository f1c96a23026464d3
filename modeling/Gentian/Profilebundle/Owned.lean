/-
# Two bundles own no object in common

`internal/profilebundle/bundle.go` (`Check`) and `owned.go` (`ShapeOwner`).

A companion's name is made from its profile's by its kind's rule (`Rule.Names`), and gives the
profile back (`Names.unique`).  A kind is found by its version and itself joined by a slash, so one
kind never falls under two rules (`Rule.last_kind`).

`ShapeOwner` takes `kube-root-ca.crt` for nobody's, whatever the kind.  `Check` refuses that name
for a ConfigMap alone, so the profile `kube-root-ca` brings a Customization that is nobody's
(`record_of_nobody`).
-/

import Gentian.Profilebundle.Bundle

namespace Gentian.Profilebundle

open Documents GoStrings GoErrors List Option Prod Rule

variable {b : Bundle} {c : Companion} {r s : Rule} {h h' : Head} {p q n : String}

/-! ### Rules and kinds -/

theorem Rule.kind_injective : Function.Injective Rule.kind := by
  intro r s
  cases r <;> cases s <;> decide

theorem Rule.last_key (r : Rule) : (split r.key '/').getLast? = some r.kind := by
  cases r <;> decide +kernel

theorem Rule.last_own_kind (r : Rule) : (split r.kind '/').getLast? = some r.kind := by
  cases r <;> decide +kernel

section

variable (hr : Rule.find h = some r)

include hr

theorem Rule.key_of_find : r.key = h.apiVersion ++ "/" ++ h.kind := by
  simpa using find?_some hr

/-- **The last part of a kind is its rule's.** -/
theorem Rule.last_kind : (split h.kind '/').getLast? = some r.kind := by
  have hlast := r.last_key
  rw [key_of_find hr] at hlast
  rwa [split_append, getLast?_append, or_of_isSome (by simp [split_ne_nil])] at hlast

/-- A kind has one rule. -/
theorem Rule.find_unique (hs : Rule.find h' = some s)
    (hk : h.kind = h'.kind) : r = s := by
  have hlast := last_kind hr
  rw [hk, last_kind hs] at hlast
  exact (kind_injective (some.inj hlast)).symm

theorem Rule.eq_of_kind (hk : h.kind = s.kind) : r = s := by
  have hlast := last_kind hr
  rw [hk, s.last_own_kind] at hlast
  exact (kind_injective (some.inj hlast)).symm

end

/-! ### Names -/

/-- The names a rule leaves to the companions of a profile. -/
def Rule.Names : Rule → String → String → Prop
  | .composition, p, n => n = "app-" ++ p ∧ n ≠ defaultComposition
  | .oidcPacks, p, n => n = p ++ "-oidc"
  | .configMap, p, n => cut n '.' = some (p, (cutDot n).2) ∧ Api.dnsLabel (cutDot n).2 = true ∧
      n ≠ rootCABundle
  | .customization, p, n => cut n '.' = some (p, (cutDot n).2) ∧ Api.dnsLabel (cutDot n).2 = true

/-- The labels a rule asks for. -/
def Rule.labels : Rule → String → String → List (String × String)
  | .configMap, p, n => [(profileLabel, p), (assetLabel, (cutDot n).2)]
  | _, p, _ => [(profileLabel, p)]

/-- **A companion's name is one profile's.** -/
theorem Rule.Names.unique (hp : r.Names p n) (hq : r.Names q n) : p = q := by
  cases r with
  | composition => exact (String.append_right_inj _).1 (hp.1.symm.trans hq.1)
  | oidcPacks => exact (String.append_left_inj _).1 (Eq.trans (Eq.symm hp) hq)
  | configMap | customization => exact (mk.inj (some.inj (hp.1.symm.trans hq.1))).1

/-- **`ShapeOwner` reads a companion's name back**, but for the one name it takes for nobody's. -/
theorem shapeOwner_of_names (hn : r.Names p n) (hp : Api.dnsLabel p) :
    shapeOwner r.kind n = some p ↔ ¬(r = .customization ∧ n = rootCABundle) := by
  cases r with
  | composition =>
    obtain ⟨rfl, hd⟩ := hn
    have hcut : cutPrefix ("app-" ++ p) "app-" = some p := cutPrefix_eq_some.2 rfl
    simp [shapeOwner, kind, hd, hcut, hp]
  | oidcPacks =>
    have hcut : cutSuffix n "-oidc" = some p := cutSuffix_eq_some.2 hn
    simp [shapeOwner, kind, hcut, hp]
  | configMap =>
    obtain ⟨hcut, hasset, hroot⟩ := hn
    simp [shapeOwner, kind, hcut, hasset, hroot, hp]
  | customization =>
    obtain ⟨hcut, hrecord⟩ := hn
    by_cases hroot : n = rootCABundle
    · subst hroot
      have hnone : shapeOwner customization.kind rootCABundle = none := by decide +kernel
      exact iff_of_false (by simp [hnone]) (by simp)
    · simp [shapeOwner, kind, hcut, hrecord, hp]

/-! ### What a check held a companion to -/

/-- A companion has just these labels. -/
def Labelled (c : Companion) (labels : List (String × String)) : Prop :=
  ∀ k v, (labelsOf c.object).field k = some v ↔ ∃ t, (k, t) ∈ labels ∧ v = .string t

variable {cluster : Bool} {u : Unit}

/-- **`shape` holds a companion to exactly the labels given.** -/
theorem labelled_of_shape {labels : List (String × String)}
    (hs : shape c r labels = .ok u) (hnodup : (labels.map Prod.fst).Nodup) : Labelled c labels := by
  obtain ⟨-, hs⟩ := seq_eq_ok.1 hs
  obtain ⟨-, hs⟩ := seq_eq_ok.1 hs
  obtain ⟨hlength, hs⟩ := ensure_decide_then.1 hs
  replace hs := ensure_eq_ok.1 hs
  have hfield : ∀ k t, (k, t) ∈ labels → (labelsOf c.object).field k = some (.string t) := by
    intro k t hm
    have hget := of_decide_eq_true (all_eq_true.1 hs _ hm)
    exact Json.field_of_get hget (by simp)
  -- As many labels as asked for, and each of those is there: there is no other.
  have hsub : labels.map fst ⊆ (labelsOf c.object).keysOf.list := by
    intro k hk
    obtain ⟨⟨k, t⟩, hm, rfl⟩ := mem_map.1 hk
    exact Json.mem_keysOf.2 (by rw [hfield k t hm]; rfl)
  have hperm := (subperm_of_subset hnodup hsub).perm_of_length_le (by simp [hlength])
  intro k v
  constructor
  · intro hv
    have hk : k ∈ (labelsOf c.object).keysOf.list := Json.mem_keysOf.2 (by rw [hv]; rfl)
    obtain ⟨⟨k, t⟩, hm, rfl⟩ := mem_map.1 (hperm.mem_iff.2 hk)
    rw [hfield k t hm] at hv
    exact ⟨t, hm, (some.inj hv).symm⟩
  · rintro ⟨t, hm, rfl⟩
    exact hfield k t hm

/-- **What a kind's check establishes**: the name is the profile's and the labels are exact. -/
theorem names_of_check (hb : Api.dnsLabel b.name) (hc : r.check b c = .ok u) :
    r.Names b.name c.name ∧ Labelled c (r.labels b.name c.name) := by
  cases r with
  | composition =>
    obtain ⟨hdefault, hc⟩ := ensure_decide_then.1 hc
    obtain ⟨hname, hc⟩ := ensure_decide_then.1 hc
    obtain ⟨-, hc⟩ := ensure_then.1 hc
    obtain ⟨-, hc⟩ := ensure_then.1 hc
    exact ⟨⟨hname, hdefault⟩, labelled_of_shape hc (nodup_singleton _)⟩
  | oidcPacks =>
    obtain ⟨hname, hc⟩ := ensure_decide_then.1 hc
    obtain ⟨-, hc⟩ := seq_eq_ok.1 hc
    obtain ⟨-, hc⟩ := seq_eq_ok.1 hc
    exact ⟨hname, labelled_of_shape hc (nodup_singleton _)⟩
  | configMap =>
    obtain ⟨hasset, hc⟩ := ensure_then.1 hc
    obtain ⟨hname, hc⟩ := ensure_decide_then.1 hc
    obtain ⟨hroot, hc⟩ := ensure_decide_then.1 hc
    obtain ⟨-, hc⟩ := seq_eq_ok.1 hc
    have hcut : cut c.name '.' = some (b.name, ((labelsOf c.object).get assetLabel).text) :=
      cut_eq_some_iff.2 ⟨Api.not_mem_of_dnsLabel hb (by decide), by simp [hname]⟩
    have hdot : (cutDot c.name).2 = ((labelsOf c.object).get assetLabel).text := by
      simp [cutDot, hcut]
    refine ⟨⟨by rw [hdot, hcut], by rw [hdot]; exact hasset, hroot⟩, ?_⟩
    rw [labels, hdot]
    exact labelled_of_shape hc (by simp [profileLabel, assetLabel])
  | customization =>
    obtain ⟨hname, hc⟩ := ensure_then.1 hc
    obtain ⟨-, hc⟩ := ensure_then.1 hc
    obtain ⟨-, hc⟩ := ensure_then.1 hc
    obtain ⟨hprofile, hrecord⟩ := Bool.and_eq_true_iff.1 hname
    refine ⟨⟨?_, hrecord⟩, labelled_of_shape hc (nodup_singleton _)⟩
    rw [← of_decide_eq_true hprofile]
    -- A name without a dot has an empty record, and that is no label.
    cases hcut : cut c.name '.' with
    | none => simp [cutDot, hcut, show Api.dnsLabel "" = false by decide] at hrecord
    | some _ => simp [cutDot, hcut]

/-- What is known of a companion that was accepted. -/
structure Admitted (b : Bundle) (cluster : Bool) (c : Companion) : Prop where
  /-- It states its own kind and name. -/
  kind : c.kind = (headOf c.object).kind
  name : c.name = (headOf c.object).name
  /-- It is no second profile. -/
  companion : c.kind ≠ "ComponentProfile"
  /-- The catalog is one of the cluster. -/
  cluster : cluster = true
  /-- Its kind's check let it through. -/
  rule : ∃ r, Rule.find (headOf c.object) = some r ∧ r.check b c = .ok ()

/-- What a check has found out. -/
theorem admitted_of_check {seen : List String} {doc : Json}
    (hc : checkCompanion b cluster seen doc = .ok c) : Admitted b cluster c ∧ c.object = doc := by
  unfold checkCompanion at hc
  simp only at hc
  split at hc
  · cases hc
  next hkind =>
    split at hc
    · cases hc
    next rule hrule =>
      obtain ⟨hcluster, hc⟩ := ensure_then.1 hc
      obtain ⟨hcheck, hc⟩ := seq_eq_ok.1 hc
      obtain ⟨-, hc⟩ := ensure_then.1 hc
      cases hc
      exact ⟨⟨rfl, rfl, hkind, hcluster, rule, hrule, hcheck⟩, rfl⟩

/-- What all checks have found out. -/
theorem admitted_of_checks {docs : List Json} :
    ∀ {seen} {cs : List Companion}, checkCompanions b cluster seen docs = .ok cs →
      (∀ c ∈ cs, Admitted b cluster c) ∧ cs.map Companion.object = docs := by
  induction docs with
  | nil =>
    intro seen cs hcs
    cases hcs
    exact ⟨by simp, rfl⟩
  | cons _ docs ih =>
    intro seen cs hcs
    obtain ⟨c, hc, hcs⟩ := bind_eq_ok.1 hcs
    obtain ⟨rest, hrest, hcs⟩ := bind_eq_ok.1 hcs
    cases hcs
    obtain ⟨hadmitted, hobject⟩ := admitted_of_check hc
    obtain ⟨hall, hobjects⟩ := ih hrest
    exact ⟨forall_mem_cons.2 ⟨hadmitted, hall⟩, by simp [hobject, hobjects]⟩

/-! ### Accepted bundles -/

/-- A bundle as `Check` answers it. -/
structure Accepted (docs : List Json) (name origin : String) (b : Bundle) : Prop where
  named : b.name = name
  /-- The companions are the documents after the first. -/
  objects : b.companions.map Companion.object = docs.tail
  /-- A profile with companions has a label for a name. -/
  label : b.companions ≠ [] → Api.dnsLabel name = true
  /-- Every companion passed its check beside the profile. -/
  admitted : ∀ c ∈ b.companions,
    Admitted { b with companions := [] } (fromCluster origin) c

/-- **What `Check` establishes.** -/
theorem accepted_of_check {requirement : Json → Option String} {docs : List Json}
    {name origin : String} (hb : check requirement (.ok docs) name origin = .ok b) :
    Accepted docs name origin b := by
  cases docs with
  | nil => cases hb
  | cons _ _ =>
    obtain ⟨-, hb⟩ := ensure_then.1 hb
    obtain ⟨hname, hb⟩ := ensure_decide_then.1 hb
    obtain ⟨-, hb⟩ := seq_eq_ok.1 hb
    obtain ⟨-, hb⟩ := ensure_then.1 hb
    split at hb
    next hothers =>
      cases hb
      exact ⟨hname, hothers.symm, nofun, by simp⟩
    · obtain ⟨hlabel, hb⟩ := ensure_then.1 hb
      obtain ⟨cs, hcs, hb⟩ := bind_eq_ok.1 hb
      cases hb
      obtain ⟨hall, hobjects⟩ := admitted_of_checks hcs
      exact ⟨hname, hobjects, fun _ => hlabel, hall⟩

/-- The objects of a bundle, by kind and name. -/
def Bundle.owns (b : Bundle) : List (String × String) :=
  ("ComponentProfile", b.name) :: b.companions.map fun c => (c.kind, c.name)

section Accepted

variable {docs docs' : List Json} {name name' origin origin' : String} {b' : Bundle}

section

variable (ha : Accepted docs name origin b)

include ha

/-- Every companion has a rule and its labels. -/
theorem Accepted.rule (hc : c ∈ b.companions) :
    ∃ r, Rule.find (headOf c.object) = some r ∧ r.Names name c.name ∧
      Labelled c (r.labels name c.name) := by
  have hlabel := ha.label (ne_nil_of_mem hc)
  obtain ⟨r, hr, hcheck⟩ := (ha.admitted c hc).rule
  obtain rfl := ha.named
  exact ⟨r, hr, names_of_check (b := ⟨b.name, b.profile, []⟩) hlabel hcheck⟩

/-- **Bundles of two profiles own nothing in common.** -/
theorem Accepted.disjoint
    (ha' : Accepted docs' name' origin' b') (hne : name ≠ name') : b.owns.Disjoint b'.owns := by
  intro o ho ho'
  rcases mem_cons.1 ho with rfl | ho <;> rcases mem_cons.1 ho' with heq | ho'
  · exact hne (by rw [← ha.named, ← ha'.named, (mk.inj heq).2])
  · obtain ⟨c, hc, heq⟩ := mem_map.1 ho'
    exact (ha'.admitted c hc).companion (mk.inj heq).1
  · obtain ⟨c, hc, rfl⟩ := mem_map.1 ho
    exact (ha.admitted c hc).companion (mk.inj heq).1
  · obtain ⟨c, hc, rfl⟩ := mem_map.1 ho
    obtain ⟨c', hc', heq⟩ := mem_map.1 ho'
    obtain ⟨hkind, hname⟩ := mk.inj heq
    obtain ⟨r, hr, hn, -⟩ := ha.rule hc
    obtain ⟨r', hr', hn', -⟩ := ha'.rule hc'
    rw [(ha.admitted c hc).kind, (ha'.admitted c' hc').kind] at hkind
    rw [find_unique hr' hr hkind, hname] at hn'
    exact hne (hn.unique hn')

/-- **No bundle owns an object of the platform.** -/
theorem Accepted.not_platform :
    ("Composition", defaultComposition) ∉ b.owns ∧ ("ConfigMap", rootCABundle) ∉ b.owns := by
  -- A companion whose kind is a rule's own was let through by that rule.
  have hnames : ∀ {s n}, (kind s, n) ∈ b.owns → s.Names name n := by
    intro s n hm
    rcases mem_cons.1 hm with heq | hm
    · exact absurd (mk.inj heq).1 (by cases s <;> decide)
    · obtain ⟨c, hc, heq⟩ := mem_map.1 hm
      obtain ⟨hkind, rfl⟩ := mk.inj heq
      obtain ⟨r, hr, hn, -⟩ := ha.rule hc
      rwa [eq_of_kind hr ((ha.admitted c hc).kind.symm.trans hkind)] at hn
  exact ⟨fun hm => (hnames (s := .composition) hm).2 rfl,
    fun hm => (hnames (s := .configMap) hm).2.2 rfl⟩

/-- **Only a catalog of the cluster brings companions.** -/
theorem Accepted.alone
    (ho : ∀ source, parseOrigin origin = some ⟨"", source⟩ → source = "") : b.companions = [] := by
  by_contra hne
  obtain ⟨c, hc⟩ := exists_mem_of_ne_nil _ hne
  have hcluster := (ha.admitted c hc).cluster
  unfold fromCluster at hcluster
  split at hcluster
  next o hparse =>
    obtain ⟨hsource, htenant⟩ := Bool.and_eq_true_iff.1 hcluster
    refine of_decide_eq_true hsource (ho _ ?_)
    rw [hparse, ← of_decide_eq_true htenant]
  · cases hcluster

end

end Accepted

/-! ### Ownership -/

/-- The kinds of companions. -/
def kinds : List String := Rule.all.map Rule.kind

/-- A document of one of the kinds as they are written, and no record under the name of the
cluster's own ConfigMap. -/
def plainDocument (doc : Json) : Bool :=
  decide ((headOf doc).kind ∈ kinds) &&
    !((headOf doc).kind = "Customization" && (headOf doc).name = rootCABundle)

theorem exists_rule_of_mem_kinds {k : String} (hk : k ∈ kinds) : ∃ r, Rule.kind r = k := by
  obtain ⟨r, -, hr⟩ := mem_map.1 hk
  exact ⟨r, hr⟩

/-- `ShapeOwner` knows no kind but the four. -/
theorem mem_kinds_of_shapeOwner {k : String} (h : shapeOwner k n = some p) : k ∈ kinds := by
  by_contra hk
  have hne : ∀ s, k ≠ Rule.kind s := by
    rintro s rfl
    exact hk (mem_map_of_mem (by cases s <;> decide))
  have h1 : k ≠ "Composition" := hne .composition
  have h2 : k ≠ "OIDCPackCatalog" := hne .oidcPacks
  have h3 : k ≠ "ConfigMap" := hne .configMap
  have h4 : k ≠ "Customization" := hne .customization
  simp [shapeOwner, h1, h2, h3, h4] at h

/-- **`ShapeOwner` answers the profile a companion came with exactly when the companion is
plain.** -/
theorem Accepted.shapeOwner_iff {docs : List Json} {name origin : String}
    (ha : Accepted docs name origin b) (hc : c ∈ b.companions) :
    shapeOwner c.kind c.name = some name ↔ plainDocument c.object := by
  obtain ⟨r, hr, hn, -⟩ := ha.rule hc
  have hkind := (ha.admitted c hc).kind
  have hname := (ha.admitted c hc).name
  -- a companion of one of the four kinds was let through by the rule of that kind
  have howner : c.kind ∈ kinds →
      (shapeOwner c.kind c.name = some name ↔
        ¬(c.kind = "Customization" ∧ c.name = rootCABundle)) := by
    intro hkinds
    obtain ⟨s, hs⟩ := exists_rule_of_mem_kinds hkinds
    obtain rfl := eq_of_kind hr (hkind.symm.trans hs.symm)
    rw [← hs, shapeOwner_of_names hn (ha.label (ne_nil_of_mem hc))]
    cases r <;> simp [kind]
  rw [plainDocument, ← hkind, ← hname, Bool.and_eq_true, decide_eq_true_iff]
  constructor
  · intro h
    have hkinds := mem_kinds_of_shapeOwner h
    exact ⟨hkinds, by simpa [imp_iff_not_or] using (howner hkinds).1 h⟩
  · rintro ⟨hkinds, hroot⟩
    exact (howner hkinds).2 (by simpa [imp_iff_not_or] using hroot)

/-- **Bundles keep apart and own what they bring.**  An accepted bundle owns no object of the
platform and none of another profile's, each of its companions carries exactly the labels of its
kind, and without a catalog of the cluster it has none; `ShapeOwner` answers its profile for a
companion exactly when that is of a kind as it is written and no record under the name of the
cluster's own ConfigMap. -/
theorem bundles_keep_apart (requirement : Json → Option String) (docs : List Json)
    (name origin : String) (b : Bundle) (hb : check requirement (.ok docs) name origin = .ok b) :
    (∀ docs' name' origin' b', check requirement (.ok docs') name' origin' = .ok b' →
      name ≠ name' → b.owns.Disjoint b'.owns) ∧
    ("Composition", "app-default") ∉ b.owns ∧ ("ConfigMap", "kube-root-ca.crt") ∉ b.owns ∧
    (∀ c ∈ b.companions, ∃ r, Rule.find (headOf c.object) = some r ∧
      Labelled c (r.labels name c.name)) ∧
    (∀ c ∈ b.companions,
      shapeOwner c.kind c.name = some name ↔ plainDocument c.object = true) ∧
    ((∀ source, parseOrigin origin = some ⟨"", source⟩ → source = "") → b.companions = []) := by
  have ha := accepted_of_check hb
  refine ⟨fun docs' name' origin' b' hb' hne => ha.disjoint (accepted_of_check hb') hne,
    ha.not_platform.1, ha.not_platform.2, fun c hc => ?_, fun c hc => ha.shapeOwner_iff hc,
    ha.alone⟩
  obtain ⟨r, hr, -, hlabels⟩ := ha.rule hc
  exact ⟨r, hr, hlabels⟩

/-- A document with its labels and its content. -/
def document (apiVersion kind name : String) (labels : List (String × String)) (body : String)
    (value : Json) : Json :=
  .ofPairs [("apiVersion", .string apiVersion), ("kind", .string kind),
    ("metadata", .ofPairs [("name", .string name),
      ("labels", .ofPairs (labels.map fun l => (l.1, .string l.2)))]),
    (body, value)]

/-- A profile with an empty spec. -/
def bareProfile (name : String) : Json :=
  document gentianAPIVersion "ComponentProfile" name [(profileLabel, name)] "spec" (.ofPairs [])

/-- A record about a profile, under a given version and kind. -/
def recordOf (apiVersion kind profile name : String) : Json :=
  document apiVersion kind name [(profileLabel, profile)] "spec"
    (.ofPairs [("target", .ofPairs [("profile", .string profile)]), ("scope", .string "profile")])

/-- A theme of the wiki. -/
def wikiTheme : Json :=
  document "v1" "ConfigMap" "wiki.theme" [(profileLabel, "wiki"), (assetLabel, "theme")] "data"
    (.ofPairs [("theme.css", .string "")])

/-- The wiki with its theme. -/
def wikiBundle : Bundle where
  name := "wiki"
  profile := bareProfile "wiki"
  companions :=
    [⟨"v1", "ConfigMap", "wiki.theme", true, wikiTheme⟩,
      ⟨gentianAPIVersion, "Customization", "wiki.patch", true,
        recordOf gentianAPIVersion "Customization" "wiki" "wiki.patch"⟩]

theorem wiki_keeps_apart : ("ConfigMap", "kube-root-ca.crt") ∉ wikiBundle.owns ∧
      ∀ c ∈ wikiBundle.companions, shapeOwner c.kind c.name = some "wiki" := by
  have hcheck : check (fun _ => none) (.ok [bareProfile "wiki", wikiTheme,
      recordOf gentianAPIVersion "Customization" "wiki" "wiki.patch"]) "wiki" "cluster/main" =
        .ok wikiBundle := by
    decide +kernel
  obtain ⟨-, -, hroot, -, howner, -⟩ := bundles_keep_apart _ _ _ _ _ hcheck
  have hplain : ∀ c ∈ wikiBundle.companions, plainDocument c.object := by decide +kernel
  exact ⟨hroot, fun c hc => (howner c hc).2 (hplain c hc)⟩

/-- **A record that is nobody's.**  The profile `kube-root-ca` brings a Customization under the
name of the cluster's own ConfigMap, and a wiki one whose kind holds part of its version; both are
accepted, and `ShapeOwner` answers no profile for either. -/
theorem record_of_nobody : (check (fun _ => none) (.ok [bareProfile "kube-root-ca",
        recordOf gentianAPIVersion "Customization" "kube-root-ca" "kube-root-ca.crt"])
        "kube-root-ca" "cluster/main").map
          (fun b => b.companions.map fun c => (c.name, shapeOwner c.kind c.name)) =
        .ok [("kube-root-ca.crt", none)] ∧
      (check (fun _ => none) (.ok [bareProfile "wiki",
        recordOf "gentianos.io" "v1alpha1/Customization" "wiki" "wiki.patch"])
        "wiki" "cluster/main").map
          (fun b => b.companions.map fun c => (c.name, shapeOwner c.kind c.name)) =
        .ok [("wiki.patch", none)] := by
  decide +kernel

end Gentian.Profilebundle
