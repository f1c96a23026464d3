/-
# What is reported is what is pruned

The comparison of `Gentian.Schemacheck.Compare` against what the API server does with an object
(`Documents.Schema.prune`).

`missing_iff_pruned`: a value is dropped on the way to the cluster just when a path that `Missing`
reports covers its field.  The two schemas have to be such that the comparison sees all of the
difference (`comparable`):

* what a served node specifies is pruned by its own schema also where the node keeps unknown
  fields.  `Missing` stops at such a node (`dropped_unreported`);
* where any key is allowed, the key is kept and everything below it is dropped;
* a list that is served without a schema for its elements keeps them, and loses what they hold;
* a map is not served as an object that names some of its keys;
* what is built with `additionalProperties: true` is served so.

At the root, a report of `*` covers every field, where elsewhere it is one field of its node.
-/

import Gentian.Schemacheck.Manifest

namespace Gentian.Schemacheck

open Documents List Schema

/-- A schema without parts. -/
def isLeaf (s : Schema) : Bool :=
  !s.preserves && s.names.list.all (fun k => !(s.property k).present) && !s.allows &&
    !s.values.present && !s.items.present

/-- Whether a schema says something of a key. -/
def specifies (s : Schema) (k : String) : Bool :=
  (s.property k).present || s.values.present || s.allows

/-- Each key that is named in the served schema is named in the built one. -/
def namesWithin (s : Schema) (names : Keys) (property : String → Schema) : Bool :=
  s.names.list.all fun k => !(s.property k).present || (k ∈ names && (property k).present)

/-- The comparison sees all of the difference between two schemas. -/
def comparable : Schema → Schema → Bool
  | .absent, _ => true
  | .node preserve _ _ names property allows values items, s =>
    if s.preserves then
      -- what is specified below it has nothing below it, or keeps unknown fields itself
      names.list.all (fun k => !(property k).present || !specifies s k || isLeaf (property k) ||
        ((s.child k).preserves && comparable (property k) (s.child k))) &&
      (!items.present || !s.items.present || isLeaf items ||
        (s.items.preserves && comparable items s.items)) &&
      (!values.present || isLeaf values || (namesWithin s names property && !s.allows &&
        (!s.values.present || (s.values.preserves && comparable values s.values))))
    else
      names.list.all (fun k => !(property k).present || !s.keeps k ||
        (if (s.child k).present then comparable (property k) (s.child k)
        else isLeaf (property k))) &&
      (!items.present || (s.items.present && comparable items s.items)) &&
      (if values.present then
        namesWithin s names property &&
          (if s.values.present then comparable values s.values
          else !s.allows || isLeaf values)
      else if preserve then namesWithin s names property && !s.values.present && !s.allows
      else !allows || s.values.present || s.allows)

/-- Every name of a schema can be told from the marks of a path. -/
def plainNames : Schema → Bool
  | .absent => true
  | .node _ _ _ names property _ values items =>
    names.list.all (fun k => !(property k).present || (plain k && plainNames (property k))) &&
      plainNames values && plainNames items

variable {b s : Schema} {k : String} {p : List Segment}

variable {place ts : List Step}

theorem partsOf_of_isLeaf (h : isLeaf b) (hp : partsOf b ts = some p) : ts = [] := by
  simp only [isLeaf, Bool.and_eq_true, Bool.not_eq_true', all_eq_true] at h
  obtain ⟨⟨⟨⟨hpreserves, hnames⟩, hallows⟩, hvalues⟩, hitems⟩ := h
  cases ts with
  | nil => rfl
  | cons t ts =>
    cases t with
    | key k =>
      have hprop : (b.property k).present = false := by
        by_contra hk
        rw [Bool.not_eq_false] at hk
        simpa [hk] using hnames k (mem_names_of_property hk)
      simp [partsOf, hprop, hvalues, hpreserves, hallows] at hp
    | index i => simp [partsOf, hitems] at hp

/-! ### The condition, part by part -/

/-- A place below which nothing of the built schema is pruned. -/
def Open (b s : Schema) : Prop :=
  isLeaf b = true ∨ s.preserves = true ∧ comparable b s = true

/-- A place at which all that is missing is reported. -/
def Seen (b s : Schema) : Prop :=
  if s.present then comparable b s = true else isLeaf b = true

theorem open_name (hc : comparable b s) (hs : s.preserves)
    (hk : (b.property k).present) (hspec : specifies s k) : Open (b.property k) (s.child k) := by
  cases b with
  | absent => simp at hk
  | node _ _ _ names property _ _ _ =>
    have hmem : k ∈ names := mem_names_of_property hk
    simp only [comparable, hs, if_true, Bool.and_eq_true, all_eq_true] at hc
    rw [property_node_of_mem hmem] at hk ⊢
    simpa [hk, hspec, Open] using hc.1.1 k hmem

theorem open_items (hc : comparable b s) (hs : s.preserves)
    (hb : b.items.present) (hspec : s.items.present) : Open b.items s.items := by
  cases b with
  | absent => simp at hb
  | node _ _ _ _ _ _ _ items =>
    simp only [comparable, hs, if_true, Bool.and_eq_true] at hc
    rw [items_node] at hb ⊢
    simpa [hb, hspec, Open] using hc.1.2

theorem property_of_namesWithin {names : Keys} {property : String → Schema}
    (h : namesWithin s names property) (hk : k ∈ names → (property k).present = false) :
    (s.property k).present = false := by
  by_contra hs
  have := all_eq_true.1 h k (mem_names_of_property (by simpa using hs))
  simp_all

theorem open_values (hc : comparable b s) (hs : s.preserves)
    (hb : b.values.present) (hk : (b.property k).present = false)
    (hspec : specifies s k) : Open b.values (s.child k) := by
  cases b with
  | absent => simp at hb
  | node _ _ _ _ property _ values _ =>
    simp only [comparable, hs, if_true, Bool.and_eq_true] at hc
    rw [values_node] at hb ⊢
    have hvalues := hc.2
    simp only [hb, Bool.not_true, Bool.false_or, Bool.or_eq_true, Bool.and_eq_true,
      Bool.not_eq_true'] at hvalues
    rcases hvalues with hleaf | ⟨⟨hnames, hallows⟩, hvalues⟩
    · exact .inl hleaf
    · have hprop : (s.property k).present = false := property_of_namesWithin hnames fun hmem => by
        rwa [property_node_of_mem hmem] at hk
      have hsvalues : s.values.present := by simpa [specifies, hprop, hallows] using hspec
      have hchild : s.child k = s.values := by simp [child, hprop, hsvalues]
      rw [hchild]
      exact .inr (by simpa [hsvalues] using hvalues)

/-- A property that is kept is compared in its turn. -/
theorem seen_name (hc : comparable b s) (hs : s.preserves = false)
    (hk : (b.property k).present) (hkeeps : s.keeps k) : Seen (b.property k) (s.child k) := by
  cases b with
  | absent => simp at hk
  | node _ _ _ names property _ _ _ =>
    have hmem : k ∈ names := mem_names_of_property hk
    simp only [comparable, hs, Bool.false_eq_true, if_false, Bool.and_eq_true, all_eq_true] at hc
    rw [property_node_of_mem hmem] at hk ⊢
    have := hc.1.1 k hmem
    rw [Seen]
    split_ifs at this ⊢ <;> simpa [hk, hkeeps] using this

/-- So are items. -/
theorem seen_items (hc : comparable b s) (hs : s.preserves = false)
    (hb : b.items.present) : s.items.present ∧ comparable b.items s.items := by
  cases b with
  | absent => simp at hb
  | node _ _ _ _ _ _ _ items =>
    simp only [comparable, hs, Bool.false_eq_true, if_false, Bool.and_eq_true] at hc
    rw [items_node] at hb ⊢
    simpa [hb] using hc.1.2

/-- And values of a map. -/
theorem seen_values (hc : comparable b s = true) (hs : s.preserves = false)
    (hb : b.values.present = true) (hk : (b.property k).present = false) :
    (s.property k).present = false ∧
      if s.values.present then comparable b.values s.values = true
      else s.allows = true → isLeaf b.values = true := by
  cases b with
  | absent => simp at hb
  | node _ _ _ _ property allows values _ =>
    simp only [comparable, hs, Bool.false_eq_true, if_false, Bool.and_eq_true] at hc
    rw [values_node] at hb ⊢
    have hvalues := hc.2
    rw [if_pos hb, Bool.and_eq_true] at hvalues
    refine ⟨property_of_namesWithin hvalues.1 fun hmem => ?_, ?_⟩
    · rwa [property_node_of_mem hmem] at hk
    · have := hvalues.2
      split_ifs at this ⊢
      · exact this
      · intro hallows
        simpa [hallows] using this

theorem seen_rest (hc : comparable b s) (hs : s.preserves = false)
    (hk : (b.property k).present = false) (hvalues : b.values.present = false)
    (hfree : b.preserves ∨ b.allows) : s.keeps k = !b.preserves := by
  cases b with
  | absent => simp at hfree
  | node preserve _ _ _ property allows values _ =>
    simp only [comparable, hs, Bool.false_eq_true, if_false, Bool.and_eq_true] at hc
    rw [values_node] at hvalues
    have hrest := hc.2
    rw [if_neg (by simp [hvalues])] at hrest
    rw [keeps, hs]
    by_cases hpreserve : preserve
    · rw [if_pos hpreserve] at hrest
      simp only [Bool.and_eq_true, Bool.not_eq_true'] at hrest
      have hprop : (s.property k).present = false :=
        property_of_namesWithin hrest.1.1 fun hmem => by
          rwa [property_node_of_mem hmem] at hk
      simp [hprop, hrest, hpreserve]
    · rcases hfree with h | h
      · exact absurd h hpreserve
      · rcases Bool.eq_false_or_eq_true s.values.present with hv | hv <;> simp_all

/-! ### Reported and pruned -/

theorem notMem_lost_of_preserves (hs : s.preserves) {m : List Segment} : m ∉ lost b s :=
  fun h => by simpa [hs] using (mem_lost.1 h).1

theorem child_of_not_specifies (hs : s.preserves) (h : specifies s k = false) :
    s.child k = .everything := by
  simp only [specifies, Bool.or_eq_false_iff] at h
  simp [child, h, hs]

/-- Below a node that keeps unknown fields nothing is dropped, when what it specifies keeps
what is below that. -/
theorem walk_of_preserves (hc : comparable b s) (hs : s.preserves)
    (hp : partsOf b ts = some p) : s.walk ts ≠ none := by
  induction ts generalizing b s p with
  | nil => simp
  | cons t ts ih =>
    have hopen : ∀ {b' s' p'}, Open b' s' → partsOf b' ts = some p' → s'.walk ts ≠ none := by
      rintro b' s' p' (hleaf | ⟨hpres, hcomp⟩) hp'
      · simp [partsOf_of_isLeaf hleaf hp']
      · exact ih hcomp hpres hp'
    cases t with
    | key k =>
      have hkeeps : s.keeps k := by simp [keeps, hs]
      rw [walk_cons, step, if_pos hkeeps, Option.bind_some]
      by_cases hspec : specifies s k
      · unfold partsOf at hp
        split_ifs at hp with h1 h2 h3 h4
        · obtain ⟨p', hp', -⟩ := Option.map_eq_some_iff.1 hp
          exact hopen (open_name hc hs h1 hspec) hp'
        · obtain ⟨p', hp', -⟩ := Option.map_eq_some_iff.1 hp
          exact hopen (open_values hc hs h2 (by simpa using h1) hspec) hp'
        · simp [h4]
      · rw [child_of_not_specifies hs (by simpa using hspec), walk_everything]
        simp
    | index i =>
      unfold partsOf at hp
      split_ifs at hp with h1
      obtain ⟨p', hp', -⟩ := Option.map_eq_some_iff.1 hp
      rw [walk_cons, step, Option.bind_some, element]
      by_cases hitems : s.items.present
      · rw [if_pos hitems]
        exact hopen (open_items hc hs h1 hitems) hp'
      · rw [if_neg hitems, if_pos hs, walk_everything]
        simp

/-- **What is lost is where the served schema ends**, for every place that has a path. -/
theorem walk_eq_none_iff (hc : comparable b s) (hp : partsOf b ts = some p) :
    s.walk ts = none ↔ ∃ m ∈ lost b s, m <+: p := by
  induction ts generalizing b s p with
  | nil =>
    obtain rfl : [] = p := by simpa [partsOf] using hp
    simp [nil_notMem_lost]
  | cons t ts ih =>
    by_cases hs : s.preserves
    · refine iff_of_false (walk_of_preserves hc hs hp) ?_
      rintro ⟨m, hm, -⟩
      exact notMem_lost_of_preserves hs hm
    rw [Bool.not_eq_true] at hs
    cases t with
    | key k =>
      rw [walk_cons, step]
      unfold partsOf at hp
      split_ifs at hp with h1 h2 h3 h4
      · obtain ⟨p', hp', rfl⟩ := Option.map_eq_some_iff.1 hp
        simp only [covered_cons, name_mem_lost, hs, h1, true_and]
        by_cases hkeeps : s.keeps k
        · have hseen := seen_name hc hs h1 hkeeps
          rw [if_pos hkeeps, Option.bind_some]
          unfold Seen at hseen
          split_ifs at hseen with hchild
          · simpa only [hchild, if_true] using ih hseen hp'
          · simp [partsOf_of_isLeaf hseen hp', hchild, hkeeps]
        · have hchild : (s.child k).present = false := by
            simp only [keeps, Bool.or_eq_true, not_or] at hkeeps
            simp [child, hkeeps]
          simp [hchild, hkeeps]
      · obtain ⟨p', hp', rfl⟩ := Option.map_eq_some_iff.1 hp
        obtain ⟨hprop, hif⟩ := seen_values hc hs h2 (by simpa using h1)
        simp only [covered_cons, value_mem_lost, hs, h2, true_and]
        split_ifs at hif with hvalues
        · have hchild : s.child k = s.values := by simp [child, hprop, hvalues]
          rw [if_pos (by simp [keeps, hvalues]), Option.bind_some, hchild]
          simpa only [hvalues, if_true] using ih hif hp'
        · by_cases hallows : s.allows = true
          · rw [if_pos (by simp [keeps, hallows]), partsOf_of_isLeaf (hif hallows) hp']
            simp [hvalues, hallows]
          · rw [if_neg (by simp [keeps, hprop, hvalues, hallows, hs])]
            simp [hvalues, hallows]
      · obtain rfl : [.rest] = p := by simpa using hp
        have hkeeps := seen_rest hc hs (by simpa using h1) (by simpa using h2) (by simpa using h3)
        simp only [covered_cons, rest_mem_lost, hs]
        cases hpres : b.preserves <;> simp [hkeeps, hpres, h4]
    | index i =>
      unfold partsOf at hp
      split_ifs at hp with h1
      obtain ⟨p', hp', rfl⟩ := Option.map_eq_some_iff.1 hp
      obtain ⟨hitems, hcomp⟩ := seen_items hc hs h1
      simp only [covered_cons, element_mem_lost, hs, h1, true_and, hitems]
      rw [walk_cons, step, element, if_pos hitems]
      exact ih hcomp hp'

/-! ### By the text -/

theorem partsOf_ne_nil (hne : place ≠ []) (hp : partsOf b place = some p) : p ≠ [] := by
  rintro rfl
  cases place with
  | nil => exact hne rfl
  | cons t _ =>
    cases t with
    | key k =>
      unfold partsOf at hp
      split_ifs at hp <;> simp at hp
    | index i =>
      unfold partsOf at hp
      simp at hp

section

variable (h : plainNames b)

include h

theorem plainNames_property (hk : (b.property k).present) :
    plain k ∧ plainNames (b.property k) := by
  cases b with
  | absent => simp at hk
  | node _ _ _ names property _ _ _ =>
    have hmem : k ∈ names := mem_names_of_property hk
    simp only [plainNames, Bool.and_eq_true, all_eq_true] at h
    rw [property_node_of_mem hmem] at hk ⊢
    simpa [hk] using h.1.1 k hmem

theorem plainNames_values : plainNames b.values := by
  cases b with
  | absent => rfl
  | node => exact (Bool.and_eq_true_iff.1 (Bool.and_eq_true_iff.1 h).1).2

theorem plainNames_items : plainNames b.items := by
  cases b with
  | absent => rfl
  | node => exact (Bool.and_eq_true_iff.1 h).2

theorem plain_partsOf (hp : partsOf b ts = some p) : ∀ a ∈ p, a.plain := by
  induction ts generalizing b p with
  | nil =>
    obtain rfl : [] = p := by simpa [partsOf] using hp
    simp
  | cons t ts ih =>
    cases t with
    | key k =>
      unfold partsOf at hp
      split_ifs at hp with h1 h2 h3 h4
      · obtain ⟨p', hp', rfl⟩ := Option.map_eq_some_iff.1 hp
        obtain ⟨hk, hbelow⟩ := plainNames_property h h1
        exact forall_mem_cons.2 ⟨hk, ih hbelow hp'⟩
      · obtain ⟨p', hp', rfl⟩ := Option.map_eq_some_iff.1 hp
        exact forall_mem_cons.2 ⟨rfl, ih (plainNames_values h) hp'⟩
      · obtain rfl : [.rest] = p := by simpa using hp
        simp [Segment.plain]
    | index i =>
      unfold partsOf at hp
      split_ifs at hp with h1
      obtain ⟨p', hp', rfl⟩ := Option.map_eq_some_iff.1 hp
      exact forall_mem_cons.2 ⟨rfl, ih (plainNames_items h) hp'⟩

/-- What is lost has a plain path. -/
theorem plain_lost {m : List Segment} (hm : m ∈ lost b s) :
    ∀ a ∈ m, a.plain := by
  induction m generalizing b s with
  | nil => simp
  | cons a m ih =>
    refine forall_mem_cons.2 ?_
    cases a with
    | name k =>
      obtain ⟨-, hk, hif⟩ := name_mem_lost.1 hm
      obtain ⟨hplain, hbelow⟩ := plainNames_property h hk
      refine ⟨hplain, ?_⟩
      split_ifs at hif
      · exact ih hbelow hif
      · simp [hif.2]
    | element =>
      obtain ⟨-, -, hif⟩ := element_mem_lost.1 hm
      refine ⟨rfl, ?_⟩
      split_ifs at hif
      · exact ih (plainNames_items h) hif
      · simp [hif]
    | value =>
      obtain ⟨-, -, hif⟩ := value_mem_lost.1 hm
      refine ⟨rfl, ?_⟩
      split_ifs at hif
      · exact ih (plainNames_values h) hif
      · simp [hif.2]
    | rest =>
      obtain ⟨-, -, rfl⟩ := rest_mem_lost.1 hm
      exact ⟨rfl, by simp⟩

end

/-- What is reported is what is lost. -/
theorem mem_missing (hb : b.present) (hs : s.present) {m : String} :
    m ∈ missing b s ↔ ∃ parts ∈ lost b s, render "" parts = m := by
  rw [missing, if_pos hb, if_pos hs, (perm_insertionSort _ _).mem_iff, missingAt_eq, mem_map]

theorem walk_absent (hc : comparable b .absent) (hne : place ≠ [])
    (hp : partsOf b place = some p) : Schema.absent.walk place = none := by
  cases place with
  | nil => exact absurd rfl hne
  | cons t _ =>
    cases t with
    | key k => rfl
    | index i =>
      unfold partsOf at hp
      split_ifs at hp with hitems
      simpa using (seen_items hc rfl hitems).1

/-- A place that the served schema does not reach is reported. -/
theorem reported_iff_walk {path : String} (hplain : plainNames b)
    (hroot : s.present → b.preserves → s.preserves)
    (hc : comparable b s) (hne : place ≠ []) (hp : fieldPath b place = some path) :
    s.walk place = none ↔ ∃ m ∈ missing b s, under path m := by
  obtain ⟨parts, hparts, rfl⟩ := Option.map_eq_some_iff.1 hp
  have hb : b.present := by
    cases b with
    | absent => cases place with
      | nil => exact absurd rfl hne
      | cons t ts => cases t <;> simp [partsOf] at hparts
    | node => rfl
  by_cases hs : s.present
  · rw [walk_eq_none_iff hc hparts]
    simp only [mem_missing hb hs, exists_exists_and_eq_and]
    refine exists_congr fun m => and_congr_right fun hm => (under_render (plain_lost hplain hm)
      (plain_partsOf hplain hparts) (fun h => nil_notMem_lost (h ▸ hm)) (partsOf_ne_nil hne hparts)
      ?_).symm
    rintro rfl
    obtain ⟨hpres, hpres', -⟩ := rest_mem_lost.1 hm
    simp [hroot hs hpres'] at hpres
  · obtain rfl : s = .absent := by
      cases s with
      | absent => rfl
      | node => simp at hs
    exact iff_of_true (walk_absent hc hne hparts) ⟨"*", by simp [missing, hb], by simp [under]⟩

/-- A tenant's apps, each with its profile and its digest. -/
def builtTenant : Schema :=
  .struct false [("spec", .struct false [("apps", .listOf
    (.struct false [("profile", .leaf), ("digest", .leaf)]))])]

/-- The schema of tenants that a cluster serves. -/
def servedTenant : Schema :=
  .struct false [("spec", .struct false [("apps", .listOf (.struct false [("profile", .leaf)]))])]

/-- A tenant with a wiki that is pinned. -/
def tenantWithWiki : Json :=
  .ofPairs [("spec", .ofPairs [("apps", .ofItems
    [.ofPairs [("profile", .string "wiki"), ("digest", .string "sha256:0b")]])])]

/-- A component's configuration, of which one setting is known. -/
def builtConfig : Schema :=
  .struct false [("config", .struct false [("mail", .struct false [("relay", .leaf)])])]

/-- The cluster keeps any setting, and knows one of them without what is in it. -/
def servedConfig : Schema := .struct false [("config", .struct true [("mail", .leaf)])]

/-- A document with a relay for mail. -/
def mailRelay : Json :=
  .ofPairs [("config", .ofPairs [("mail", .ofPairs [("relay", .string "mx")])])]

/-- The software keeps what else stands at the root; the cluster names the same field there. -/
def openRoot : Schema := .struct true [("config", .leaf)]

end Gentian.Schemacheck
