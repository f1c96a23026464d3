/-
# What a served schema lacks

`internal/schemacheck/compare.go`: the field paths that the schema the software was built with
declares and the one the cluster serves would prune.

A field path is text: properties joined by dots, `[]` for the elements of a list, `{}` for the
values of a map and `.*` for anything else under a node.  `lost` is the comparison over lists of
parts, of which the text is written afterwards (`missingAt_eq`).  Where no property's name has one
of the marks in it, `under` asks whether one list of parts begins another (`under_render`).
-/

import Gentian.Base.GoStrings
import Gentian.Base.Schema

namespace Gentian.Schemacheck

open Documents GoStrings List

/-- A path with one name more. -/
def join (path name : String) : String := if path = "" then name else path ++ "." ++ name

/-- `missing`: what is reported below a path. -/
def missingAt : Schema → String → Schema → List String
  | .absent, _, _ => []
  | .node preserve _ _ names property _ values items, path, served =>
    if served.preserves then []
    else
      (if preserve then [join path "*"] else []) ++
      names.list.flatMap (fun name =>
        if (property name).present then
          if (served.property name).present then
            missingAt (property name) (join path name) (served.property name)
          -- served as a map where it was built as an object
          else if served.values.present then
            missingAt (property name) (join path name) served.values
          else if served.allows then []
          else [join path name]
        else []) ++
      (if items.present then
        if served.items.present then missingAt items (path ++ "[]") served.items
        else [path ++ "[]"]
      else []) ++
      (if values.present then
        if served.values.present then missingAt values (path ++ "\x7b\x7d") served.values
        else if served.allows then []
        else [path ++ "\x7b\x7d"]
      else [])

/-- `missing`: the fields of the built schema that the served one would prune. -/
def missing (built served : Schema) : List String :=
  if built.present then
    if served.present then (missingAt built "" served).insertionSort (· ≤ ·) else ["*"]
  else []

/-- A character that a path has between its parts. -/
def isMark (c : Char) : Bool := c = '.' || c = '[' || c = '\x7b'

/-- Whether a part of a path ends here. -/
def ends : List Char → Bool
  | [] => true
  | c :: _ => isMark c

/-- `under`: the path is the field at the root or one beneath it. -/
def under (path root : String) : Bool :=
  if root = "*" then true
  else hasPrefix path root && ends (path.toList.drop root.toList.length)

/-! ### Paths by their parts -/

/-- A part of a path. -/
inductive Segment where
  | name (k : String)
  | element
  | value
  | rest
deriving DecidableEq

namespace Segment

/-- A path with one part more. -/
def onto (path : String) : Segment → String
  | name k => join path k
  | element => path ++ "[]"
  | value => path ++ "\x7b\x7d"
  | rest => join path "*"

end Segment

/-- A path written out. -/
def render (path : String) (parts : List Segment) : String := parts.foldl Segment.onto path

@[simp] theorem render_nil (path : String) : render path [] = path := rfl

@[simp] theorem render_cons (path : String) (a : Segment) (parts : List Segment) :
    render path (a :: parts) = render (a.onto path) parts := rfl

/-- What `missing` reports, by its parts: at each property, what the schema the key is held to
loses of it, or the whole of it. -/
def lost : Schema → Schema → List (List Segment)
  | .absent, _ => []
  | .node preserve _ _ names property _ values items, served =>
    if served.preserves then []
    else
      (if preserve then [[.rest]] else []) ++
      names.list.flatMap (fun name =>
        if (property name).present then
          if (served.child name).present then
            (lost (property name) (served.child name)).map (.name name :: ·)
          else if served.keeps name then []
          else [[.name name]]
        else []) ++
      (if items.present then
        if served.items.present then (lost items served.items).map (.element :: ·)
        else [[.element]]
      else []) ++
      (if values.present then
        if served.values.present then (lost values served.values).map (.value :: ·)
        else if served.allows then []
        else [[.value]]
      else [])

/-- **The report is the text of what is lost.** -/
theorem missingAt_eq (built served : Schema) (path : String) :
    missingAt built path served = (lost built served).map (render path) := by
  induction built generalizing served path with
  | absent => rfl
  | node _ _ _ names property allows values _ ihp ihv ihi =>
    unfold missingAt lost
    by_cases hserved : served.preserves
    · simp [hserved]
    · simp only [hserved, if_neg, not_false_eq_true, Bool.false_eq_true, map_append]
      congr 1
      congr 1
      congr 1
      · split_ifs <;> rfl
      · rw [map_flatMap]
        refine congrArg (fun f => flatMap f names.list) (funext fun name => ?_)
        by_cases h1 : (served.property name).present = true <;>
          by_cases h2 : served.values.present = true <;>
          by_cases h3 : served.allows = true <;>
          by_cases h : (property name).present = true <;>
          simp [Schema.child, Schema.keeps, h, h1, h2, h3, hserved, ihp, Segment.onto]
      · split_ifs <;> simp [ihi, Segment.onto]
      · split_ifs <;> simp [ihv, Segment.onto]

variable {m parts : List Segment} {a : Segment} {path : String}

private theorem mem_map_cons {l : List (List Segment)} :
    m ∈ l.map (a :: ·) ↔ ∃ m' ∈ l, m = a :: m' := by
  simp only [mem_map, eq_comm]

/-- Something is lost at a node that does not keep unknown fields: whatever is kept beside the
properties, a property or a further part of one, and likewise for elements and values. -/
theorem mem_lost {b s : Schema} : m ∈ lost b s ↔ s.preserves = false ∧ (b.preserves ∧ m = [.rest] ∨
      (∃ k, (b.property k).present ∧
        if (s.child k).present then ∃ m' ∈ lost (b.property k) (s.child k), m = .name k :: m'
        else s.keeps k = false ∧ m = [.name k]) ∨
      (b.items.present ∧
        if s.items.present then ∃ m' ∈ lost b.items s.items, m = .element :: m'
        else m = [.element]) ∨
      b.values.present ∧
        if s.values.present then ∃ m' ∈ lost b.values s.values, m = .value :: m'
        else s.allows = false ∧ m = [.value]) := by
  cases b with
  | absent => simp [lost]
  | node _ _ _ names property allows values items =>
    by_cases hserved : s.preserves
    · simp [lost, hserved]
    · simp only [lost, hserved, if_neg, not_false_eq_true, Bool.false_eq_true, mem_append,
        true_and, or_assoc, mem_flatMap]
      refine or_congr ?_ (or_congr (exists_congr fun k => ?_) (or_congr ?_ ?_))
      · split_ifs with h <;> simp [h]
      · rw [Schema.property_node]
        by_cases hk : k ∈ names
        · simp only [Keys.mem_def.1 hk]
          split_ifs <;> simp_all [mem_map_cons]
        · simp [hk, mt Keys.mem_def.2 hk]
      · split_ifs <;> simp_all [mem_map_cons]
      · split_ifs <;> simp_all [mem_map_cons]

variable {b s : Schema} {k : String} {m p : List Segment}

theorem nil_notMem_lost : [] ∉ lost b s := by
  intro h
  obtain ⟨-, ⟨-, h⟩ | ⟨k, -, h⟩ | ⟨-, h⟩ | ⟨-, h⟩⟩ := mem_lost.1 h
  · simp at h
  all_goals split_ifs at h <;> simp at h

/-- When a property is lost. -/
theorem name_mem_lost : .name k :: m ∈ lost b s ↔ s.preserves = false ∧ (b.property k).present ∧
      if (s.child k).present then m ∈ lost (b.property k) (s.child k)
      else s.keeps k = false ∧ m = [] := by
  rw [mem_lost]
  constructor
  · rintro ⟨hs, ⟨-, h⟩ | ⟨l, hl, h⟩ | ⟨-, h⟩ | ⟨-, h⟩⟩
    · simp at h
    · split_ifs at h with hchild <;> simp at h
      · obtain ⟨m', -, rfl, rfl⟩ := h
        exact ⟨hs, hl, by rwa [if_pos hchild]⟩
      · obtain ⟨hkeeps, rfl, rfl⟩ := h
        exact ⟨hs, hl, by simp [hchild, hkeeps]⟩
    all_goals split_ifs at h <;> simp at h
  · rintro ⟨hs, hl, h⟩
    refine ⟨hs, .inr (.inl ⟨k, hl, ?_⟩)⟩
    split_ifs at h ⊢
    · exact ⟨m, h, rfl⟩
    · simpa using h

/-- When items are lost. -/
theorem element_mem_lost : .element :: m ∈ lost b s ↔ s.preserves = false ∧ b.items.present ∧
      if s.items.present then m ∈ lost b.items s.items else m = [] := by
  rw [mem_lost]
  constructor
  · rintro ⟨hs, ⟨-, h⟩ | ⟨l, hl, h⟩ | ⟨hb, h⟩ | ⟨-, h⟩⟩
    · simp at h
    · split_ifs at h <;> simp at h
    · split_ifs at h with hitems <;> simp at h <;> exact ⟨hs, hb, by simp [hitems, h]⟩
    · split_ifs at h <;> simp at h
  · rintro ⟨hs, hb, h⟩
    refine ⟨hs, .inr (.inr (.inl ⟨hb, ?_⟩))⟩
    split_ifs at h ⊢ <;> simpa using h

/-- When values of a map are lost. -/
theorem value_mem_lost : .value :: m ∈ lost b s ↔ s.preserves = false ∧ b.values.present ∧
      if s.values.present then m ∈ lost b.values s.values else s.allows = false ∧ m = [] := by
  rw [mem_lost]
  constructor
  · rintro ⟨hs, ⟨-, h⟩ | ⟨l, hl, h⟩ | ⟨-, h⟩ | ⟨hb, h⟩⟩
    · simp at h
    · split_ifs at h <;> simp at h
    · split_ifs at h <;> simp at h
    · split_ifs at h with hvalues <;> simp at h <;> exact ⟨hs, hb, by simp [hvalues, h]⟩
  · rintro ⟨hs, hb, h⟩
    refine ⟨hs, .inr (.inr (.inr ⟨hb, ?_⟩))⟩
    split_ifs at h ⊢ <;> simpa using h

/-- When the rest is lost. -/
theorem rest_mem_lost : .rest :: m ∈ lost b s ↔ s.preserves = false ∧ b.preserves ∧ m = [] := by
  rw [mem_lost]
  constructor
  · rintro ⟨hs, ⟨hb, h⟩ | ⟨l, hl, h⟩ | ⟨-, h⟩ | ⟨-, h⟩⟩
    · exact ⟨hs, hb, by simpa using h⟩
    all_goals split_ifs at h <;> simp at h
  · rintro ⟨hs, hb, rfl⟩
    exact ⟨hs, .inl ⟨hb, rfl⟩⟩

theorem covered_cons : (∃ m ∈ lost b s, m <+: a :: p) ↔ ∃ m, a :: m ∈ lost b s ∧ m <+: p := by
  constructor
  · rintro ⟨m, hm, hpre⟩
    cases m with
    | nil => exact absurd hm nil_notMem_lost
    | cons c m =>
      obtain ⟨rfl, hrest⟩ := cons_prefix_cons.1 hpre
      exact ⟨m, hm, hrest⟩
  · rintro ⟨m, hm, hpre⟩
    exact ⟨a :: m, hm, cons_prefix_cons.2 ⟨rfl, hpre⟩⟩

/-! ### The text of a path -/

/-- The text of one part, where something stands before it. -/
def Segment.text : Segment → List Char
  | .name k => '.' :: k.toList
  | .element => ['[', ']']
  | .value => ['\x7b', '\x7d']
  | .rest => ['.', '*']

/-- A name without the marks of a path. -/
def plain (k : String) : Bool := k ≠ "" && k ≠ "*" && !k.toList.any isMark

/-- A part with a plain name. -/
def Segment.plain : Segment → Bool
  | .name k => Schemacheck.plain k
  | _ => true

/-- The characters of a path. -/
def flat (parts : List Segment) : List Char := parts.flatMap Segment.text

@[simp] theorem flat_nil : flat [] = [] := rfl

@[simp] theorem flat_cons (a : Segment) (parts : List Segment) :
    flat (a :: parts) = a.text ++ flat parts := flatMap_cons

theorem Segment.text_eq (a : Segment) (ha : a.plain) :
    ∃ c w, a.text = c :: w ∧ isMark c ∧ (∀ d ∈ w, isMark d = false) ∧ w ≠ [] := by
  cases a with
  | name k =>
    simp only [Segment.plain, Schemacheck.plain, Bool.and_eq_true,
      Bool.not_eq_true', any_eq_false, Bool.not_eq_true] at ha
    exact ⟨'.', k.toList, rfl, rfl, ha.2, by simpa using ha.1.1⟩
  | element => exact ⟨'[', [']'], rfl, rfl, by simp [isMark], by simp⟩
  | value => exact ⟨'\x7b', ['\x7d'], rfl, rfl, by simp [isMark], by simp⟩
  | rest => exact ⟨'.', ['*'], rfl, rfl, by simp [isMark], by simp⟩

/-- The text of a part names it. -/
theorem Segment.text_inj {b : Segment} (ha : a.plain) (hb : b.plain)
    (h : a.text = b.text) : a = b := by
  have hstar : ∀ {k}, Segment.plain (.name k) → k.toList ≠ ['*'] := fun hk hlist => by
    have : _ = "*" := String.toList_inj.1 (hlist.trans (by decide : ['*'] = "*".toList))
    simp [this, Segment.plain, Schemacheck.plain] at hk
  cases a with
  | name k =>
    cases b with
    | name l => rw [String.toList_inj.1 (tail_eq_of_cons_eq h)]
    | rest => exact absurd (tail_eq_of_cons_eq h) (hstar ha)
    | element | value => simp [Segment.text] at h
  | rest =>
    cases b with
    | name l => exact absurd (tail_eq_of_cons_eq h).symm (hstar hb)
    | rest => rfl
    | element | value => simp [Segment.text] at h
  | element | value => cases b <;> simp [Segment.text] at h ⊢

private theorem words_eq {w w' x y : List Char} (hw : ∀ d ∈ w, isMark d = false)
    (hw' : ∀ d ∈ w', isMark d = false) (hx : ends x) (hy : ends y)
    (h : w ++ x = w' ++ y) : w = w' ∧ x = y := by
  have htake : ∀ {w x}, (∀ d ∈ w, isMark d = false) → ends x →
      (w ++ x).takeWhile (fun d => !isMark d) = w := fun {w x} hw hx => by
    rw [takeWhile_append_of_pos fun d hd => by simp [hw d hd]]
    cases x with
    | nil => simp
    | cons c x => rw [takeWhile_cons_of_neg (by simpa [ends] using hx), append_nil]
  have hwords : w = w' := by rw [← htake hw hx, h, htake hw' hy]
  exact ⟨hwords, append_cancel_left (hwords ▸ h)⟩

theorem ends_flat (h : ∀ a ∈ parts, a.plain) {t : List Char} (ht : ends t) :
    ends (flat parts ++ t) := by
  cases parts with
  | nil => exact ht
  | cons a parts =>
    obtain ⟨c, w, htext, hc, -⟩ := a.text_eq (h a mem_cons_self)
    simp [htext, ends, hc]

/-- **A path begins another just where its text does** and ends there or at a mark. -/
theorem flat_append_iff (hm : ∀ a ∈ m, a.plain)
    (hp : ∀ a ∈ p, a.plain) : (∃ t, flat m ++ t = flat p ∧ ends t) ↔ m <+: p := by
  induction m generalizing p with
  | nil => exact ⟨fun _ => nil_prefix, fun _ => ⟨flat p, rfl, by
      simpa using ends_flat hp (t := []) rfl⟩⟩
  | cons a m ih =>
    obtain ⟨c, w, htext, hc, hw, -⟩ := a.text_eq (hm a mem_cons_self)
    cases p with
    | nil => simp [htext]
    | cons b p =>
      obtain ⟨c', w', htext', -, hw', -⟩ := b.text_eq (hp b mem_cons_self)
      have hm' : ∀ a ∈ m, a.plain := fun x hx => hm x (mem_cons_of_mem _ hx)
      have hp' : ∀ a ∈ p, a.plain := fun x hx => hp x (mem_cons_of_mem _ hx)
      rw [cons_prefix_cons, ← ih hm' hp']
      constructor
      · rintro ⟨t, heq, ht⟩
        simp only [flat_cons, htext, htext', cons_append, append_assoc, cons.injEq] at heq
        obtain ⟨hword, hrest⟩ := words_eq hw hw' (ends_flat hm' ht)
          (by simpa using ends_flat hp' (t := []) rfl) heq.2
        refine ⟨Segment.text_inj (hm a mem_cons_self) (hp b mem_cons_self) ?_, t, hrest, ht⟩
        rw [htext, htext', heq.1, hword]
      · rintro ⟨rfl, t, heq, ht⟩
        exact ⟨t, by simp [heq], ht⟩

theorem join_ne {name : String} (h : name ≠ "") : join path name ≠ "" := by
  unfold join
  split_ifs with hpath
  · exact h
  · simp [hpath]

theorem Segment.onto_ne (ha : a.plain) (path : String) : a.onto path ≠ "" := by
  cases a with
  | name k =>
    refine join_ne ?_
    rintro rfl
    simp [Segment.plain, Schemacheck.plain] at ha
  | rest => exact join_ne (by decide)
  | element | value => simp [Segment.onto]

theorem Segment.toList_onto (hpath : path ≠ "") (a : Segment) :
    (a.onto path).toList = path.toList ++ a.text := by
  cases a <;> simp [Segment.onto, Segment.text, join, hpath]

/-- A path is its parts written out. -/
theorem toList_render (hpath : path ≠ "") (h : ∀ a ∈ parts, a.plain) :
    (render path parts).toList = path.toList ++ flat parts := by
  induction parts generalizing path with
  | nil => simp
  | cons a parts ih =>
    obtain ⟨ha, hparts⟩ := forall_mem_cons.1 h
    rw [render_cons, ih (a.onto_ne ha path) hparts, a.toList_onto hpath, flat_cons, append_assoc]

/-- The text with the dot that its first name goes without. -/
def dotted (cs : List Char) : List Char := if ends cs then cs else '.' :: cs

/-- And can be read back. -/
theorem dotted_render (hne : parts ≠ []) (h : ∀ a ∈ parts, a.plain) :
    dotted (render "" parts).toList = flat parts := by
  cases parts with
  | nil => exact absurd rfl hne
  | cons a parts =>
    obtain ⟨ha, hparts⟩ := forall_mem_cons.1 h
    rw [render_cons, toList_render (a.onto_ne ha "") hparts]
    cases a with
    | name k =>
      obtain ⟨c, w, htext, -, hw, hne⟩ := Segment.text_eq (.name k) ha
      have hk : k.toList = w := tail_eq_of_cons_eq htext
      obtain ⟨d, w', rfl⟩ := exists_cons_of_ne_nil hne
      have hd : isMark d = false := hw d mem_cons_self
      simp [Segment.onto, join, dotted, hk, ends, hd, Segment.text]
    | rest => simp [Segment.onto, join, dotted, ends, isMark, Segment.text]
    | element | value => simp [Segment.onto, dotted, ends, isMark, Segment.text]

theorem dotted_append {cs t : List Char} (h : cs ≠ []) : dotted (cs ++ t) = dotted cs ++ t := by
  cases cs with
  | nil => exact absurd rfl h
  | cons c cs =>
    by_cases hc : isMark c = true <;> simp [dotted, ends, hc]

theorem render_ne (hne : parts ≠ []) (h : ∀ a ∈ parts, a.plain) : render "" parts ≠ "" := by
  intro hempty
  have hflat := dotted_render hne h
  obtain ⟨a, rest, rfl⟩ := exists_cons_of_ne_nil hne
  obtain ⟨c, w, htext, -⟩ := a.text_eq (h a mem_cons_self)
  simp [hempty, dotted, ends, htext] at hflat

/-- **`under` asks whether one path begins another**, by their parts. -/
theorem under_render (hm : ∀ a ∈ m, a.plain)
    (hp : ∀ a ∈ p, a.plain) (hm0 : m ≠ []) (hp0 : p ≠ []) (hrest : m ≠ [.rest]) :
    under (render "" p) (render "" m) ↔ m <+: p := by
  have hstar : render "" m ≠ "*" := fun hstar => hrest <| by
    have hflat : flat m = flat [.rest] := by
      rw [← dotted_render hm0 hm, hstar]
      rfl
    have hpre := (flat_append_iff (p := [.rest]) hm (by simp [Segment.plain])).1
      ⟨[], by rw [append_nil, hflat], rfl⟩
    exact hpre.eq_of_length_le (by simpa [Nat.one_le_iff_ne_zero] using hm0)
  rw [under, if_neg hstar, Bool.and_eq_true, hasPrefix_iff]
  constructor
  · rintro ⟨⟨t, ht⟩, hends⟩
    rw [ht, String.toList_append, drop_left] at hends
    refine (flat_append_iff hm hp).1 ⟨t.toList, ?_, hends⟩
    have hlist : (render "" m).toList ≠ [] := by simpa using render_ne hm0 hm
    rw [← dotted_render hm0 hm, ← dotted_append hlist, ← String.toList_append, ← ht,
      dotted_render hp0 hp]
  · rintro ⟨q, rfl⟩
    have hq : ∀ a ∈ q, a.plain := fun a ha => hp a (mem_append_right m ha)
    have htext : (render "" (m ++ q)).toList = (render "" m).toList ++ flat q := by
      rw [← toList_render (render_ne hm0 hm) hq]
      simp [render]
    refine ⟨⟨String.ofList (flat q), String.toList_inj.1 (by simp [htext])⟩, ?_⟩
    rw [htext]
    simpa using ends_flat hq (t := []) rfl

end Gentian.Schemacheck
