/-
# Go's `strings` package on characters

The functions of Go's `strings` that the programs of a service use on names.  A Go string is a
sequence of bytes; every separator here is an ASCII character, and an ASCII byte is never part
of another UTF-8 sequence, so reading a string as its list of characters gives the same cuts.

What names rest on is stated once: replacing a character by one the string does not hold can be
undone (`replaceAll_replaceAll`), and two strings joined by a character neither first part
holds come apart in one way only (`join_inj`).
-/

import Mathlib

namespace GoStrings

open List

/-- `strings.ContainsAny(s, chars)`. -/
def containsAny (s chars : String) : Bool := s.toList.any fun c => decide (c ∈ chars.toList)

/-- `strings.ReplaceAll(s, a, b)` for one-character `a` and `b`. -/
def replaceAll (s : String) (a b : Char) : String :=
  String.ofList (s.toList.map fun c => if c = a then b else c)

/-- `strings.HasPrefix(s, p)`. -/
def hasPrefix (s p : String) : Bool := p.toList.isPrefixOf s.toList

/-- `strings.HasSuffix(s, p)`. -/
def hasSuffix (s p : String) : Bool := p.toList.isSuffixOf s.toList

/-- `strings.TrimPrefix(s, p)`: `s` itself when it does not begin with `p`. -/
def trimPrefix (s p : String) : String :=
  if hasPrefix s p then String.ofList (s.toList.drop p.toList.length) else s

/-- `strings.TrimSuffix(s, p)`: `s` itself when it does not end with `p`. -/
def trimSuffix (s p : String) : String :=
  if p.toList.isSuffixOf s.toList then
    String.ofList (s.toList.take (s.toList.length - p.toList.length))
  else s

/-- `strings.CutPrefix(s, p)`, when it finds the prefix. -/
def cutPrefix (s p : String) : Option String :=
  if hasPrefix s p then some (trimPrefix s p) else none

/-- `strings.CutSuffix(s, p)`, when it finds the suffix. -/
def cutSuffix (s p : String) : Option String :=
  if hasSuffix s p then some (trimSuffix s p) else none

/-- `strings.Contains(s, t)`. -/
def contains (s t : String) : Bool := s.toList.tails.any fun r => t.toList.isPrefixOf r

/-- `strings.TrimLeft(s, cutset)`. -/
def trimLeft (s cutset : String) : String :=
  String.ofList (s.toList.dropWhile fun c => decide (c ∈ cutset.toList))

/-- `strings.TrimRight(s, cutset)`. -/
def trimRight (s cutset : String) : String :=
  String.ofList (s.toList.reverse.dropWhile fun c => decide (c ∈ cutset.toList)).reverse

/-- `strings.Trim(s, cutset)`. -/
def trim (s cutset : String) : String :=
  String.ofList ((s.toList.dropWhile fun c => decide (c ∈ cutset.toList)).reverse.dropWhile
    fun c => decide (c ∈ cutset.toList)).reverse

/-- `strings.ToLower(s)` for ASCII text, as host names are. -/
def toLower (s : String) : String := String.ofList (s.toList.map Char.toLower)

/-- What stands before the first of the characters: `s[:strings.IndexAny(s, chars)]`,
and `s` when it holds none of them. -/
def untilAny (s chars : String) : String :=
  String.ofList (s.toList.takeWhile fun c => decide (c ∉ chars.toList))

/-- `strings.LastIndex(s, c)` for one character, `none` when there is none. -/
def lastIndex (s : String) (c : Char) : Option ℕ :=
  let after := s.toList.reverse.takeWhile fun d => decide (d ≠ c)
  if after.length = s.toList.length then none else some (s.toList.length - after.length - 1)

/-- `strings.Split(s, sep)` for a one-character separator. -/
def split (s : String) (sep : Char) : List String := (s.toList.splitOn sep).map String.ofList

/-- `strings.Cut(s, sep)` for a one-character separator: what stands before and
after its first occurrence, `none` when there is none. -/
def cut (s : String) (sep : Char) : Option (String × String) :=
  match s.toList.dropWhile (fun c => c ≠ sep) with
  | [] => none
  | _ :: after => some (String.ofList (s.toList.takeWhile fun c => c ≠ sep), String.ofList after)

/-- `unicode.IsSpace`. -/
def isSpace (c : Char) : Bool :=
  decide (c.toNat ∈ [0x09, 0x0A, 0x0B, 0x0C, 0x0D, 0x20, 0x85, 0xA0, 0x1680, 0x2028, 0x2029, 0x202F,
    0x205F, 0x3000]) || (0x2000 ≤ c.toNat && c.toNat ≤ 0x200A)

/-- `strings.TrimSpace(s)`. -/
def trimSpace (s : String) : String :=
  String.ofList ((s.toList.dropWhile isSpace).reverse.dropWhile isSpace).reverse

/-- The number that digits write. -/
def digitsValue (ds : List Char) : ℕ :=
  ds.foldl (fun n c => 10 * n + (c.toNat - '0'.toNat)) 0

/-- `strconv.ParseInt(s, 10, 64)`: an optional sign and at least one digit, with
a value that fits in 64 bits. -/
def parseInt (s : String) : Option ℤ :=
  let signed : Bool × List Char :=
    match s.toList with
    | '-' :: ds => (true, ds)
    | '+' :: ds => (false, ds)
    | ds => (false, ds)
  if signed.2 = [] ∨ signed.2.any (fun c => !(decide ('0' ≤ c) && decide (c ≤ '9'))) then none
  else
    let v : ℤ := if signed.1 then -digitsValue signed.2 else digitsValue signed.2
    if -2 ^ 63 ≤ v ∧ v < 2 ^ 63 then some v else none

variable {s : String}

/-- A text without blanks is left as it is. -/
theorem trimSpace_of_forall (h : ∀ c ∈ s.toList, isSpace c = false) : trimSpace s = s := by
  have hdrop : ∀ l : List Char, (∀ c ∈ l, isSpace c = false) → l.dropWhile isSpace = l := by
    intro l hl
    cases l with
    | nil => rfl
    | cons c l => exact dropWhile_cons_of_neg (by simp [hl c mem_cons_self])
  rw [trimSpace, hdrop _ h, hdrop _ fun c hc => h c (mem_reverse.1 hc), reverse_reverse,
    String.ofList_toList]

/-- A text that begins and ends outside the cutset is left as it is. -/
theorem trim_of_ends {cutset : String} (hfirst : ∀ c ∈ s.toList.head?, c ∉ cutset.toList)
    (hlast : ∀ c ∈ s.toList.getLast?, c ∉ cutset.toList) : trim s cutset = s := by
  have hdrop : ∀ l : List Char, (∀ c ∈ l.head?, c ∉ cutset.toList) →
      l.dropWhile (fun c => decide (c ∈ cutset.toList)) = l := by
    intro l hl
    cases l with
    | nil => rfl
    | cons c l => rw [dropWhile_cons, if_neg (by simpa using hl)]
  rw [trim, hdrop _ hfirst, hdrop _ (by simpa using hlast), reverse_reverse, String.ofList_toList]

theorem trimLeft_append {a b cutset : String} (hb : ∀ c ∈ b.toList.head?, c ∉ cutset.toList) :
    trimLeft (a ++ b) cutset = trimLeft a cutset ++ b := by
  have hdrop : b.toList.dropWhile (fun c => decide (c ∈ cutset.toList)) = b.toList := by
    cases hl : b.toList with
    | nil => rfl
    | cons c l => exact dropWhile_cons_of_neg (by simpa [hl] using hb)
  rw [trimLeft, String.toList_append, dropWhile_append, hdrop]
  split_ifs with hnil
  · simp [trimLeft, isEmpty_iff.1 hnil]
  · simp [trimLeft]

theorem mem_of_mem_trimLeft {cutset : String} {c : Char} (h : c ∈ (trimLeft s cutset).toList) :
    c ∈ s.toList := by
  rw [trimLeft, String.toList_ofList] at h
  exact (dropWhile_sublist _).subset h

/-- A text without any of the characters. -/
theorem containsAny_eq_false_iff {chars : String} :
    containsAny s chars = false ↔ ∀ c ∈ s.toList, c ∉ chars.toList := by
  simp [containsAny]

@[simp] theorem toList_replaceAll (s : String) (a b : Char) :
    (replaceAll s a b).toList = s.toList.map fun c => if c = a then b else c := by
  simp [replaceAll]

variable {a b : Char} {q sep : String}

/-- Replacing can be undone where the new character was not there. -/
theorem replaceAll_replaceAll (hb : b ∉ s.toList) : replaceAll (replaceAll s a b) b a = s := by
  apply String.toList_inj.1
  rw [toList_replaceAll, toList_replaceAll, map_map]
  refine (map_congr_left fun c hc => ?_).trans (map_id _)
  have hcb : c ≠ b := fun h => hb (h ▸ hc)
  by_cases hca : c = a
  · simp [hca]
  · simp [hca, hcb]

variable {t : String}

/-- So it keeps texts apart. -/
theorem replaceAll_inj (hs : b ∉ s.toList) (ht : b ∉ t.toList)
    (h : replaceAll s a b = replaceAll t a b) : s = t := by
  rw [← replaceAll_replaceAll hs, h, replaceAll_replaceAll ht]

/-- The character that is replaced is gone. -/
theorem not_mem_replaceAll (s : String) {a b : Char} (hne : b ≠ a) :
    a ∉ (replaceAll s a b).toList := by
  intro hmem
  rw [toList_replaceAll, mem_map] at hmem
  obtain ⟨c, -, hc⟩ := hmem
  split_ifs at hc with h
  · exact hne hc
  · exact h hc

theorem replaceAll_of_not_mem (ha : a ∉ s.toList) : replaceAll s a b = s := by
  apply String.toList_inj.1
  rw [toList_replaceAll]
  refine (map_congr_left fun c hc => ?_).trans (map_id _)
  simp [show c ≠ a from fun h => ha (h ▸ hc)]

@[simp] theorem replaceAll_append (s t : String) (a b : Char) :
    replaceAll (s ++ t) a b = replaceAll s a b ++ replaceAll t a b := by
  apply String.toList_inj.1
  simp

variable {p : String}

/-- What a prefix is. -/
theorem hasPrefix_iff : hasPrefix s p ↔ ∃ t, s = p ++ t := by
  rw [hasPrefix, isPrefixOf_iff_prefix]
  constructor
  · rintro ⟨t, ht⟩
    exact ⟨String.ofList t, String.toList_inj.1 (by simp [← ht])⟩
  · rintro ⟨t, rfl⟩
    exact ⟨t.toList, by simp⟩

@[simp] theorem hasPrefix_append (p t : String) : hasPrefix (p ++ t) p :=
  hasPrefix_iff.2 ⟨t, rfl⟩

@[simp] theorem trimPrefix_append (p t : String) : trimPrefix (p ++ t) p = t := by
  simp [trimPrefix]

/-- What a suffix is. -/
theorem hasSuffix_iff : hasSuffix s p ↔ ∃ t, s = t ++ p := by
  rw [hasSuffix, isSuffixOf_iff_suffix]
  constructor
  · rintro ⟨t, ht⟩
    exact ⟨String.ofList t, String.toList_inj.1 (by simp [← ht])⟩
  · rintro ⟨t, rfl⟩
    exact ⟨t.toList, by simp⟩

@[simp] theorem hasSuffix_append (t p : String) : hasSuffix (t ++ p) p :=
  hasSuffix_iff.2 ⟨t, rfl⟩

@[simp] theorem trimSuffix_append (t p : String) : trimSuffix (t ++ p) p = t := by
  have h : p.toList.isSuffixOf (t ++ p).toList := hasSuffix_append t p
  rw [trimSuffix]
  simp

theorem mem_of_mem_trimSuffix (h : c ∈ (trimSuffix s p).toList) : c ∈ s.toList := by
  unfold trimSuffix at h
  split_ifs at h
  · exact mem_of_mem_take (by simpa using h)
  · exact h

theorem cutSuffix_eq_some : cutSuffix s p = some t ↔ s = t ++ p := by
  constructor
  · intro h
    rw [cutSuffix] at h
    split_ifs at h with hsuffix
    obtain ⟨t', rfl⟩ := hasSuffix_iff.1 hsuffix
    rw [trimSuffix_append] at h
    rw [Option.some.inj h]
  · rintro rfl
    rw [cutSuffix, if_pos (hasSuffix_append t p), trimSuffix_append]

theorem cutPrefix_eq_some : cutPrefix s p = some t ↔ s = p ++ t := by
  constructor
  · intro h
    rw [cutPrefix] at h
    split_ifs at h with hprefix
    obtain ⟨t', rfl⟩ := hasPrefix_iff.1 hprefix
    rw [trimPrefix_append] at h
    rw [Option.some.inj h]
  · rintro rfl
    rw [cutPrefix, if_pos (hasPrefix_append p t), trimPrefix_append]

variable {x y : String}

theorem hasSuffix_of_append_eq (h : x ++ p = y ++ q) : hasSuffix q p ∨ hasSuffix p q := by
  have hlist := congrArg String.toList h
  rw [String.toList_append, String.toList_append] at hlist
  simp only [hasSuffix, isSuffixOf_iff_suffix]
  exact suffix_or_suffix_of_suffix ⟨x.toList, hlist⟩ ⟨y.toList, rfl⟩

/-- Of two beginnings of a text one is a beginning of the other. -/
theorem hasPrefix_of_append_eq (h : p ++ x = q ++ y) : hasPrefix q p ∨ hasPrefix p q := by
  have hlist := congrArg String.toList h
  rw [String.toList_append, String.toList_append] at hlist
  simp only [hasPrefix, isPrefixOf_iff_prefix]
  exact prefix_or_prefix_of_prefix ⟨x.toList, hlist⟩ ⟨y.toList, rfl⟩

variable {a b : String} {c : Char}

/-- **Two joins on one separator**, when the last part of the second holds none: the
first parts are equal, or the first one and the separator begin the second. -/
theorem join_cases (hsep : sep.toList = [c])
    (hy : c ∉ y.toList) (h : a ++ sep ++ x = b ++ sep ++ y) :
    (a = b ∧ x = y) ∨ ∃ t, b = a ++ sep ++ t := by
  have hlist := congrArg String.toList h
  simp only [String.toList_append, hsep, append_assoc, singleton_append] at hlist
  rcases append_eq_append_iff.1 hlist with ⟨t, hb, ht⟩ | ⟨t, ha, ht⟩
  · cases t with
    | nil =>
      refine .inl ⟨String.toList_inj.1 (by simpa using hb.symm), String.toList_inj.1 ?_⟩
      simpa using ht
    | cons d t =>
      obtain ⟨rfl, -⟩ := cons.inj ht
      refine .inr ⟨String.ofList t, String.toList_inj.1 ?_⟩
      simp [hb, hsep]
  · cases t with
    | nil =>
      refine .inl ⟨String.toList_inj.1 (by simpa using ha), String.toList_inj.1 ?_⟩
      simpa using ht.symm
    | cons d t =>
      obtain ⟨-, hty⟩ := cons.inj ht
      exact absurd (hty ▸ mem_append_right t mem_cons_self) hy

theorem hasPrefix_singleton (hsep : sep.toList = [c])
    (h : hasPrefix (s ++ sep) p) : p = s ++ sep ∨ hasPrefix s p := by
  rw [hasPrefix, isPrefixOf_iff_prefix, String.toList_append, hsep, prefix_concat_iff] at h
  rcases h with heq | hprefix
  · exact .inl (String.toList_inj.1 (by rw [heq, String.toList_append, hsep]))
  · exact .inr <| isPrefixOf_iff_prefix.2 hprefix

/-- Two joined pairs are equal only if the first parts are, or one goes on from the other. -/
theorem join_nested (hsep : sep.toList = [c]) (h : a ++ sep ++ x = b ++ sep ++ y) :
    a = b ∨ hasPrefix b (a ++ sep) ∨ hasPrefix a (b ++ sep) := by
  rcases hasPrefix_of_append_eq h with hp | hp
  · rcases hasPrefix_singleton hsep hp with heq | hp
    · exact .inl ((String.append_left_inj sep).1 heq)
    · exact .inr (.inl hp)
  · rcases hasPrefix_singleton hsep hp with heq | hp
    · exact .inl ((String.append_left_inj sep).1 heq).symm
    · exact .inr (.inr hp)

/-- Two names that begin one with a separator are the same, or one begins the other with it. -/
theorem nested_of_hasPrefix (hsep : sep.toList = [c]) (h : hasPrefix s (a ++ sep))
    (h' : hasPrefix s (b ++ sep)) : a = b ∨ hasPrefix a (b ++ sep) ∨ hasPrefix b (a ++ sep) := by
  obtain ⟨x, rfl⟩ := hasPrefix_iff.1 h
  obtain ⟨y, hy⟩ := hasPrefix_iff.1 h'
  exact (join_nested hsep hy).imp_right Or.symm

variable {sep : Char}

/-- Where a text is cut. -/
theorem cut_eq_some_iff :
    cut s sep = some (a, b) ↔ sep ∉ a.toList ∧ s.toList = a.toList ++ sep :: b.toList := by
  have hsplit := takeWhile_append_dropWhile (p := fun c => decide (c ≠ sep)) (l := s.toList)
  have hbefore : sep ∉ s.toList.takeWhile fun c => decide (c ≠ sep) := fun hm => by
    simpa using mem_takeWhile_imp hm
  constructor
  · intro h
    unfold cut at h
    split at h
    · cases h
    next c _ hdrop =>
      cases h
      have hc : c = sep := by
        have := head_dropWhile_not (fun c => decide (c ≠ sep))
          (by rw [hdrop]; exact cons_ne_nil _ _)
        simpa only [hdrop, head_cons, decide_eq_false_iff_not, not_not] using this
      subst hc
      rw [hdrop] at hsplit
      exact ⟨by simpa using hbefore, by rw [String.toList_ofList, String.toList_ofList, hsplit]⟩
  · rintro ⟨ha, hs⟩
    have htake : s.toList.takeWhile (fun c => decide (c ≠ sep)) = a.toList := by
      rw [hs, takeWhile_append_of_pos fun c hc => by
        simpa using fun h : c = sep => ha (h ▸ hc)]
      simp
    have hdrop : s.toList.dropWhile (fun c => decide (c ≠ sep)) = sep :: b.toList := by
      rw [hs, dropWhile_append_of_pos fun c hc => by
        simpa using fun h : c = sep => ha (h ▸ hc)]
      simp
    unfold cut
    rw [hdrop, htake]
    simp

theorem cut_eq_none_iff : cut s sep = none ↔ sep ∉ s.toList := by
  constructor
  · intro h hmem
    obtain ⟨before, after, hs, hbefore⟩ := eq_append_cons_of_mem hmem
    have hsome : cut s sep = some (String.ofList before, String.ofList after) :=
      cut_eq_some_iff.2 ⟨by simpa using hbefore, by simpa using hs⟩
    rw [hsome] at h
    cases h
  · intro h
    cases hcut : cut s sep with
    | none => rfl
    | some _ =>
      obtain ⟨-, hs⟩ := cut_eq_some_iff.1 hcut
      exact absurd (by simp [hs]) h

/-- **Two joins on a character come apart in one way.**  When neither first
part holds the separator, equal joins have equal parts. -/
theorem join_inj {a' b' : String} (ha : sep ∉ a.toList) (ha' : sep ∉ a'.toList)
    (h : a.toList ++ sep :: b.toList = a'.toList ++ sep :: b'.toList) : a = a' ∧ b = b' := by
  have h1 : cut (String.ofList (a.toList ++ sep :: b.toList)) sep = some (a, b) :=
    cut_eq_some_iff.2 ⟨ha, by simp⟩
  have h2 : cut (String.ofList (a.toList ++ sep :: b.toList)) sep = some (a', b') :=
    cut_eq_some_iff.2 ⟨ha', by simp [h]⟩
  simpa using h1.symm.trans h2

/-- A separator that is in neither first part keeps pairs apart. -/
theorem append_inj {a' b' sep : String} (hsep : sep.toList = [c])
    (ha : c ∉ a.toList) (ha' : c ∉ a'.toList) (h : a ++ (sep ++ b) = a' ++ (sep ++ b')) :
    a = a' ∧ b = b' := by
  have hlist := congrArg String.toList h
  simp only [String.toList_append, hsep] at hlist
  exact join_inj ha ha' hlist

theorem split_join (ha : sep ∉ a.toList) :
    split (a ++ String.ofList [sep] ++ b) sep = a :: split b sep := by
  simp [split, splitOn_append_cons_self_of_not_mem ha]

/-- The parts of a text joined by a separator. -/
theorem split_append : split (a ++ String.ofList [sep] ++ b) sep = split a sep ++ split b sep := by
  simp [split, splitOn_append_cons_self]

/-- What it is to contain a text. -/
theorem contains_iff {t : String} : contains s t ↔ ∃ x y, s = x ++ t ++ y := by
  simp only [contains, any_eq_true, mem_tails, isPrefixOf_iff_prefix]
  constructor
  · rintro ⟨r, ⟨x, hx⟩, y, rfl⟩
    exact ⟨String.ofList x, String.ofList y, String.toList_inj.1 (by simp [← hx])⟩
  · rintro ⟨x, y, rfl⟩
    exact ⟨t.toList ++ y.toList, ⟨x.toList, by simp⟩, y.toList, rfl⟩

theorem contains_eq_false {sep : String} (hsep : sep.toList = [c])
    (h : c ∉ s.toList) : contains s sep = false := by
  rw [contains, any_eq_false, hsep]
  intro r hr hpre
  obtain ⟨rest, rfl⟩ := isPrefixOf_iff_prefix.1 hpre
  exact h (((mem_tails _ _).1 hr).subset (by simp))

theorem split_of_not_mem (h : sep ∉ s.toList) : split s sep = [s] := by
  simp [split, splitOn_eq_singleton h]

theorem not_mem_of_mem_split {part : String} (h : part ∈ split s sep) : sep ∉ part.toList := by
  -- by induction on the length: the first part ends at the first separator
  induction hn : s.toList.length using Nat.strong_induction_on generalizing s with
  | _ n ih =>
    by_cases hsep : sep ∈ s.toList
    · obtain ⟨a, b, hs, ha⟩ := eq_append_cons_of_mem hsep
      have hjoin : s = String.ofList a ++ String.ofList [sep] ++ String.ofList b :=
        String.toList_inj.1 (by simp [hs])
      rw [hjoin, split_join (by simpa using ha)] at h
      rcases mem_cons.1 h with rfl | h
      · simpa using ha
      · refine ih b.length ?_ h (by simp)
        rw [← hn, hs, length_append, length_cons]
        omega
    · rw [split_of_not_mem hsep, mem_singleton] at h
      rwa [h]

theorem split_ne_nil : split s sep ≠ [] := by
  simp [split]

/-- The parts determine the text. -/
theorem split_inj (h : split a sep = split b sep) : a = b := by
  have hlist : a.toList.splitOn sep = b.toList.splitOn sep :=
    map_injective_iff.2 (fun _ _ => String.ofList_inj.1) h
  have hjoin := congrArg (intercalate [sep]) hlist
  rw [intercalate_splitOn, intercalate_splitOn] at hjoin
  exact String.toList_inj.1 hjoin

/-- Parts without the separator are the parts of their join. -/
theorem split_intercalate {parts : List String} (hne : parts ≠ [])
    (h : ∀ part ∈ parts, sep ∉ part.toList) :
    split (String.intercalate (String.ofList [sep]) parts) sep = parts := by
  have hlist : ∀ part ∈ parts.map String.toList, sep ∉ part := by
    intro part hpart
    obtain ⟨x, hx, rfl⟩ := mem_map.1 hpart
    exact h x hx
  rw [split, String.toList_intercalate, String.toList_ofList,
    splitOn_intercalate _ hlist (by simpa using hne)]
  simp [Function.comp_def]

/-- **The parts of one string begin with those of another** when the one is the other, or
goes on after it with the separator. -/
theorem split_isPrefix_iff :
    split a sep <+: split s sep ↔ s = a ∨ ∃ rest, s = a ++ String.ofList [sep] ++ rest := by
  constructor
  · rintro ⟨parts, hparts⟩
    by_cases hne : parts = []
    · exact .inl (split_inj (by simpa [hne] using hparts.symm))
    · have hrest := split_intercalate hne fun _ hpart =>
        not_mem_of_mem_split (hparts ▸ mem_append_right _ hpart)
      exact .inr ⟨_, split_inj (by rw [split_append, hrest, hparts])⟩
  · rintro (rfl | ⟨rest, rfl⟩)
    · exact prefix_rfl
    · rw [split_append]
      exact prefix_append _ _

/-! ### Percent-encoding -/

/-- The value of a hexadecimal digit. -/
def unhex (c : Char) : Option ℕ :=
  if '0' ≤ c ∧ c ≤ '9' then some (c.toNat - '0'.toNat)
  else if 'a' ≤ c ∧ c ≤ 'f' then some (c.toNat - 'a'.toNat + 10)
  else if 'A' ≤ c ∧ c ≤ 'F' then some (c.toNat - 'A'.toNat + 10)
  else none

/-- The byte that two digits stand for, as a character. -/
def octet (high low : Char) : Option Char :=
  match unhex high, unhex low with
  | some h, some l => some (Char.ofNat (16 * h + l))
  | _, _ => none

/-- The characters of a text, each with whether it was escaped.  A percent sign without two
digits stands for itself. -/
def readEscapes : List Char → List (Char × Bool)
  | [] => []
  | '%' :: high :: low :: rest =>
    match octet high low with
    | some c => (c, true) :: readEscapes rest
    | none => ('%', false) :: readEscapes (high :: low :: rest)
  | c :: rest => (c, false) :: readEscapes rest

/-- `url.PathUnescape`, where it does not fail. -/
def unescape (s : String) : String := String.ofList ((readEscapes s.toList).map Prod.fst)

/-- The characters that the escapes of a text stand for. -/
def escaped (s : String) : List Char :=
  ((readEscapes s.toList).filter fun x => x.2).map Prod.fst

theorem eq_append_of_readEscapes {cs q r : List Char}
    (h : (readEscapes cs).map Prod.fst = q ++ r) (hq : ∀ c ∈ q, (c, true) ∉ readEscapes cs) :
    ∃ r', cs = q ++ r' ∧ (readEscapes r').map Prod.fst = r := by
  induction q generalizing cs with
  | nil => exact ⟨cs, rfl, h⟩
  | cons c q ih =>
    -- the first character stands for itself, since it is none that was escaped
    obtain ⟨rest, rfl, hread⟩ : ∃ rest, cs = c :: rest ∧
        readEscapes cs = (c, false) :: readEscapes rest := by
      revert h hq
      fun_cases readEscapes cs with
      | case1 => simp
      | case2 high low rest c' hoctet =>
        intro h hq
        obtain rfl : c' = c := by simpa using (cons.inj h).1
        exact absurd mem_cons_self (hq c' mem_cons_self)
      | case3 high low rest hoctet =>
        intro h _
        obtain rfl : '%' = c := by simpa using (cons.inj h).1
        exact ⟨_, rfl, rfl⟩
      | case4 c' rest =>
        intro h _
        obtain rfl : c' = c := by simpa using (cons.inj h).1
        exact ⟨_, rfl, rfl⟩
    rw [hread] at h hq
    obtain ⟨r', rfl, hr⟩ := ih (cons.inj h).2 fun c' hc' hmem =>
      hq c' (mem_cons_of_mem c hc') (mem_cons_of_mem _ hmem)
    exact ⟨r', rfl, hr⟩

/-- **What is not escaped is written as it is read.** -/
theorem eq_append_of_unescape (h : unescape s = q ++ b)
    (hq : ∀ c ∈ q.toList, c ∉ escaped s) : ∃ b', s = q ++ b' ∧ unescape b' = b := by
  have hlist := congrArg String.toList h
  rw [unescape, String.toList_ofList, String.toList_append] at hlist
  obtain ⟨r, hr, hread⟩ := eq_append_of_readEscapes hlist fun c hc hmem =>
    hq c hc (mem_map.2 ⟨(c, true), mem_filter.2 ⟨hmem, rfl⟩, rfl⟩)
  exact ⟨String.ofList r, String.toList_inj.1 (by simp [hr]), by simp [unescape, hread]⟩

/-- A text of which nothing was escaped is what it reads as. -/
theorem eq_of_unescape_eq (h : unescape s = q) (hq : ∀ c ∈ q.toList, c ∉ escaped s) : s = q := by
  obtain ⟨b', rfl, hb⟩ := eq_append_of_unescape (b := "") (by simpa using h) hq
  have hnil : readEscapes b'.toList = [] := by
    simpa [unescape] using hb
  have hb' : b'.toList = [] := by
    revert hnil
    fun_cases readEscapes b'.toList <;> simp_all
  simpa using hb'

end GoStrings

/-! ### Computations that may fail -/

namespace GoErrors

variable {α β ε : Type} {f : α → β} {g : α → Except ε β} {r : Except ε α} {b : β}

/-- A sequence succeeds when each part does. -/
theorem bind_eq_ok : (r >>= g) = .ok b ↔ ∃ a, r = .ok a ∧ g a = .ok b := by
  cases r <;> simp [bind, Except.bind]

theorem seq_eq_ok {r : Except ε Unit} {x : Except ε β} :
    (r >>= fun _ => x) = .ok b ↔ r = .ok () ∧ x = .ok b := by
  cases r <;> simp [bind, Except.bind]

/-- What a mapped success is. -/
theorem map_eq_ok : r.map f = .ok b ↔ ∃ a, r = .ok a ∧ f a = b := by
  cases r <;> simp [Except.map]

end GoErrors
