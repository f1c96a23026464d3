/-
# The names the platform accepts

`api/v1alpha1/tenancy.go` (`tenantName`, `ValidTenantName`) and the realm name
pattern that `internal/membership/events.go` (`realmName`) and
`internal/director/authz/roles.go` (`holderRealm`) share.

| pattern | expression |
| --- | --- |
| label | `^[a-z0-9]([-a-z0-9]{0,61}[a-z0-9])?$` |
| tenant | `^[a-z0-9]([-a-z0-9]{0,36}[a-z0-9])?$` |
| realm | `^[A-Za-z0-9][A-Za-z0-9_-]{0,62}$` |

Go anchors `$` at the end of the text.
-/

import Gentian.Base.GoStrings

namespace Gentian.Api

/-- `[a-z]`. -/
def isLower (c : Char) : Bool := 'a' ≤ c && c ≤ 'z'

/-- `[A-Z]`. -/
def isUpper (c : Char) : Bool := 'A' ≤ c && c ≤ 'Z'

/-- `[0-9]`. -/
def isDigit (c : Char) : Bool := '0' ≤ c && c ≤ '9'

/-- `[A-Za-z0-9]`. -/
def isAlnum (c : Char) : Bool := isUpper c || isLower c || isDigit c

/-- `[a-z0-9]`. -/
def isLabelEnd (c : Char) : Bool := isLower c || isDigit c

/-- `[-a-z0-9]`. -/
def isLabelChar (c : Char) : Bool := c = '-' || isLabelEnd c

/-- `[A-Za-z0-9_-]`. -/
def isRealmChar (c : Char) : Bool := isAlnum c || c = '_' || c = '-'

/-- A character as `strings.EqualFold` takes it, when it is compared with ASCII
text: the two characters outside of ASCII that fold into it are known. -/
def foldChar (c : Char) : Char :=
  if c.toNat = 0x17F then 's' else if c.toNat = 0x212A then 'k' else c.toLower

/-- `NormalizeTenancyMode(mode) == TenancyModeSingle`. -/
def isSingle (mode : String) : Bool := (GoStrings.trimSpace mode).toList.map foldChar = "single".toList

/-- `^[a-z0-9]([-a-z0-9]{0,n}[a-z0-9])?$`. -/
def labelOf (n : ℕ) (name : String) : Bool :=
  match name.toList with
  | [] => false
  | c :: cs => isLabelEnd c &&
      match cs.getLast? with
      | none => true
      | some l => isLabelEnd l && cs.dropLast.all isLabelChar && cs.dropLast.length ≤ n

/-- `ValidTenantName`: a DNS label of at most `MaxTenantNameLength` = 38
characters. -/
def validTenantName (name : String) : Bool := labelOf 36 name

/-- A DNS label of at most 63 characters. -/
def dnsLabel (name : String) : Bool := labelOf 61 name

/-- `realmName.MatchString` and `holderRealm.MatchString`. -/
def realmName (name : String) : Bool :=
  match name.toList with
  | [] => false
  | c :: cs => isAlnum c && cs.all isRealmChar && cs.length ≤ 62

/-- Every character of a realm name is one of the pattern's. -/
theorem isRealmChar_of_realmName {name : String} (h : realmName name) :
    ∀ c ∈ name.toList, isRealmChar c := by
  unfold realmName at h
  split at h
  · cases h
  next c _ hl =>
    simp only [Bool.and_eq_true, List.all_eq_true] at h
    intro d hd
    rw [hl] at hd
    rcases List.mem_cons.1 hd with rfl | hd
    · simp [isRealmChar, h.1.1]
    · exact h.1.2 d hd

/-- A character a label may begin or end with is one it may hold. -/
theorem isLabelChar_of_isLabelEnd {c : Char} (h : isLabelEnd c) : isLabelChar c := by
  simp [isLabelChar, h]

/-- No character of a label is white space. -/
theorem isSpace_of_isLabelChar {c : Char} (h : isLabelChar c) : GoStrings.isSpace c = false := by
  have hcode : c.toNat = 45 ∨ (97 ≤ c.toNat ∧ c.toNat ≤ 122) ∨ (48 ≤ c.toNat ∧ c.toNat ≤ 57) := by
    simp only [isLabelChar, isLabelEnd, isLower, isDigit, Bool.or_eq_true,
      Bool.and_eq_true, decide_eq_true_eq] at h
    rcases h with rfl | ⟨hlow, hhigh⟩ | ⟨hlow, hhigh⟩
    · exact .inl rfl
    · exact .inr (.inl ⟨hlow, hhigh⟩)
    · exact .inr (.inr ⟨hlow, hhigh⟩)
  simp only [GoStrings.isSpace, List.mem_cons, List.not_mem_nil, or_false, Bool.or_eq_false_iff,
    decide_eq_false_iff_not, Bool.and_eq_false_iff]
  omega

/-- **What the pattern of a label says**: its characters, its two ends and its length. -/
theorem labelOf_iff {n : ℕ} {name : String} : labelOf n name ↔
    (∀ c ∈ name.toList, isLabelChar c) ∧ (∃ c ∈ name.toList.head?, isLabelEnd c) ∧
      (∃ c ∈ name.toList.getLast?, isLabelEnd c) ∧ name.toList.length ≤ n + 2 := by
  unfold labelOf
  cases name.toList with
  | nil => simp
  | cons c cs =>
    rcases List.eq_nil_or_concat cs with rfl | ⟨init, l, rfl⟩
    · simpa using isLabelChar_of_isLabelEnd
    · simp only [List.concat_eq_append, List.getLast?_append,
        Option.some_or, List.dropLast_concat, Bool.and_eq_true, List.all_eq_true,
        decide_eq_true_eq, List.head?_cons, Option.mem_def, Option.some.injEq, exists_eq_left',
        List.mem_cons, List.mem_append, List.not_mem_nil, or_false, List.getLast?_cons,
        Option.getD_some, List.length_cons, List.length_append, List.length_nil]
      constructor
      · rintro ⟨hc, ⟨hl, hinit⟩, hlen⟩
        refine ⟨?_, hc, hl, by omega⟩
        rintro d (rfl | hd | rfl)
        exacts [isLabelChar_of_isLabelEnd hc, hinit d hd, isLabelChar_of_isLabelEnd hl]
      · rintro ⟨hall, hc, hl, hlen⟩
        exact ⟨hc, ⟨hl, fun d hd => hall d (.inr (.inl hd))⟩, by omega⟩

/-- Every character of a tenant's name is one of the pattern's. -/
theorem isLabelChar_of_validTenantName {name : String} (h : validTenantName name) :
    ∀ c ∈ name.toList, isLabelChar c := (labelOf_iff.1 h).1

/-- Every character of a label is one of the pattern's. -/
theorem isLabelChar_of_dnsLabel {name : String} (h : dnsLabel name) :
    ∀ c ∈ name.toList, isLabelChar c := (labelOf_iff.1 h).1

/-- **A realm name holds no separator.** -/
theorem not_mem_of_realmName {c : Char} {name : String} (h : realmName name)
    (hc : isRealmChar c = false) : c ∉ name.toList := fun hm => by
  simp [isRealmChar_of_realmName h c hm] at hc

/-- **A tenant name holds no separator.** -/
theorem not_mem_of_validTenantName {c : Char} {name : String} (h : validTenantName name)
    (hc : isLabelChar c = false) :
    c ∉ name.toList := fun hm => by
  simp [isLabelChar_of_validTenantName h c hm] at hc

/-- **A label holds no separator.** -/
theorem not_mem_of_dnsLabel {c : Char} {name : String} (h : dnsLabel name)
    (hc : isLabelChar c = false) :
    c ∉ name.toList := fun hm => by
  simp [isLabelChar_of_dnsLabel h c hm] at hc

/-! ### Labels after a prefix -/

/-- What a label may begin with when more of it follows: nothing, or characters of a label, the
first of which is no hyphen, and fewer than a label may have. -/
def labelStart (n : ℕ) (w : String) : Bool :=
  w.toList.all isLabelChar && w.toList.head?.all isLabelEnd && w.toList.length ≤ n + 1

/-- **A text begins some label that ends in another label exactly when it is a `labelStart`.** -/
theorem labelStart_iff {n : ℕ} {w : String} :
    labelStart n w ↔ ∃ y, labelOf n y ∧ labelOf n (w ++ y) := by
  simp only [labelStart, labelOf_iff, String.toList_append, Bool.and_eq_true,
    List.all_eq_true, decide_eq_true_eq]
  constructor
  · rintro ⟨⟨hall, hhead⟩, hlen⟩
    have ha : "a".toList = ['a'] := rfl
    have hend : isLabelEnd 'a' := by decide
    refine ⟨"a", by simp [hend, isLabelChar_of_isLabelEnd], fun c hc => ?_, ?_, ?_, ?_⟩
    · rcases List.mem_append.1 hc with hc | hc
      · exact hall c hc
      · rw [List.mem_singleton.1 hc]
        exact isLabelChar_of_isLabelEnd hend
    · cases hw : w.toList with
      | nil => exact ⟨'a', rfl, hend⟩
      | cons c cs => exact ⟨c, rfl, by simpa [hw] using hhead⟩
    · exact ⟨'a', by simp, hend⟩
    · rw [List.length_append, ha, List.length_singleton]
      omega
  · rintro ⟨y, ⟨-, ⟨d, hd, -⟩, -, -⟩, hall, ⟨c, hc, hend⟩, -, hlen⟩
    refine ⟨⟨fun c hc => hall c (List.mem_append_left _ hc), ?_⟩, ?_⟩
    · cases hw : w.toList with
      | nil => rfl
      | cons c' cs =>
        rw [hw, List.cons_append, List.head?_cons, Option.mem_some] at hc
        simpa [hc] using hend
    · have hy : 0 < y.toList.length := by
        cases hy : y.toList with
        | nil => rw [hy] at hd; cases hd
        | cons c cs => simp
      rw [List.length_append] at hlen
      omega

open GoStrings in
/-- One text goes on from another as a label may begin. -/
def continues (n : ℕ) (p q : String) : Bool :=
  hasPrefix q p && labelStart n (trimPrefix q p)

/-- One of two prefixes goes on from the other as a label may begin. -/
def mayMeet (n : ℕ) (p q : String) : Bool := continues n p q || continues n q p

/-- **A label after one prefix is a label after another exactly when the prefixes may meet.** -/
theorem mayMeet_iff {n : ℕ} {p q : String} :
    mayMeet n p q ↔ ∃ x y, labelOf n x ∧ labelOf n y ∧ p ++ x = q ++ y := by
  rw [mayMeet, Bool.or_eq_true]
  have hgo : ∀ p q, continues n p q ↔ ∃ w, q = p ++ w ∧ labelStart n w := by
    intro p q
    rw [continues, Bool.and_eq_true, GoStrings.hasPrefix_iff]
    constructor
    · rintro ⟨⟨w, rfl⟩, hw⟩
      exact ⟨w, rfl, by simpa using hw⟩
    · rintro ⟨w, rfl, hw⟩
      exact ⟨⟨w, rfl⟩, by simpa using hw⟩
  have hlonger : ∀ {p q x y : String}, labelOf n x → labelOf n y → p ++ x = q ++ y →
      GoStrings.hasPrefix q p → continues n p q := by
    intro p q x y hx hy heq hprefix
    obtain ⟨w, rfl⟩ := GoStrings.hasPrefix_iff.1 hprefix
    rw [String.append_assoc, String.append_right_inj] at heq
    exact (hgo _ _).2 ⟨w, rfl, labelStart_iff.2 ⟨y, hy, heq ▸ hx⟩⟩
  constructor
  · rintro (h | h) <;> obtain ⟨w, rfl, hw⟩ := (hgo _ _).1 h <;>
      obtain ⟨y, hy, hwy⟩ := labelStart_iff.1 hw
    · exact ⟨w ++ y, y, hwy, hy, (String.append_assoc ..).symm⟩
    · exact ⟨y, w ++ y, hy, hwy, String.append_assoc ..⟩
  · rintro ⟨x, y, hx, hy, heq⟩
    rcases GoStrings.hasPrefix_of_append_eq heq with hprefix | hprefix
    · exact .inl (hlonger hx hy heq hprefix)
    · exact .inr (hlonger hy hx heq.symm hprefix)

end Gentian.Api
