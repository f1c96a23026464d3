/-
# SQL patterns

The patterns of SQL's `LIKE`: `%` stands for any text, `_` for one character, and a backslash
takes its meaning from the character after it.  `escape` writes a text such that the pattern
stands for the text alone (`like_escape`).
-/

import Mathlib

namespace Like

/-- A part of a pattern of `LIKE`. -/
inductive Token where
  | lit (c : Char)
  | one
  | many
deriving DecidableEq

/-- What a character stands for when no backslash is before it. -/
def tokenOf (c : Char) : Token := if c = '%' then .many else if c = '_' then .one else .lit c

/-- A pattern, read.  A backslash that nothing follows stands for itself. -/
def tokens : List Char → List Token
  | [] => []
  | c :: p =>
    if c = '\\' then
      match p with
      | [] => [.lit '\\']
      | d :: p => .lit d :: tokens p
    else tokenOf c :: tokens p

/-- Whether a text fits the parts of a pattern. -/
def fits : List Token → List Char → Bool
  | [], text => text.isEmpty
  | .lit _ :: _, [] => false
  | .lit c :: ts, d :: text => d = c && fits ts text
  | .one :: _, [] => false
  | .one :: ts, _ :: text => fits ts text
  | .many :: ts, text => text.tails.any fun rest => fits ts rest

/-- `text LIKE pattern`, character by character. -/
def like (pattern text : String) : Bool := fits (tokens pattern.toList) text.toList

/-- A character as a pattern writes it. -/
def escapeChar (c : Char) : List Char :=
  if c = '\\' ∨ c = '_' ∨ c = '%' then ['\\', c] else [c]

/-- The pattern that a text alone fits. -/
def escape (s : String) : String := String.ofList (s.toList.flatMap escapeChar)

theorem tokens_escapeChar (c : Char) (p : List Char) :
    tokens (escapeChar c ++ p) = .lit c :: tokens p := by
  rw [escapeChar]
  split_ifs with h
  · simp [tokens]
  · push Not at h
    cases p <;> simp [tokens, tokenOf, h]

/-- An escaped text is read as itself. -/
theorem tokens_escape (cs p : List Char) :
    tokens (cs.flatMap escapeChar ++ p) = cs.map .lit ++ tokens p := by
  induction cs with
  | nil => rfl
  | cons c cs ih =>
    rw [List.flatMap_cons, List.append_assoc, tokens_escapeChar, ih]
    rfl

/-- A pattern that begins with a text fits what begins with it. -/
theorem fits_lit_append (cs text : List Char) (ts : List Token) :
    fits (cs.map .lit ++ ts) text ↔ ∃ rest, text = cs ++ rest ∧ fits ts rest := by
  induction cs generalizing text with
  | nil => simp
  | cons c cs ih =>
    cases text with
    | nil => simp [fits]
    | cons d text => simp [fits, ih, and_assoc]

variable {s text : String}

/-- **An escaped text stands for itself.** -/
theorem like_escape : like (escape s) text ↔ text = s := by
  have h := fits_lit_append s.toList text.toList []
  have ht := tokens_escape s.toList []
  rw [List.append_nil] at ht h
  rw [like, escape, String.toList_ofList, ht, tokens, List.append_nil, h]
  simp [fits, String.toList_inj]

/-- **Behind an escaped text, `%` stands for whatever follows.** -/
theorem like_escape_percent : like (escape s ++ "%") text ↔ ∃ rest, text = s ++ rest := by
  rw [like, escape, String.toList_append, String.toList_ofList, tokens_escape, fits_lit_append]
  constructor
  · rintro ⟨rest, heq, -⟩
    exact ⟨String.ofList rest, String.toList_inj.1 (by simp [heq])⟩
  · rintro ⟨rest, rfl⟩
    exact ⟨rest.toList, by simp, by simp [tokens, tokenOf, fits]⟩

end Like
