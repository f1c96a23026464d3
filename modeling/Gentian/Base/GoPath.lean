/-
# Paths

`path.Clean` of Go's standard library: an empty part and `.` are dropped, `..` takes the part
before it away, and what is left is joined again.

`inside_of_clean` is what a program that compares a path with its cleaned form relies on: a
relative path that is its own cleaned form and does not begin with `..` never leaves the
directory it is joined onto.
-/

import Gentian.Base.GoStrings

namespace GoPath

open GoStrings List

/-- One part of a path, on the stack of the parts before it. -/
def push (rooted : Bool) (stack : List String) (part : String) : List String :=
  if part = "" ∨ part = "." then stack
  else if part = ".." then
    match stack with
    | [] => if rooted then [] else [".."]
    | top :: rest => if top = ".." then ".." :: stack else rest
  else part :: stack

/-- The parts of a path with slashes between them. -/
def join : List String → String
  | [] => ""
  | [part] => part
  | part :: next :: parts => part ++ "/" ++ join (next :: parts)

/-- `path.Clean`. -/
def clean (p : String) : String :=
  let rooted := hasPrefix p "/"
  let body := join ((split p '/').foldl (push rooted) []).reverse
  if rooted then "/" ++ body else if body = "" then "." else body

/-- A path that stays inside the directory it is joined onto: that directory itself,
or parts none of which is empty, `.` or `..`. -/
def Inside (p : String) : Prop :=
  p = "." ∨ ∀ part ∈ split p '/', part ≠ "" ∧ part ≠ "." ∧ part ≠ ".."
deriving Decidable

/-- A stack as it is between two parts: plain parts over some `..`. -/
structure Tidy (stack : List String) : Prop where
  part : ∀ part ∈ stack, part ≠ "" ∧ part ≠ "." ∧ '/' ∉ part.toList
  up : ∃ plain k, stack = plain ++ replicate k ".." ∧ ∀ part ∈ plain, part ≠ ".."

theorem tidy_nil : Tidy [] := ⟨by simp, [], 0, rfl, by simp⟩

variable {rooted : Bool} {parts stack : List String}

theorem Tidy.push {part : String} (h : Tidy stack)
    (hslash : '/' ∉ part.toList) : Tidy (GoPath.push rooted stack part) := by
  obtain ⟨hpart, plain, k, rfl, hplain⟩ := h
  unfold GoPath.push
  by_cases hskip : part = "" ∨ part = "."
  · rw [if_pos hskip]
    exact ⟨hpart, plain, k, rfl, hplain⟩
  rw [if_neg hskip]
  by_cases hup : part = ".."
  · rw [if_pos hup]
    cases plain with
    | nil =>
      cases k with
      | zero =>
        cases rooted with
        | true => exact tidy_nil
        | false => exact ⟨by decide, [], 1, rfl, by simp⟩
      | succ k =>
        refine ⟨fun p hp => ?_, [], k + 2, rfl, by simp⟩
        have hp' : p ∈ replicate (k + 2) ".." := hp
        rw [eq_of_mem_replicate hp']
        decide
    | cons top plain =>
      have htop : top ≠ ".." := hplain top mem_cons_self
      simp only [cons_append, if_neg htop]
      exact ⟨fun p hp => hpart p (mem_cons_of_mem _ hp), plain, k, rfl,
        fun p hp => hplain p (mem_cons_of_mem _ hp)⟩
  · rw [if_neg hup]
    rw [not_or] at hskip
    refine ⟨fun p hp => ?_, part :: plain, k, rfl, fun p hp => ?_⟩
    · rcases mem_cons.1 hp with rfl | hp
      · exact ⟨hskip.1, hskip.2, hslash⟩
      · exact hpart p hp
    · rcases mem_cons.1 hp with rfl | hp
      · exact hup
      · exact hplain p hp

/-- Cleaning leaves a tidy path. -/
theorem Tidy.foldl (h : Tidy stack)
    (hparts : ∀ part ∈ parts, '/' ∉ part.toList) : Tidy (parts.foldl (GoPath.push rooted) stack) := by
  induction parts generalizing stack with
  | nil => exact h
  | cons part parts ih =>
    obtain ⟨hpart, hparts⟩ := forall_mem_cons.1 hparts
    exact ih (h.push hpart) hparts

/-- The parts of a joined path. -/
theorem split_join (hne : parts ≠ [])
    (hparts : ∀ part ∈ parts, '/' ∉ part.toList) : split (join parts) '/' = parts := by
  induction parts with
  | nil => exact absurd rfl hne
  | cons part parts ih =>
    obtain ⟨hpart, hrest⟩ := forall_mem_cons.1 hparts
    cases parts with
    | nil => exact split_of_not_mem hpart
    | cons next parts =>
      have hsep : join (part :: next :: parts) =
          part ++ String.ofList ['/'] ++ join (next :: parts) := rfl
      rw [hsep, GoStrings.split_join hpart, ih (by simp) hrest]

/-- **A path that is its own cleaned form stays inside**, when it is relative and does
not begin with `..`. -/
theorem inside_of_clean {p : String} (hrel : hasPrefix p "/" = false) (hclean : clean p = p)
    (hup : p ≠ "..") (hunder : hasPrefix p "../" = false) : Inside p := by
  have htidy : Tidy ((split p '/').foldl (push false) []) :=
    tidy_nil.foldl fun part h => not_mem_of_mem_split h
  unfold clean at hclean
  simp only [hrel, Bool.false_eq_true, if_false] at hclean
  split_ifs at hclean with hbody
  · exact .inl hclean.symm
  · refine .inr ?_
    obtain ⟨hpart, plain, k, hstack, hplain⟩ := htidy
    have hsplit : split p '/' = ((split p '/').foldl (push false) []).reverse := by
      conv_lhs => rw [← hclean]
      refine split_join (fun hnil => hbody (by rw [hnil]; rfl)) fun part h => ?_
      exact (hpart part (mem_reverse.1 h)).2.2
    have hplain' : ∀ part ∈ split p '/', part ≠ "" ∧ part ≠ "." := fun part h => by
      rw [hsplit, mem_reverse] at h
      exact ⟨(hpart part h).1, (hpart part h).2.1⟩
    cases k with
    | zero =>
      refine fun part h => ⟨(hplain' part h).1, (hplain' part h).2, ?_⟩
      rw [hsplit, hstack, replicate_zero, append_nil, mem_reverse] at h
      exact hplain part h
    | succ k =>
      -- the path would begin with `..`
      exfalso
      rw [hstack, reverse_append, reverse_replicate, replicate_succ, cons_append] at hclean
      cases hrest : replicate k ".." ++ plain.reverse with
      | nil => exact hup (by rw [← hclean, hrest]; rfl)
      | cons next parts =>
        rw [hrest] at hclean
        have hp : p = "../" ++ join (next :: parts) := hclean.symm
        rw [hp] at hunder
        exact absurd hunder (by simp)

end GoPath
