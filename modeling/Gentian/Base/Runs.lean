/-
# Runs of a state machine

A machine is a partial step function `step : σ → ι → Option σ`: the label says which party
moves and what its environment answers, and `none` says that the party cannot make that move
now.  An interleaving of several parties is then a list of labels.

`Meets` says that every step of a run is taken in a state that meets a condition, and
`invariant` is the induction that every safety result about such a machine uses.
-/

import Mathlib

namespace Runs

variable {σ ι : Type*} (step : σ → ι → Option σ)

/-- The state after the labels, `none` when one of the moves cannot be made. -/
def run : σ → List ι → Option σ
  | s, [] => some s
  | s, i :: is => (step s i).bind fun s' => run s' is

/-- Every step of the run is taken in a state that meets the condition. -/
def Meets (cond : σ → ι → Prop) : σ → List ι → Prop
  | _, [] => True
  | s, i :: is => cond s i ∧
      match step s i with
      | none => True
      | some s' => Meets cond s' is

instance Meets.decidable (cond : σ → ι → Prop) [∀ s i, Decidable (cond s i)] :
    ∀ (s : σ) (is : List ι), Decidable (Meets step cond s is)
  | _, [] => isTrue trivial
  | s, i :: is =>
    match h : step s i with
    | none => decidable_of_iff (cond s i) (by simp [Meets, h])
    | some s' =>
      have := Meets.decidable cond s' is
      decidable_of_iff (cond s i ∧ Meets step cond s' is) (by simp [Meets, h])

variable {step}

@[simp] theorem run_nil (s : σ) : run step s [] = some s := rfl

variable {is : List ι} {s s' : σ} {cond : σ → ι → Prop}

variable {i : ι} {Inv : σ → Prop}

/-- A run is a step and a run. -/
theorem run_cons_eq_some :
    run step s (i :: is) = some s' ↔ ∃ t, step s i = some t ∧ run step t is = some s' :=
  Option.bind_eq_some_iff

/-- A run can be cut anywhere. -/
theorem run_append_eq_some {js : List ι} :
    run step s (is ++ js) = some s' ↔ ∃ t, run step s is = some t ∧ run step t js = some s' := by
  induction is generalizing s with
  | nil => simp
  | cons i is ih =>
    simp only [List.cons_append, run_cons_eq_some, ih]
    constructor
    · rintro ⟨u, hu, t, ht, h⟩
      exact ⟨t, ⟨u, hu, ht⟩, h⟩
    · rintro ⟨t, ⟨u, hu, ht⟩, h⟩
      exact ⟨u, hu, t, ht, h⟩

/-- A run meets a condition when each step does. -/
theorem meets_cons {t : σ} (h : step s i = some t) :
    Meets step cond s (i :: is) ↔ cond s i ∧ Meets step cond t is := by
  simp [Meets, h]

/-- **The induction over a run.**  What each step that meets the condition keeps
holds wherever a run that meets it ends. -/
theorem invariant
    (hstep : ∀ s i s', Inv s → cond s i → step s i = some s' → Inv s') {s s' : σ} (h0 : Inv s)
    (hm : Meets step cond s is) (hr : run step s is = some s') : Inv s' := by
  induction is generalizing s with
  | nil =>
    cases hr
    exact h0
  | cons i is ih =>
    obtain ⟨t, ht, hr⟩ := run_cons_eq_some.1 hr
    obtain ⟨hc, hm⟩ := (meets_cons ht).1 hm
    exact ih (hstep s i t h0 hc ht) hm hr

theorem meets_of_always (h : ∀ s i, cond s i) (s : σ) (is : List ι) : Meets step cond s is := by
  induction is generalizing s with
  | nil => trivial
  | cons i is ih =>
    refine ⟨h s i, ?_⟩
    split
    · trivial
    · exact ih _

theorem meets_of_forall {P : ι → Prop} (h : ∀ i ∈ is, P i) (s : σ) :
    Meets step (fun _ i => P i) s is := by
  induction is generalizing s with
  | nil => trivial
  | cons i is ih =>
    refine ⟨h i List.mem_cons_self, ?_⟩
    split
    · trivial
    · exact ih (fun j hj => h j (List.mem_cons_of_mem _ hj)) _

theorem Meets.and {c d : σ → ι → Prop} (hc : Meets step c s is) (hd : Meets step d s is) :
    Meets step (fun s i => c s i ∧ d s i) s is := by
  induction is generalizing s with
  | nil => trivial
  | cons i is ih =>
    refine ⟨⟨hc.1, hd.1⟩, ?_⟩
    cases hi : step s i with
    | none => trivial
    | some t => exact ih ((meets_cons hi).1 hc).2 ((meets_cons hi).1 hd).2

/-- **What each step keeps, a run keeps.** -/
theorem invariant_of_step (hstep : ∀ s i s', Inv s → step s i = some s' → Inv s') (h0 : Inv s)
    (hr : run step s is = some s') : Inv s' :=
  invariant (fun s i s' h (_ : True) => hstep s i s' h) h0
    (meets_of_always (fun _ _ => trivial) s is) hr

end Runs

/-! ### The parties of an interleaving

Their local states are a list, and a move of party `d` replaces entry `d` by `List.set`. -/

namespace Parties

variable {α : Type*} {l : List α} {d i : ℕ} {x y z : α}

section

variable (hd : l[d]? = some y)

include hd

theorem getElem?_set_of_some :
    (l.set d x)[i]? = if i = d then some x else l[i]? := by
  obtain ⟨hlt, -⟩ := List.getElem?_eq_some_iff.1 hd
  by_cases h : d = i
  · simp [h, h ▸ hlt]
  · simp [h, Ne.symm h]

theorem mem_set_self : x ∈ l.set d x :=
  List.mem_set (List.getElem?_eq_some_iff.1 hd).1 x

theorem mem_set_or_eq (hz : z ∈ l) : z ∈ l.set d x ∨ z = y := by
  obtain ⟨i, hi⟩ := List.mem_iff_getElem?.1 hz
  by_cases h : i = d
  · rw [h] at hi
    exact .inr (Option.some.inj (hi.symm.trans hd))
  · refine .inl (List.mem_iff_getElem?.2 ⟨i, ?_⟩)
    rw [getElem?_set_of_some hd, if_neg h, hi]

theorem eq_entry (hz : z ∈ l) (h : z ∉ l.set d x) : z = y :=
  (mem_set_or_eq hd hz).resolve_left h

end

variable {p : α → Prop}

/-- What holds of all and of a new entry holds after it is set. -/
theorem forall_mem_set (h : ∀ z ∈ l, p z) (hx : p x) : ∀ z ∈ l.set d x, p z := by
  intro z hz
  rcases List.mem_or_eq_of_mem_set hz with hz | rfl
  · exact h z hz
  · exact hx

theorem forall_mem_concat (h : ∀ z ∈ l, p z) (hx : p x) : ∀ z ∈ l ++ [x], p z := by
  intro z hz
  rcases List.mem_append.1 hz with hz | hz
  · exact h z hz
  · rw [List.mem_singleton.1 hz]
    exact hx

end Parties
