/-
# Settling what is wanted with what there is

A reconciler goes over what it finds, strikes from its list what is already there, and marks
the rest for removal; what is still on the list in the end is to be made.  Both sides are
compared by a key.
-/

import Mathlib

namespace Reconcile

open List

variable {α β κ : Type*} [DecidableEq κ] (wantKey : α → κ) (haveKey : β → κ)

/-- One round of the loop: an item that is wanted is struck from the list, any
other is marked for removal. -/
def settleOne (acc : List α × List β) (t : β) : List α × List β :=
  if acc.1.any (fun w => decide (wantKey w = haveKey t)) then
    (acc.1.filter fun w => decide (wantKey w ≠ haveKey t), acc.2)
  else (acc.1, acc.2 ++ [t])

/-- What is wanted and not found, and what is found and not wanted. -/
def settle (want : List α) (found : List β) : List α × List β :=
  found.foldl (settleOne wantKey haveKey) (want, [])

variable {wantKey haveKey} {want : List α} {found : List β}

variable {acc : List α × List β} {w : α} {t : β}

/-- One that was found is wanted no more. -/
theorem mem_settleOne_fst :
    w ∈ (settleOne wantKey haveKey acc t).1 ↔ w ∈ acc.1 ∧ wantKey w ≠ haveKey t := by
  unfold settleOne
  split_ifs with h
  · simp
  · simp only [any_eq_true, decide_eq_true_eq, not_exists, not_and] at h
    exact ⟨fun hw => ⟨hw, h w hw⟩, fun hw => hw.1⟩

theorem mem_settleOne_snd {u : β} : t ∈ (settleOne wantKey haveKey acc u).2 ↔
      t ∈ acc.2 ∨ t = u ∧ ∀ w ∈ acc.1, wantKey w ≠ haveKey u := by
  unfold settleOne
  split_ifs with h
  · simp only [any_eq_true, decide_eq_true_eq] at h
    obtain ⟨w, hw, hwu⟩ := h
    exact ⟨.inl, fun h => h.resolve_right fun hu => hu.2 w hw hwu⟩
  · simp only [any_eq_true, decide_eq_true_eq, not_exists, not_and] at h
    rw [mem_append, mem_singleton]
    exact or_congr_right (and_iff_left h).symm

/-- **What is left to make** is what is wanted and not found. -/
theorem mem_settle_fst :
    w ∈ (settle wantKey haveKey want found).1 ↔ w ∈ want ∧ ∀ t ∈ found, wantKey w ≠ haveKey t := by
  have hfold : ∀ acc, w ∈ (found.foldl (settleOne wantKey haveKey) acc).1 ↔
        w ∈ acc.1 ∧ ∀ t ∈ found, wantKey w ≠ haveKey t := by
    induction found with
    | nil => simp
    | cons t _ ih =>
      intro acc
      rw [foldl_cons, ih, mem_settleOne_fst, forall_mem_cons, and_assoc]
  exact hfold (want, [])

/-- **What is removed** is what is found and not wanted, when no two items found
have the key of one thing wanted. -/
theorem mem_settle_snd_of (hnodup : found.Nodup)
    (hkey : ∀ w ∈ want, ∀ t ∈ found, ∀ u ∈ found, wantKey w = haveKey t → wantKey w = haveKey u →
      t = u) :
    t ∈ (settle wantKey haveKey want found).2 ↔ t ∈ found ∧ ∀ w ∈ want, wantKey w ≠ haveKey t := by
  have hfold : ∀ acc, (∀ w ∈ acc.1, w ∈ want) →
      (t ∈ (found.foldl (settleOne wantKey haveKey) acc).2 ↔
        t ∈ acc.2 ∨ t ∈ found ∧ ∀ w ∈ acc.1, wantKey w ≠ haveKey t) := by
    induction found with
    | nil => simp
    | cons u us ih =>
      intro acc hacc
      rw [nodup_cons] at hnodup
      have hrest : ∀ w ∈ (settleOne wantKey haveKey acc u).1, w ∈ want := fun w hw =>
        hacc w (mem_settleOne_fst.1 hw).1
      rw [foldl_cons, ih hnodup.2 (fun w hw t ht v hv => hkey w hw t
        (mem_cons_of_mem _ ht) v (mem_cons_of_mem _ hv)) _ hrest]
      simp only [mem_settleOne_fst]
      -- striking what has the key of `u` does not matter to a later item
      have hkeep : t ∈ us → ((∀ w, w ∈ acc.1 ∧ wantKey w ≠ haveKey u → wantKey w ≠ haveKey t) ↔
          ∀ w ∈ acc.1, wantKey w ≠ haveKey t) := by
        intro ht
        refine ⟨fun h w hw he => h w ⟨hw, fun hu => hnodup.1 ?_⟩ he, fun h w hw => h w hw.1⟩
        have heq := hkey w (hacc w hw) u mem_cons_self t (mem_cons_of_mem _ ht) hu he
        exact heq ▸ ht
      rw [mem_settleOne_snd, mem_cons]
      constructor
      · rintro ((h | ⟨rfl, h⟩) | ⟨ht, h⟩)
        · exact .inl h
        · exact .inr ⟨.inl rfl, h⟩
        · exact .inr ⟨.inr ht, (hkeep ht).1 h⟩
      · rintro (h | ⟨rfl | ht, h⟩)
        · exact .inl (.inl h)
        · exact .inl (.inr ⟨rfl, h⟩)
        · exact .inr ⟨ht, (hkeep ht).2 h⟩
  rw [settle, hfold (want, []) fun w hw => hw]
  exact or_iff_right not_mem_nil

/-- What is left is among what was wanted. -/
theorem settle_fst_sublist : (settle wantKey haveKey want found).1.Sublist want := by
  have hfold : ∀ acc, (found.foldl (settleOne wantKey haveKey) acc).1.Sublist acc.1 := by
    induction found with
    | nil => exact fun acc => List.Sublist.refl _
    | cons t _ ih =>
      intro acc
      refine (ih _).trans ?_
      unfold settleOne
      split_ifs
      · exact filter_sublist
      · exact List.Sublist.refl _
  exact hfold (want, [])

/-- What is too much is among what was found. -/
theorem settle_snd_sublist : (settle wantKey haveKey want found).2.Sublist found := by
  have hfold : ∀ acc, (found.foldl (settleOne wantKey haveKey) acc).2.Sublist (acc.2 ++ found) := by
    induction found with
    | nil => exact fun acc => by simp
    | cons t ts ih =>
      intro acc
      refine (ih _).trans ?_
      unfold settleOne
      split_ifs
      · exact (sublist_cons_self t ts).append_left _
      · simp
  exact hfold (want, [])

end Reconcile
