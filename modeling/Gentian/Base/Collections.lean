/-
# Maps and sorted lists

A Go map as an association list without repeated keys (`AList`).  What Mathlib has no name for
is the loop that deletes while it ranges, `for k, v := range m { if … { delete(m, k) } }`:
`prune` keeps the entries whose value passes a test.

A list sorted by a rank and searched from its front: what is found has the least rank.
-/

import Mathlib

/-! ### Go maps -/

namespace GoMap

variable {K V : Type*} [DecidableEq K]

/-- `len(m)`. -/
def len (m : AList fun _ : K => V) : ℕ := m.entries.length

/-- The map without the entries whose value fails the test. -/
def prune (keep : V → Bool) (m : AList fun _ : K => V) : AList fun _ : K => V :=
  ⟨m.entries.filter fun e => keep e.2, List.NodupKeys.sublist List.filter_sublist m.nodupKeys⟩

/-- What is left of a map. -/
theorem lookup_prune (keep : V → Bool) (m : AList fun _ : K => V) (k : K) :
    (prune keep m).lookup k = (m.lookup k).filter keep := by
  ext v
  rw [Option.filter_eq_some_iff, ← Option.mem_def, ← Option.mem_def, AList.mem_lookup_iff,
    AList.mem_lookup_iff, prune, List.mem_filter]

theorem lookup_prune_eq_some {keep : V → Bool} {m : AList fun _ : K => V} {k : K} {v : V} :
    (prune keep m).lookup k = some v ↔ m.lookup k = some v ∧ keep v := by
  rw [lookup_prune, Option.filter_eq_some_iff]

/-- What a map holds after an insert. -/
theorem lookup_insert_eq (m : AList fun _ : K => V) (k k' : K) (v : V) :
    (m.insert k v).lookup k' = if k' = k then some v else m.lookup k' := by
  split_ifs with h
  · rw [h, AList.lookup_insert]
  · exact AList.lookup_insert_ne h

/-- What a map holds after a delete. -/
theorem lookup_erase_eq (m : AList fun _ : K => V) (k k' : K) :
    (m.erase k).lookup k' = if k' = k then none else m.lookup k' := by
  split_ifs with h
  · rw [h, AList.lookup_erase]
  · exact AList.lookup_erase_ne h

end GoMap

/-! ### The first of a sorted list -/

namespace Ranked

open List

variable {α β : Type} [LinearOrder β] {rank : α → β} {r : α → α → Prop} [DecidableRel r]
  {l : List α} {q : α → Bool} {x : α}

/-- A list sorted by rank. -/
theorem pairwise_rank (hr : ∀ a b, r a b ↔ rank a ≤ rank b) (l : List α) :
    (l.insertionSort r).Pairwise fun a b => rank a ≤ rank b := by
  have : Std.Total r := ⟨fun a b => by simpa only [hr] using le_total (rank a) (rank b)⟩
  have : IsTrans α r := ⟨fun a b c => by simpa only [hr] using le_trans⟩
  exact (pairwise_insertionSort r l).imp fun h => (hr _ _).1 h

/-- **What is found first has the least rank.** -/
theorem first_of_rank (hr : ∀ a b, r a b ↔ rank a ≤ rank b)
    (h : (l.insertionSort r).find? q = some x) : x ∈ l ∧ q x ∧ ∀ y ∈ l, q y → rank x ≤ rank y := by
  have hsorted := pairwise_rank hr l
  obtain ⟨hx, before, after, heq, hbefore⟩ := find?_eq_some_iff_append.1 h
  have hmem : ∀ {y}, y ∈ l ↔ y ∈ before ++ x :: after := heq ▸ (mem_insertionSort r).symm
  refine ⟨hmem.2 (by simp), hx, fun y hy hq => ?_⟩
  rw [heq] at hsorted
  rcases mem_append.1 (hmem.1 hy) with hy | hy
  · exact absurd hq (by simpa using hbefore y hy)
  · rcases mem_cons.1 hy with rfl | hy
    · exact le_rfl
    · exact (pairwise_cons.1 (pairwise_append.1 hsorted).2.1).1 y hy

end Ranked
