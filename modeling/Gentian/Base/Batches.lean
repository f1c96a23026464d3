/-
# A list sent in batches

A client that may send at most `n` items in one request sends a longer list as several:
`batches n l`.  After `k` requests it has sent the first `k * n` items, whatever the length
(`flatten_take_batches`).
-/

import Mathlib

namespace Batches

variable {α : Type*}

/-- The loop `for len(l) > 0 { send l[:n]; l = l[n:] }`, for at most `fuel`
rounds. -/
def batchesFrom (n : ℕ) : ℕ → List α → List (List α)
  | 0, _ => []
  | _ + 1, [] => []
  | fuel + 1, a :: l => (a :: l).take n :: batchesFrom n fuel ((a :: l).drop n)

/-- The requests a list is sent in, at most `n` items each.  Every round drops
at least one item when `0 < n`, so the length of the list is fuel enough. -/
def batches (n : ℕ) (l : List α) : List (List α) := batchesFrom n l.length l

variable {n : ℕ}

/-- Enough fuel is enough. -/
theorem batchesFrom_fuel (hn : 0 < n) :
    ∀ (fuel fuel' : ℕ) (l : List α), l.length ≤ fuel → l.length ≤ fuel' →
      batchesFrom n fuel l = batchesFrom n fuel' l
  | 0, 0, _, _, _ => rfl
  | 0, _ + 1, [], _, _ => rfl
  | 0, _ + 1, _ :: _, h, _ => absurd h (by simp)
  | _ + 1, 0, [], _, _ => rfl
  | _ + 1, 0, _ :: _, _, h => absurd h (by simp)
  | _ + 1, _ + 1, [], _, _ => rfl
  | fuel + 1, fuel' + 1, a :: l, h, h' => by
    rw [batchesFrom, batchesFrom]
    have hd : ((a :: l).drop n).length ≤ l.length := by
      rw [List.length_drop, List.length_cons]; omega
    rw [batchesFrom_fuel hn fuel fuel' _ (Nat.le_trans hd (Nat.le_of_succ_le_succ h))
      (Nat.le_trans hd (Nat.le_of_succ_le_succ h'))]

@[simp] theorem batches_nil (n : ℕ) : batches n ([] : List α) = [] := rfl

/-- The first batch, and the rest. -/
theorem batches_cons (hn : 0 < n) (a : α) (l : List α) :
    batches n (a :: l) = (a :: l).take n :: batches n ((a :: l).drop n) := by
  refine congrArg _ (batchesFrom_fuel hn _ _ _ ?_ (Nat.le_refl _))
  rw [List.length_drop, List.length_cons]; omega

/-- **After `k` requests the first `k * n` items are sent.** -/
theorem flatten_take_batches (hn : 0 < n) (k : ℕ) (l : List α) :
    ((batches n l).take k).flatten = l.take (k * n) := by
  induction k generalizing l with
  | zero => simp
  | succ k ih =>
    cases l with
    | nil => simp
    | cons a l =>
      rw [batches_cons hn, List.take_succ_cons, List.flatten_cons, ih, Nat.succ_mul,
        Nat.add_comm, List.take_add]

/-- The batches hold the list, in its order. -/
theorem flatten_batchesFrom (hn : 0 < n) :
    ∀ (fuel : ℕ) (l : List α), l.length ≤ fuel → (batchesFrom n fuel l).flatten = l
  | 0, l, h => by rw [List.length_eq_zero_iff.1 (Nat.le_zero.1 h)]; rfl
  | _ + 1, [], _ => rfl
  | fuel + 1, a :: l, h => by
    have hd : ((a :: l).drop n).length ≤ fuel := by
      rw [List.length_cons] at h
      rw [List.length_drop, List.length_cons]; omega
    rw [batchesFrom, List.flatten_cons, flatten_batchesFrom hn fuel _ hd, List.take_append_drop]

/-- **No item is lost**: the requests together are the list. -/
theorem flatten_batches (hn : 0 < n) (l : List α) : (batches n l).flatten = l :=
  flatten_batchesFrom hn _ l (Nat.le_refl _)

end Batches
