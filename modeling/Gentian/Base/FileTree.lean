/-
# File trees

The files of a repository at one moment: contents by path, in the order of the paths and each
path once, so that two trees with the same files are equal.  `overlay` takes some files of one
tree and the others of another, which is what staging and resetting do.
-/

import Mathlib

/-- Contents `γ` by path. -/
structure FileTree (π γ : Type) [LinearOrder π] where
  entries : List (π × γ)
  sorted : entries.Pairwise fun a b => a.1 < b.1
deriving DecidableEq

namespace FileTree

open List

variable {π γ : Type} [LinearOrder π]

/-- No files. -/
def empty : FileTree π γ := ⟨[], .nil⟩

/-- The file at a path. -/
def get (t : FileTree π γ) (p : π) : Option γ := (t.entries.find? fun e => e.1 = p).map Prod.snd

variable {es : List (π × γ)} {x : γ} {p : π}

/-- A file that is there is an entry. -/
theorem get_eq_some {t : FileTree π γ} : t.get p = some x ↔ (p, x) ∈ t.entries := by
  obtain ⟨l, hl⟩ := t
  rw [get]
  induction l with
  | nil => simp
  | cons e l ih =>
    obtain ⟨q, y⟩ := e
    rw [pairwise_cons] at hl
    by_cases hq : q = p
    · subst hq
      -- the path does not come again further on
      have hnot : (q, x) ∉ l := fun hmem => lt_irrefl q (hl.1 _ hmem)
      simp [hnot, eq_comm]
    · rw [find?_cons_of_neg (by simpa using hq), ih hl.2]
      simp [Ne.symm hq]

@[ext] theorem ext {s t : FileTree π γ} (h : ∀ p, s.get p = t.get p) : s = t := by
  have hperm : s.entries.Perm t.entries := by
    have hnodup : ∀ u : FileTree π γ, u.entries.Nodup := fun u =>
      u.sorted.imp fun hlt heq => by
        rw [heq] at hlt
        exact lt_irrefl _ hlt
    refine (perm_ext_iff_of_nodup (hnodup s) (hnodup t)).2 fun ⟨p, x⟩ => ?_
    rw [← get_eq_some, ← get_eq_some, h]
  have heq : s.entries = t.entries := by
    refine List.Perm.eq_of_pairwise (fun a b _ _ hab hba => ?_) s.sorted t.sorted hperm
    exact absurd (lt_trans hab hba) (lt_irrefl _)
  cases s
  simp_all

/-- The files whose paths pass a test. -/
def keep (f : π → Bool) (t : FileTree π γ) : FileTree π γ :=
  ⟨t.entries.filter fun e => f e.1, t.sorted.filter _⟩

/-- What is left of a tree. -/
theorem get_keep (f : π → Bool) (t : FileTree π γ) (p : π) :
    (t.keep f).get p = if f p then t.get p else none := by
  ext x
  rw [get_eq_some, keep, mem_filter, ← get_eq_some]
  split_ifs with h
  · simp [h]
  · simp [h]

/-- The tree with one file written. -/
def set (t : FileTree π γ) (p : π) (x : γ) : FileTree π γ where
  entries := (t.entries.filter fun e => e.1 < p) ++ (p, x) :: t.entries.filter fun e => p < e.1
  sorted := by
    rw [pairwise_append, pairwise_cons]
    refine ⟨t.sorted.filter _, ⟨fun e he => ?_, t.sorted.filter _⟩, fun a ha b hb => ?_⟩
    · simpa using (mem_filter.1 he).2
    · have ha' : a.1 < p := by simpa using (mem_filter.1 ha).2
      rcases mem_cons.1 hb with rfl | hb
      · exact ha'
      · exact lt_trans ha' (by simpa using (mem_filter.1 hb).2)

/-- What a tree holds after a write. -/
theorem get_set (t : FileTree π γ) (p q : π) (x : γ) :
    (t.set p x).get q = if q = p then some x else t.get q := by
  ext y
  rw [get_eq_some, set, mem_append, mem_cons, mem_filter, mem_filter]
  split_ifs with h
  · subst h
    simp [eq_comm]
  · rw [get_eq_some]
    simp only [decide_eq_true_eq, Prod.mk.injEq, h, false_and, false_or]
    exact ⟨fun h' => h'.elim And.left And.left, fun h' =>
      (lt_or_gt_of_ne h).imp (fun hlt => ⟨h', hlt⟩) fun hgt => ⟨h', hgt⟩⟩

/-- The tree with several files written, one after the other. -/
def setAll (t : FileTree π γ) : List (π × γ) → FileTree π γ
  | [] => t
  | e :: es => (t.set e.1 e.2).setAll es

theorem get_setAll_of_notMem (h : ∀ x, (p, x) ∉ es) :
    ∀ t : FileTree π γ, (t.setAll es).get p = t.get p := by
  induction es with
  | nil => exact fun _ => rfl
  | cons e es ih =>
    intro t
    rw [setAll, ih fun x hx => h x (mem_cons_of_mem _ hx), get_set, if_neg]
    rintro rfl
    exact h e.2 mem_cons_self

/-- The files of `s` whose path passes the test, and the others of `t`. -/
def overlay (f : π → Bool) (s t : FileTree π γ) : FileTree π γ :=
  (t.keep fun p => !f p).setAll (s.keep f).entries

theorem get_setAll_of_pairwise (hes : es.Pairwise fun a b => a.1 < b.1) (h : (p, x) ∈ es) : ∀ t :
    FileTree π γ, (t.setAll es).get p = some x := by
  induction es with
  | nil => cases h
  | cons e es ih =>
    intro t
    rw [pairwise_cons] at hes
    rcases mem_cons.1 h with rfl | hmem
    · rw [setAll, get_setAll_of_notMem, get_set, if_pos rfl]
      exact fun y hy => lt_irrefl p (hes.1 _ hy)
    · exact ih hes.2 hmem _

/-- Which of two trees a file is from. -/
theorem get_overlay (f : π → Bool) (s t : FileTree π γ) (p : π) :
    (overlay f s t).get p = if f p then s.get p else t.get p := by
  by_cases hmem : ∃ x, (p, x) ∈ (s.keep f).entries
  · obtain ⟨x, hx⟩ := hmem
    rw [overlay, get_setAll_of_pairwise (s.keep f).sorted hx]
    rw [← get_eq_some, get_keep] at hx
    split_ifs at hx ⊢
    · exact hx.symm
  · rw [overlay, get_setAll_of_notMem (not_exists.1 hmem), get_keep]
    have hnone : (s.keep f).get p = none :=
      Option.eq_none_iff_forall_not_mem.2 fun x hx => hmem ⟨x, get_eq_some.1 hx⟩
    rw [get_keep] at hnone
    by_cases hp : f p
    · simp only [hp, if_true] at hnone ⊢
      simp [hnone]
    · simp [hp]

/-! ### Trees with the same files at some paths -/

section same

variable {f : π → Bool} {s t : FileTree π γ}

theorem get_of_keep_eq (h : s.keep f = t.keep f) (hp : f p) : s.get p = t.get p := by
  have hget := congrArg (fun u => get u p) h
  simpa only [get_keep, hp, if_true] using hget

/-- Parts are equal when their files are. -/
theorem keep_eq_keep (h : ∀ p, f p → s.get p = t.get p) : s.keep f = t.keep f := by
  ext1 p
  rw [get_keep, get_keep]
  split_ifs with hp
  · exact h p hp
  · rfl

theorem find?_of_keep_eq {q : π × γ → Bool} (hq : ∀ e, q e → f e.1)
    (h : s.keep f = t.keep f) : s.entries.find? q = t.entries.find? q := by
  have hfilter : ∀ u : FileTree π γ, (u.keep f).entries.find? q = u.entries.find? q := by
    intro u
    rw [keep, find?_filter]
    congr 1
    funext e
    cases he : q e with
    | true => simp [hq e he]
    | false => simp
  rw [← hfilter s, h, hfilter t]

theorem filterMap_of_keep_eq {δ : Type} {g : π × γ → Option δ}
    (hg : ∀ e, f e.1 = false → g e = none) (h : s.keep f = t.keep f) :
    s.entries.filterMap g = t.entries.filterMap g := by
  have hfilter : ∀ u : FileTree π γ, (u.keep f).entries.filterMap g = u.entries.filterMap g := by
    intro u
    rw [keep, filterMap_filter]
    congr 1
    funext e
    cases he : f e.1 with
    | true => rfl
    | false => simp [hg e he]
  rw [← hfilter s, h, hfilter t]

end same

end FileTree
