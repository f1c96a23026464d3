/-
# Passes of a control loop that can be cut off

A control loop works in passes, one after another.  A pass is a program of calls
(`Threads.Act`): each call is carried out in one step on the state, under a fate that says how
it ends.  A crash can come between any two calls; the next pass begins with nothing but the
state.  What only others write (`around`) can change at any time.

`Along` is what a pass has to satisfy: every call that is considered keeps what always holds,
and the pass ends in its postcondition.  `Loop.kept` says that a loop whose pass restores what
holds between passes keeps it, as long as a crash comes only where it holds.
-/

import Gentian.Base.Threads

namespace Passes

open Threads (Prog Act)

variable {σ δ ι : Type} {ρ : ι → Type} {α β γ ε φ χ : Type}

/-- A control loop: the program of a pass, what a call does under a fate, what the end of
a pass leaves, and the moves of the others. -/
structure Loop (σ δ ι : Type) (ρ : ι → Type) (α φ χ : Type) where
  pass : Prog ι ρ α
  exec : (i : ι) → φ → σ → δ → Option (ρ i × σ)
  finish : α → σ → σ
  env : χ → δ → Option δ

/-- The state, and what is left of the pass that is under way. -/
structure State (σ δ ι : Type) (ρ : ι → Type) (α : Type) where
  shared : σ
  around : δ
  rest : Option (Prog ι ρ α)

/-- A move: a pass begins, makes its next call, ends, or is cut off; or the others
move. -/
inductive Move (φ χ : Type) where
  | begin
  | run (f : φ)
  | finish
  | crash
  | env (e : χ)

variable (M : Loop σ δ ι ρ α φ χ)

/-- One move: a pass begins, or its next operation has its fate. -/
def Loop.step (p : State σ δ ι ρ α) : Move φ χ → Option (State σ δ ι ρ α)
  | .begin =>
    match p.rest with
    | none => some { p with rest := some M.pass }
    | some _ => none
  | .run f =>
    match p.rest with
    | some (.op i k) => (M.exec i f p.shared p.around).map fun r =>
      { p with shared := r.2, rest := some (k r.1) }
    | _ => none
  | .finish =>
    match p.rest with
    | some (.ret a) => some { p with shared := M.finish a p.shared, rest := none }
    | _ => none
  | .crash =>
    match p.rest with
    | some _ => some { p with rest := none }
    | none => none
  | .env e => (M.env e p.around).map fun d => { p with around := d }

/-- What holds at any time, what holds between passes, and the calls that are
considered. -/
structure Terms (σ ι φ : Type) where
  always : σ → Prop
  between : σ → Prop
  cond : ι → φ → σ → Prop

variable (S : Terms σ ι φ)

/-- A call under a fate that is considered, and a crash where what holds between passes
holds. -/
def Terms.Allows (S : Terms σ ι φ) (p : State σ δ ι ρ α) : Move φ χ → Prop
  | .run f =>
    match p.rest with
    | some (.op i _) => S.cond i f p.shared
    | _ => True
  | .crash => S.between p.shared
  | .begin | .finish | .env _ => True

instance Terms.Allows.decidable (S : Terms σ ι φ) [∀ s, Decidable (S.between s)]
    [∀ i f s, Decidable (S.cond i f s)] (p : State σ δ ι ρ α) :
    ∀ m : Move φ χ, Decidable (S.Allows p m)
  | .run f =>
    match h : p.rest with
    | some (.op i _) => decidable_of_iff (S.cond i f p.shared) (by simp [Terms.Allows, h])
    | some (.ret _) => isTrue (by simp [Terms.Allows, h])
    | none => isTrue (by simp [Terms.Allows, h])
  | .crash => inferInstanceAs (Decidable (S.between p.shared))
  | .begin | .finish | .env _ => inferInstanceAs (Decidable True)

/-- The program can go on from the state, and it ends in `Q`. -/
def Along (Q : β → σ → Prop) : Prog ι ρ β → σ → Prop
  | .ret a, s => Q a s
  | .op i k, s => ∀ d f r s', S.cond i f s → M.exec i f s d = some (r, s') →
      S.always s' ∧ Along Q (k r) s'

variable {M S}

/-- What holds along a program may be weakened. -/
theorem Along.mono {Q Q' : β → σ → Prop} (hQ : ∀ a s, Q a s → Q' a s) :
    ∀ {x} {s : σ}, Along M S Q x s → Along M S Q' x s
  | .ret a, s, h => hQ a s h
  | .op _ _, _, h => fun d f r s' hc he =>
    let ⟨ha, hrest⟩ := h d f r s' hc he
    ⟨ha, Along.mono hQ hrest⟩

/-- **Sequencing.** -/
theorem Along.bind {Q : β → σ → Prop} {f : γ → Prog ι ρ β} :
    ∀ {x} {s : σ}, Along M S (fun a s => Along M S Q (f a) s) x s → Along M S Q (x.bind f) s
  | .ret _, _, h => h
  | .op _ _, _, h => fun d g r s' hc he =>
    let ⟨ha, hrest⟩ := h d g r s' hc he
    ⟨ha, Along.bind hrest⟩

theorem Along.always {Q : β → σ → Prop} : ∀ {x} {s : σ}, S.always s → Along M S Q x s →
      Along M S (fun a s => S.always s ∧ Q a s) x s
  | .ret _, _, ha, h => ⟨ha, h⟩
  | .op _ _, _, _, h => fun d f r s' hc he =>
    let ⟨ha, hrest⟩ := h d f r s' hc he
    ⟨ha, Along.always ha hrest⟩

/-- `Along` for a program with errors: it ends in `Q` or, with an error, in `E`. -/
def AlongE (M : Loop σ δ ι ρ α φ χ) (S : Terms σ ι φ) (Q : β → σ → Prop) (E : σ → Prop)
    (x : Act ι ρ ε β) (s : σ) : Prop :=
  Along M S (fun r s => match r with | .ok a => Q a s | .error _ => E s) x.run s

section rules

variable {Q Q' : β → σ → Prop} {E E' : σ → Prop} {s : σ}

variable {x : Act ι ρ ε β} {f : γ → Act ι ρ ε β}

theorem AlongE.mono (h : AlongE M S Q E x s) (hQ : ∀ a s, Q a s → Q' a s)
    (hE : ∀ s, E s → E' s) : AlongE M S Q' E' x s :=
  Along.mono (fun r s => match r with
    | .ok a => hQ a s
    | .error _ => hE s) h

theorem AlongE.pure {a : β} (h : Q a s) : AlongE M S Q E (Pure.pure a : Act ι ρ ε β) s := h

theorem AlongE.throw {e : ε} (h : E s) : AlongE M S Q E (throw e : Act ι ρ ε β) s := h

/-- **Sequencing of programs with errors.**  An error ends the whole. -/
theorem AlongE.bind {x : Act ι ρ ε γ}
    (h : AlongE M S (fun a s => AlongE M S Q E (f a) s) E x s) : AlongE M S Q E (x >>= f) s := by
  refine Along.bind (Along.mono ?_ h)
  rintro (e | a) s h
  · exact h
  · exact h

/-- The rule of sequence. -/
theorem AlongE.seq {R : γ → σ → Prop} {x : Act ι ρ ε γ} (ha : S.always s) (h : AlongE M S R E x s)
    (hf : ∀ a s, S.always s → R a s → AlongE M S Q E (f a) s) : AlongE M S Q E (x >>= f) s := by
  refine .bind (Along.mono ?_ (Along.always ha h))
  rintro (e | a) s ⟨ha, h⟩
  · exact h
  · exact hf a s ha h

/-- The rule of an operation. -/
theorem AlongE.call {i : ι} {Q : ρ i → σ → Prop}
    (h : ∀ d f r s', S.cond i f s → M.exec i f s d = some (r, s') → S.always s' ∧ Q r s') :
    AlongE M S Q E (Act.call i : Act ι ρ ε (ρ i)) s := h

/-- The rule of an attempt. -/
theorem AlongE.attempt {Q : Except ε β → σ → Prop}
    (h : AlongE M S (fun a => Q (.ok a)) (fun s => ∀ e, Q (.error e) s) x s) :
    AlongE M S Q E x.attempt s := by
  refine Along.bind (Along.mono ?_ h)
  rintro (e | a) s h
  · exact h e
  · exact h

end rules

/-! ### Runs -/

/-- What always holds, and what is left of a pass restores what holds between passes. -/
structure Holds (M : Loop σ δ ι ρ α φ χ) (S : Terms σ ι φ) (p : State σ δ ι ρ α) : Prop where
  always : S.always p.shared
  idle : p.rest = none → S.between p.shared
  busy : ∀ x, p.rest = some x →
    Along M S (fun a s => S.always (M.finish a s) ∧ S.between (M.finish a s)) x p.shared

section

variable
  (hpass : ∀ s, S.always s → S.between s →
    Along M S (fun a s => S.always (M.finish a s) ∧ S.between (M.finish a s)) M.pass s)

include hpass

/-- **One move keeps it.** -/
theorem Holds.step {p p' : State σ δ ι ρ α} {m : Move φ χ} (hp : Holds M S p) (hm : S.Allows p m)
    (h : M.step p m = some p') : Holds M S p' := by
  cases m with
  | begin =>
    rw [Loop.step] at h
    split at h
    next hidle =>
      cases h
      refine ⟨hp.always, nofun, fun x hx => ?_⟩
      cases hx
      exact hpass p.shared hp.always (hp.idle hidle)
    · cases h
  | run f =>
    rw [Loop.step] at h
    split at h
    next i k hrest =>
      obtain ⟨⟨r, s'⟩, hexec, rfl⟩ := Option.map_eq_some_iff.1 h
      have hcond : S.cond i f p.shared := by simpa [Terms.Allows, hrest] using hm
      obtain ⟨halways, halong⟩ := hp.busy _ hrest p.around f r s' hcond hexec
      refine ⟨halways, nofun, fun x hx => ?_⟩
      cases hx
      exact halong
    · cases h
  | finish =>
    rw [Loop.step] at h
    split at h
    next a hrest =>
      cases h
      obtain ⟨halways, hbetween⟩ := hp.busy _ hrest
      exact ⟨halways, fun _ => hbetween, nofun⟩
    · cases h
  | crash =>
    rw [Loop.step] at h
    split at h
    · cases h
      exact ⟨hp.always, fun _ => hm, nofun⟩
    · cases h
  | env e =>
    obtain ⟨-, -, rfl⟩ := Option.map_eq_some_iff.1 h
    exact ⟨hp.always, hp.idle, hp.busy⟩

/-- **A loop whose pass restores what holds between passes keeps it**, wherever calls fail
and whenever others move, as long as a crash comes only where it holds. -/
theorem Loop.kept
    {s : σ} {d : δ} {p : State σ δ ι ρ α} {ms : List (Move φ χ)} (halways : S.always s)
    (hbetween : S.between s) (hm : Runs.Meets M.step S.Allows ⟨s, d, none⟩ ms)
    (hr : Runs.run M.step ⟨s, d, none⟩ ms = some p) : S.always p.shared := by
  have h0 : Holds M S (⟨s, d, none⟩ : State σ δ ι ρ α) :=
    ⟨halways, fun _ => hbetween, nofun⟩
  exact (Runs.invariant (fun _ _ _ hp hm h => .step hpass hp hm h) h0 hm hr).always

end

end Passes
