/-
# Programs over one shared state, interleaved

A program is a tree of operations on a shared state (`Prog`), each carried out in one step.
`Act` is a program that may return early with an error.  A pool runs any number of programs
over one state: a move begins a program, carries out the next operation of one that is
running, or is the environment's.

`Safe` is a precondition folded over a program: before each operation the others may have
moved the state along `rely`, and the operation then keeps the invariant and moves the state
along every other program's `rely`.  `Sound.run` says that a pool of safe programs keeps the
invariant and that each program that has ended met its postcondition.
-/

import Gentian.Base.Runs

namespace Threads

/-- A program over operations `ι` with answers `ρ`. -/
inductive Prog (ι : Type) (ρ : ι → Type) (α : Type) where
  | ret (a : α) : Prog ι ρ α
  | op (i : ι) (k : ρ i → Prog ι ρ α) : Prog ι ρ α

variable {ι : Type} {ρ : ι → Type} {α β ε : Type}

namespace Prog

/-- The program that goes on with `f` where the first one ends. -/
def bind : Prog ι ρ α → (α → Prog ι ρ β) → Prog ι ρ β
  | ret a, f => f a
  | op i k, f => op i fun r => (k r).bind f

instance : Monad (Prog ι ρ) where
  pure := ret
  bind := bind

/-- What a program that has ended answers. -/
def answer : Prog ι ρ α → Option α
  | ret a => some a
  | op _ _ => none

end Prog

/-- A program that may fail. -/
abbrev Act (ι : Type) (ρ : ι → Type) (ε : Type) := ExceptT ε (Prog ι ρ)

/-- One operation. -/
def Act.call (i : ι) : Act ι ρ ε (ρ i) := ExceptT.mk (Prog.op i fun r => .ret (.ok r))

/-- The outcome of a program as a value, as a deferred function reads it. -/
def Act.attempt (x : Act ι ρ ε α) : Act ι ρ ε (Except ε α) :=
  ExceptT.mk (x.run.bind fun r => .ret (.ok r))

variable {σ κ φ χ : Type}

/-- What a pool runs: the program of each call, what an operation of call `c`,
the `j`-th to begin, does to the state under the fate `f`, and the moves of the
environment. -/
structure System (σ κ ι : Type) (ρ : ι → Type) (α φ χ : Type) where
  code : κ → Prog ι ρ α
  exec : ℕ → κ → (i : ι) → φ → σ → Option (ρ i × σ)
  env : χ → σ → Option σ

/-- A call, and what it has still to do. -/
structure Thread (κ ι : Type) (ρ : ι → Type) (α : Type) where
  call : κ
  rest : Prog ι ρ α

/-- The shared state and the calls that have begun, in the order they did. -/
structure Pool (σ κ ι : Type) (ρ : ι → Type) (α : Type) where
  shared : σ
  threads : List (Thread κ ι ρ α)

/-- What happens: a call begins, one goes on, or the surroundings act. -/
inductive Move (κ φ χ : Type) where
  | begin (c : κ)
  | run (j : ℕ) (f : φ)
  | env (e : χ)

namespace Pool

/-- The calls that have begun. -/
def calls (p : Pool σ κ ι ρ α) : List κ := p.threads.map Thread.call

/-- What the `j`-th call answered. -/
def answer (p : Pool σ κ ι ρ α) (j : ℕ) : Option α :=
  p.threads[j]?.bind fun t => t.rest.answer

/-- A pool in which no call has begun. -/
def start (s : σ) : Pool σ κ ι ρ α := ⟨s, []⟩

end Pool

variable (M : System σ κ ι ρ α φ χ)

/-- The step of a pool. -/
def System.step (p : Pool σ κ ι ρ α) : Move κ φ χ → Option (Pool σ κ ι ρ α)
  | .begin c => some ⟨p.shared, p.threads ++ [⟨c, M.code c⟩]⟩
  | .run j f =>
    match p.threads[j]? with
    | none => none
    | some ⟨_, .ret _⟩ => none
    | some ⟨c, .op i k⟩ =>
      match M.exec j c i f p.shared with
      | none => none
      | some (r, s) => some ⟨s, p.threads.set j ⟨c, k r⟩⟩
  | .env e => (M.env e p.shared).map fun s => ⟨s, p.threads⟩

/-- What a step of a pool can be. -/
inductive Step (p : Pool σ κ ι ρ α) : Move κ φ χ → Pool σ κ ι ρ α → Prop where
  | begin (c : κ) : Step p (.begin c) ⟨p.shared, p.threads ++ [⟨c, M.code c⟩]⟩
  | run (j : ℕ) (f : φ) (c : κ) (i : ι) (k : ρ i → Prog ι ρ α) (r : ρ i) (s : σ)
      (hj : p.threads[j]? = some ⟨c, .op i k⟩) (hs : M.exec j c i f p.shared = some (r, s)) :
      Step p (.run j f) ⟨s, p.threads.set j ⟨c, k r⟩⟩
  | env (e : χ) (s : σ) (hs : M.env e p.shared = some s) : Step p (.env e) ⟨s, p.threads⟩

variable {M}

variable {p p' : Pool σ κ ι ρ α}

variable {m : Move κ φ χ} {i : ι}

/-- What a step is. -/
theorem step_cases (h : M.step p m = some p') : Step M p m p' := by
  cases m with
  | begin c =>
    cases h
    exact .begin c
  | run j f =>
    rw [System.step] at h
    split at h
    · cases h
    · cases h
    · split at h
      · cases h
      · cases h
        rename_i hj _ _ _ hs
        exact .run j f _ _ _ _ _ hj hs
  | env e =>
    rw [System.step, Option.map_eq_some_iff] at h
    obtain ⟨s, hs, rfl⟩ := h
    exact .env e s hs

/-! ### The conditions of one program -/

/-- What the calls of a system keep, and what each may rely on. -/
structure Spec (σ κ ι φ : Type) where
  /-- holds between any two moves, of the calls that have begun and the state -/
  inv : List κ → σ → Prop
  /-- how the others may move the state while call `c`, the `j`-th, is running -/
  rely : ℕ → κ → σ → σ → Prop
  /-- the steps of call `c` that are considered -/
  cond : ℕ → κ → ι → φ → List κ → σ → Prop

variable (S : Spec σ κ ι φ)

/-- The program can go on from the state as the `j`-th call `c`, and it ends in
`Q`. -/
def Safe (M : System σ κ ι ρ α φ χ) (S : Spec σ κ ι φ) (j : ℕ) (c : κ) (Q : β → σ → Prop) :
    Prog ι ρ β → σ → Prop
  | .ret a, s => Q a s
  | .op i k, s => ∀ calls s₁ f r s₂, S.rely j c s s₁ → S.inv calls s₁ → calls[j]? = some c →
      S.cond j c i f calls s₁ → M.exec j c i f s₁ = some (r, s₂) →
        S.inv calls s₂ ∧ (∀ j' c', j' ≠ j → S.rely j' c' s₁ s₂) ∧ Safe M S j c Q (k r) s₂

variable {S} {j : ℕ} {c : κ}

variable {Q : β → σ → Prop}

/-- What a program ends with may be weakened. -/
theorem Safe.mono {Q' : β → σ → Prop} (hQ : ∀ a s, Q a s → Q' a s) :
    ∀ {x} {s : σ}, Safe M S j c Q x s → Safe M S j c Q' x s
  | .ret a, s, h => hQ a s h
  | .op _ _, _, h => fun calls s1 f r s2 hr hi hj hc he =>
    let ⟨h1, h2, h3⟩ := h calls s1 f r s2 hr hi hj hc he
    ⟨h1, h2, Safe.mono hQ h3⟩

variable {γ : Type}

/-- **Sequencing.**  The second program starts where the first one ends. -/
theorem Safe.bind {f : γ → Prog ι ρ β} :
    ∀ {x} {s : σ}, Safe M S j c (fun a s => Safe M S j c Q (f a) s) x s →
      Safe M S j c Q (x.bind f) s
  | .ret _, _, h => h
  | .op _ _, _, h => fun calls s1 g r s2 hr hi hj hc he =>
    let ⟨h1, h2, h3⟩ := h calls s1 g r s2 hr hi hj hc he
    ⟨h1, h2, Safe.bind h3⟩

/-- `Safe` for a program with errors: it ends in `Q` or, with an error, in `E`. -/
def SafeE (M : System σ κ ι ρ α φ χ) (S : Spec σ κ ι φ) (j : ℕ) (c : κ) (Q : β → σ → Prop)
    (E : ε → σ → Prop) (x : Act ι ρ ε β) (s : σ) : Prop :=
  Safe M S j c (fun r s => match r with | .ok a => Q a s | .error e => E e s) x.run s

variable {E : ε → σ → Prop} {x : Act ι ρ ε β} {s : σ}

theorem SafeE.mono {Q' : β → σ → Prop} {E' : ε → σ → Prop}
    (hQ : ∀ a s, Q a s → Q' a s) (hE : ∀ e s, E e s → E' e s) (h : SafeE M S j c Q E x s) :
    SafeE M S j c Q' E' x s :=
  Safe.mono (fun r s => match r with
    | .ok a => hQ a s
    | .error e => hE e s) h

theorem SafeE.pure {a : β} (h : Q a s) : SafeE M S j c Q E (Pure.pure a : Act ι ρ ε β) s := h

theorem SafeE.throw {e : ε} (h : E e s) : SafeE M S j c Q E (throw e : Act ι ρ ε β) s := h

variable {a : α} {f : γ → Act ι ρ ε β}

/-- **Sequencing of programs with errors.**  An error ends the whole. -/
theorem SafeE.bind {x : Act ι ρ ε γ}
    (h : SafeE M S j c (fun a s => SafeE M S j c Q E (f a) s) E x s) :
    SafeE M S j c Q E (x >>= f) s := by
  refine Safe.bind (Safe.mono ?_ h)
  rintro (e | a) s h
  · exact h
  · exact h

/-- The rule of sequence. -/
theorem SafeE.next {R : γ → σ → Prop} {x : Act ι ρ ε γ}
    (hf : ∀ a s, R a s → SafeE M S j c Q E (f a) s) (h : SafeE M S j c R E x s) :
    SafeE M S j c Q E (x >>= f) s :=
  .bind (.mono hf (fun _ _ h => h) h)

/-- The rule of an operation. -/
theorem SafeE.call {Q : ρ i → σ → Prop}
    (h : ∀ calls s1 f r s2, S.rely j c s s1 → S.inv calls s1 → calls[j]? = some c →
      S.cond j c i f calls s1 → M.exec j c i f s1 = some (r, s2) →
        S.inv calls s2 ∧ (∀ j' c', j' ≠ j → S.rely j' c' s1 s2) ∧ Q r s2) :
    SafeE M S j c Q E (Act.call i) s := h

/-- The rule of an attempt. -/
theorem SafeE.attempt {Q : Except ε β → σ → Prop}
    (h : SafeE M S j c (fun a => Q (.ok a)) (fun e => Q (.error e)) x s) :
    SafeE M S j c Q E x.attempt s := by
  refine Safe.bind (Safe.mono ?_ h)
  rintro (e | a) s h
  · exact h
  · exact h

theorem SafeE.safe {R : Except ε β → σ → Prop}
    (hQ : ∀ a s, Q a s → R (.ok a) s) (hE : ∀ e s, E e s → R (.error e) s)
    (h : SafeE M S j c Q E x s) : Safe M S j c R x.run s :=
  .mono (fun r s => match r with
    | .ok a => hQ a s
    | .error e => hE e s) h

/-! ### Pools of safe programs -/

/-- A move whose operation the condition allows. -/
def Spec.Allows (S : Spec σ κ ι φ) (p : Pool σ κ ι ρ α) : Move κ φ χ → Prop
  | .run j f =>
    match p.threads[j]? with
    | some ⟨c, .op i _⟩ => S.cond j c i f p.calls p.shared
    | _ => True
  | _ => True

instance Spec.Allows.decidable (S : Spec σ κ ι φ)
    [∀ j c i f calls s, Decidable (S.cond j c i f calls s)] (p : Pool σ κ ι ρ α)
    (m : Move κ φ χ) : Decidable (S.Allows p m) := by
  unfold Spec.Allows
  split
  · split
    · infer_instance
    · infer_instance
  · infer_instance

theorem Spec.allows_of_cond (h : ∀ j c i f calls s, S.cond j c i f calls s)
    (p : Pool σ κ ι ρ α) (m : Move κ φ χ) : S.Allows p m := by
  unfold Spec.Allows
  split
  · split
    · exact h _ _ _ _ _ _
    · trivial
  · trivial

/-- What makes a pool safe: `rely` is a preorder that the environment follows, a
call may begin at any time, and its program is safe then. -/
structure Sound (M : System σ κ ι ρ α φ χ) (S : Spec σ κ ι φ) (post : ℕ → κ → α → σ → Prop) :
    Prop where
  refl : ∀ j c s, S.rely j c s s
  trans : ∀ j c s₁ s₂ s₃, S.rely j c s₁ s₂ → S.rely j c s₂ s₃ → S.rely j c s₁ s₃
  env : ∀ e calls s s', S.inv calls s → M.env e s = some s' →
    S.inv calls s' ∧ ∀ j c, S.rely j c s s'
  begin : ∀ calls c s, S.inv calls s →
    S.inv (calls ++ [c]) s ∧ Safe M S calls.length c (post calls.length c) (M.code c) s

/-- The invariant, and each call can go on from a state before the present one. -/
structure Holds (M : System σ κ ι ρ α φ χ) (S : Spec σ κ ι φ) (post : ℕ → κ → α → σ → Prop)
    (p : Pool σ κ ι ρ α) : Prop where
  inv : S.inv p.calls p.shared
  safe : ∀ j t, p.threads[j]? = some t →
    ∃ s, S.rely j t.call s p.shared ∧ Safe M S j t.call (post j t.call) t.rest s

variable {post : ℕ → κ → α → σ → Prop}

/-- It holds before any call. -/
theorem holds_start (h : S.inv [] s) : Holds M S post (Pool.start s) :=
  ⟨h, fun j t hj => by simp [Pool.start] at hj⟩

theorem calls_set {t : Thread κ ι ρ α} {x : Prog ι ρ α} (hj : p.threads[j]? = some t) :
    (p.threads.set j ⟨t.call, x⟩).map Thread.call = p.calls := by
  refine List.ext_getElem? fun i => ?_
  rw [List.getElem?_map, List.getElem?_set]
  split_ifs with hi hlt
  · subst hi
    simp [Pool.calls, hj]
  · rw [List.getElem?_eq_none (Nat.le_of_not_lt hlt)] at hj
    cases hj
  · simp [Pool.calls]

/-- **One move keeps it.** -/
theorem Sound.holds_step (hS : Sound M S post)
    (hp : Holds M S post p) (hm : S.Allows p m) (h : M.step p m = some p') : Holds M S post p' := by
  cases step_cases h with
  | begin c =>
    obtain ⟨hinv, hsafe⟩ := hS.begin p.calls c p.shared hp.inv
    refine ⟨by simpa [Pool.calls] using hinv, fun j t hj => ?_⟩
    rcases Nat.lt_trichotomy j p.threads.length with hlt | heq | hgt
    · rw [List.getElem?_append_left hlt] at hj
      exact hp.safe j t hj
    · subst heq
      rw [List.getElem?_concat_length] at hj
      cases hj
      exact ⟨p.shared, hS.refl _ _ _, by simpa [Pool.calls] using hsafe⟩
    · rw [List.getElem?_eq_none (by simp; omega)] at hj
      cases hj
  | env e s hs =>
    obtain ⟨hinv, hrely⟩ := hS.env e p.calls p.shared s hp.inv hs
    refine ⟨hinv, fun j t hj => ?_⟩
    obtain ⟨s0, h0, hsafe⟩ := hp.safe j t hj
    exact ⟨s0, hS.trans _ _ _ _ _ h0 (hrely _ _), hsafe⟩
  | run j f c i k r s hj hs =>
    have hc : S.cond j c i f p.calls p.shared := by
      simpa [Spec.Allows, hj] using hm
    obtain ⟨s0, h0, hsafe⟩ := hp.safe j _ hj
    have hcall : p.calls[j]? = some c := by simp [Pool.calls, hj]
    obtain ⟨hinv, hrely, hrest⟩ := hsafe p.calls p.shared f r s h0 hp.inv hcall hc hs
    refine ⟨by simpa only [Pool.calls, calls_set hj] using hinv, fun j' t hj' => ?_⟩
    rw [List.getElem?_set] at hj'
    split_ifs at hj' with heq hlt
    · subst heq
      cases hj'
      exact ⟨s, hS.refl _ _ _, hrest⟩
    · obtain ⟨s1, h1, hsafe1⟩ := hp.safe j' t hj'
      exact ⟨s1, hS.trans _ _ _ _ _ h1 (hrely _ _ fun h => heq h.symm), hsafe1⟩

/-- **A pool of safe programs.**  Every run keeps the invariant, and every call
can go on. -/
theorem Sound.run (hS : Sound M S post) {ms : List (Move κ φ χ)}
    (hp : Holds M S post p) (hm : Runs.Meets M.step S.Allows p ms)
    (hr : Runs.run M.step p ms = some p') : Holds M S post p' :=
  Runs.invariant (fun _ _ _ hp hm h => hS.holds_step hp hm h) hp hm hr

theorem Pool.call_of_answer (p : Pool σ κ ι ρ α) (ha : p.answer j = some a) :
    ∃ c, p.calls[j]? = some c := by
  rw [Pool.answer, Option.bind_eq_some_iff] at ha
  obtain ⟨t, ht, -⟩ := ha
  exact ⟨t.call, by rw [Pool.calls, List.getElem?_map, ht]; rfl⟩

/-- What holds of a call that has answered. -/
theorem Holds.ended (hp : Holds M S post p)
    (hc : p.calls[j]? = some c) (ha : p.answer j = some a) :
    ∃ s, S.rely j c s p.shared ∧ post j c a s := by
  rw [Pool.answer, Option.bind_eq_some_iff] at ha
  obtain ⟨⟨c', x⟩, ht, ha⟩ := ha
  have hcc : c' = c := by
    simpa [Pool.calls, ht] using hc
  subst hcc
  obtain ⟨s, hs, hsafe⟩ := hp.safe j _ ht
  cases x with
  | ret b =>
    cases ha
    exact ⟨s, hs, hsafe⟩
  | op i k => cases ha

/-- A call met its postcondition in the state that its last operation left. -/
theorem Holds.ended_step (hp : Holds M S post p) {f : φ}
    (hm : S.Allows p (.run j f : Move κ φ χ)) (h : M.step p (.run j f) = some p')
    (hc : p.calls[j]? = some c) (ha : p'.answer j = some a) : post j c a p'.shared := by
  cases step_cases h with
  | run j f c' i k r s hj hs =>
    have hcond : S.cond j c' i f p.calls p.shared := by simpa [Spec.Allows, hj] using hm
    have hcall : p.calls[j]? = some c' := by simp [Pool.calls, hj]
    cases hcall.symm.trans hc
    obtain ⟨s0, h0, hsafe⟩ := hp.safe j _ hj
    obtain ⟨-, -, hrest⟩ := hsafe p.calls p.shared f r s h0 hp.inv hcall hcond hs
    have hlt : j < p.threads.length := (List.getElem?_eq_some_iff.1 hj).1
    rw [Pool.answer, List.getElem?_set_self hlt] at ha
    cases hk : k r with
    | ret b =>
      rw [hk] at ha hrest
      cases ha
      exact hrest
    | op _ _ => simp [hk, Prog.answer] at ha

/-! ### A call by itself -/

variable (M)

/-- A program carried out to its end with nobody else there, with a fate for each of its
operations. -/
def System.play (c : κ) : Prog ι ρ β → List φ → σ → Option (β × σ)
  | .ret a, [], s => some (a, s)
  | .op i k, f :: fs, s =>
    match M.exec 0 c i f s with
    | none => none
    | some (r, s') => System.play c (k r) fs s'
  | _, _, _ => none

/-- Nobody else moves, and the fates are the ones considered. -/
def alone (ok : φ → Prop) : Spec σ κ ι φ where
  inv _ _ := True
  rely j _ s s' := j = 0 → s = s'
  cond _ _ _ f _ _ := ok f

variable {M} {ok : φ → Prop}

/-- A call that runs alone ends as it should. -/
theorem Safe.play : ∀ {x} {fs : List φ} {s s' : σ} {a : β}, Safe M (alone ok) 0 c Q x s →
      (∀ f ∈ fs, ok f) → M.play c x fs s = some (a, s') → Q a s'
  | .ret a, [], s, s', b, h, _, hp => by
    cases hp
    exact h
  | .op i k, f :: fs, s, s', a, h, hok, hp => by
    rw [System.play] at hp
    split at hp
    · cases hp
    next r s1 he =>
      obtain ⟨-, -, hk⟩ := h [c] s f r s1 (fun _ => rfl) trivial rfl (hok f List.mem_cons_self) he
      exact hk.play (fun f hf => hok f (List.mem_cons_of_mem _ hf)) hp

end Threads
