/-
# One store for each entry

`internal/arbiter/stores.go` (`Resolve`, `Restore`, `Purge`) and `recorder.go` (`Claim`,
`Save`, `Forget`), run by any number of processes over one ConfigMap.

`Resolve` makes a store first and claims it in the record afterwards, and an update of the
record lands only on the version it was read at.  Of two processes that make a store for
one entry, the one whose claim lands first is recorded, and the other gives up its own.

Both results are one argument about what a process may take a store id for (`Notion`): that
it is the one recorded for the key (`agreed`), or that it was made for the key (`named`).
-/

import Gentian.Arbiter.Stores

namespace Gentian.Arbiter

open Threads OpenFGA List Option Prod

/-- The store that is recorded under a key. -/
def World.storeOf (w : World) (key : String) : Option ℕ := (w.record.lookup key).map StoreIDs.store

/-- A store that was made for the component of a key. -/
def World.IsFor (w : World) (key : String) (id : ℕ) : Prop :=
  ∃ m, w.made[id]? = some m ∧ m.ref.recordKey = key

/-- A store that a call made, and that is there. -/
def World.LeftBy (w : World) (j id : ℕ) : Prop :=
  ∃ m, w.made[id]? = some m ∧ m.maker = some j ∧ m.content.isSome = true

/-! ### Steps that leave the ids alone -/

/-- A step that makes no store, revives none, and records nothing. -/
structure Touches (w w' : World) : Prop where
  record : w'.record = w.record
  version : w'.version = w.version
  made : ∀ (i : ℕ) m', w'.made[i]? = some m' → ∃ m, w.made[i]? = some m ∧ m'.ref = m.ref ∧
    m'.maker = m.maker ∧ (m'.content.isSome = true → m.content.isSome = true)
  isFor : ∀ key id, w.IsFor key id → w'.IsFor key id

theorem Touches.refl (w : World) : Touches w w :=
  ⟨rfl, rfl, fun _ m h => ⟨m, h, rfl, rfl, fun h => h⟩, fun _ _ h => h⟩

variable {m : Made} {w w' : World}

/-- No store is left behind by a step that touches the state. -/
theorem Touches.leftBy (h : Touches w w') {j id : ℕ} (hl : w'.LeftBy j id) : w.LeftBy j id := by
  obtain ⟨m', hm', hmaker, hc⟩ := hl
  obtain ⟨m, hm, -, hmaker', hc'⟩ := h.made id m' hm'
  exact ⟨m, hm, hmaker' ▸ hmaker, hc' hc⟩

/-- A change of one store keeps whose it is and who made it. -/
theorem touches_onStore (w : World) {id : ℕ} {g : Made → Made}
    (hg : ∀ m, w.made[id]? = some m → (g m).ref = m.ref ∧ (g m).maker = m.maker ∧
      ((g m).content.isSome → m.content.isSome)) :
    Touches w (w.onStore id g) := by
  refine ⟨rfl, rfl, fun i _ h => ?_, fun _ i hi => ?_⟩
  · rw [World.onStore, getElem?_modify] at h
    obtain ⟨m, hm, rfl⟩ := map_eq_some_iff.1 h
    split_ifs with heq
    · subst heq
      exact ⟨m, hm, hg m hm⟩
    · exact ⟨m, hm, rfl, rfl, fun h => h⟩
  · obtain ⟨m, hm, hkey⟩ := hi
    refine ⟨if id = i then g m else m, by simp [World.onStore, getElem?_modify, hm], ?_⟩
    split_ifs with heq
    · subst heq
      rw [(hg m hm).1, hkey]
    · exact hkey

theorem touches_onProc (w : World) (p : ℕ) (g : Process → Process) : Touches w (w.onProc p g) :=
  ⟨rfl, rfl, fun _ m h => ⟨m, h, rfl, rfl, fun h => h⟩, fun _ _ h => h⟩

theorem touches_credit (ref : Ref) (ts : List Tuple) (h : Touches w w') :
    Touches w (w'.credit ref ts) := ⟨h.record, h.version, h.made, h.isFor⟩

variable {s : Store} {sum : String → String}

/-- A live store was made and has its tuples. -/
theorem live_eq_some {id : ℕ} (h : w.live id = some (m, s)) :
    w.made[id]? = some m ∧ m.content = some s := by
  rw [World.live, bind_eq_some_iff] at h
  obtain ⟨m', hm, h⟩ := h
  obtain ⟨s', hs, h⟩ := map_eq_some_iff.1 h
  cases h
  exact ⟨hm, hs⟩

theorem content_isSome {id : ℕ} {m' : Made} (hm : w.made[id]? = some m)
    (hm' : w.made[id]? = some m') (hc : m.content = some s) : m'.content.isSome := by
  rw [hm] at hm'
  cases hm'
  rw [hc]
  rfl

/-- The steps that make no store and do not write the record. -/
def Op.touches : Op → Bool
  | .createStore _ | .updateRecord _ _ => false
  | _ => true

/-- The operation that deletes a store. -/
def Op.deletes : Op → Bool
  | .deleteStore _ => true
  | _ => false

/-- The operation that makes a store. -/
def Op.creates : Op → Bool
  | .createStore _ => true
  | _ => false

/-- Whatever becomes of a call, it does no more than its effect. -/
theorem touches_apply {α : Type} {f : Outcome} {ok bad r : α} {w1 : World} (h : Touches w w1)
    (he : f.apply ok bad w w1 = (r, w')) : Touches w w' := by
  cases f with
  | done | lost =>
    obtain ⟨-, rfl⟩ := mk.inj he
    exact h
  | failed =>
    obtain ⟨-, rfl⟩ := mk.inj he
    exact .refl w

/-- A call whose effect leaves the processes alone leaves them alone. -/
theorem procs_apply {α : Type} {f : Outcome} {ok bad r : α} {w1 : World} (h : w1.procs = w.procs)
    (he : f.apply ok bad w w1 = (r, w')) : w'.procs = w.procs := by
  cases f with
  | done | lost =>
    obtain ⟨-, rfl⟩ := mk.inj he
    exact h
  | failed =>
    obtain ⟨-, rfl⟩ := mk.inj he
    rfl

section exec

variable {p j : ℕ} {i : Op} {f : Outcome} {w w' : World} {r : i.Ans}

/-- **What such a step can do to the stores.** -/
theorem exec_touches (hi : i.touches) (h : exec p j i f w = some (r, w')) : Touches w w' := by
  have hsame : ∀ {α} {a b : α} {w1 : World}, some (a, w) = some (b, w1) → Touches w w1 := by
    intro α a b w1 heq
    cases heq
    exact .refl w
  cases i with
  | createStore | updateRecord => cases hi
  | load =>
    simp only [exec] at h
    split_ifs at h
    · exact hsame h
    · split at h
      · cases h
        exact touches_onProc w p _
      · exact hsame h
  | lock _ =>
    simp only [exec] at h
    split_ifs at h
    cases h
    exact touches_onProc w p _
  | unlock | set | drop =>
    cases h
    exact touches_onProc w p _
  | get | readModel | read | readRecord => exact hsame h
  | deleteStore id =>
    refine touches_apply ?_ (some.inj h)
    exact touches_onStore w fun m _ => ⟨rfl, rfl, by simp⟩
  | writeModel id _ =>
    simp only [exec] at h
    split at h
    · refine touches_apply ?_ (some.inj h)
      exact touches_onStore w fun m _ => ⟨rfl, rfl, fun h => h⟩
    · exact hsame h
  | request id _ =>
    simp only [exec] at h
    split at h
    next s hs =>
      obtain ⟨⟨m, s'⟩, hlive, -⟩ := bind_eq_some_iff.1 hs
      obtain ⟨hm, hc⟩ := live_eq_some hlive
      refine touches_apply ?_ (some.inj h)
      exact touches_onStore w fun m' hm' => ⟨rfl, rfl, fun _ => content_isSome hm hm' hc⟩
    · exact hsame h
  | exchange ref id _ _ =>
    simp only [exec] at h
    split at h
    next s hs =>
      obtain ⟨⟨m, s'⟩, hlive, -⟩ := bind_eq_some_iff.1 hs
      obtain ⟨hm, hc⟩ := live_eq_some hlive
      refine touches_apply (touches_credit ref _ ?_) (some.inj h)
      exact touches_onStore w fun m' hm' => ⟨rfl, rfl, fun _ => content_isSome hm hm' hc⟩
    · exact hsame h

/-- **What a step can make a process remember**: the record, or what it is told to. -/
theorem exec_cached (h : exec p j i f w = some (r, w')) {q : ℕ} {key : String} {ids : StoreIDs}
    (hk : (w'.procs q).ids.lookup key = some ids) :
    (w.procs q).ids.lookup key = some ids ∨ w.record.lookup key = some ids ∨ i = .set key ids := by
  have hsame : ∀ {w1 : World}, w1.procs = w.procs →
      (w1.procs q).ids.lookup key = some ids → (w.procs q).ids.lookup key = some ids :=
    fun heq hk => heq ▸ hk
  have hproc : ∀ {g : Process → Process}, ((w.onProc p g).procs q).ids.lookup key = some ids →
      (w.procs q).ids.lookup key = some ids ∨ (g (w.procs q)).ids.lookup key = some ids := by
    intro g hk
    simp only [World.onProc] at hk
    split_ifs at hk
    · exact .inr hk
    · exact .inl hk
  cases i with
  | load =>
    simp only [exec] at h
    split_ifs at h
    · cases h
      exact .inl hk
    · split at h
      · cases h
        exact (hproc hk).imp_right .inl
      · cases h
        exact .inl hk
  | lock key' =>
    simp only [exec] at h
    split_ifs at h
    cases h
    exact .inl ((hproc hk).elim (fun h => h) fun h => h)
  | unlock key' =>
    cases h
    exact .inl ((hproc hk).elim (fun h => h) fun h => h)
  | drop key' =>
    cases h
    rcases hproc hk with hk | hk
    · exact .inl hk
    · rw [GoMap.lookup_erase_eq] at hk
      split_ifs at hk
      exact .inl hk
  | set key' _ =>
    cases h
    rcases hproc hk with hk | hk
    · exact .inl hk
    · rw [GoMap.lookup_insert_eq] at hk
      split_ifs at hk with heq
      · cases hk
        exact .inr (.inr (by rw [heq]))
      · exact .inl hk
  | get | readModel | read | readRecord =>
    cases h
    exact .inl hk
  | createStore | deleteStore =>
    refine .inl (hsame (procs_apply ?_ (some.inj h)) hk)
    rfl
  | writeModel | request | exchange =>
    simp only [exec] at h
    split at h
    · refine .inl (hsame (procs_apply ?_ (some.inj h)) hk)
      rfl
    · cases h
      exact .inl hk
  | updateRecord =>
    simp only [exec] at h
    split_ifs at h <;> cases h <;> exact .inl hk

end exec

/-- The world with one store more. -/
def World.withStore (w : World) (m : Made) : World := { w with made := w.made ++ [m] }

theorem isFor_withStore {key : String} {id : ℕ} (h : w.IsFor key id) :
    (w.withStore m).IsFor key id := by
  obtain ⟨m', hm', hkey⟩ := h
  have hlt := (List.getElem?_eq_some_iff.1 hm').1
  exact ⟨m', by rwa [World.withStore, List.getElem?_append_left hlt], hkey⟩

/-- A store is for the component it was made for. -/
theorem isFor_withStore_self (w : World) (m : Made) :
    (w.withStore m).IsFor m.ref.recordKey w.made.length :=
  ⟨m, by simp [World.withStore], rfl⟩

/-- A new store is the only one that its maker may leave behind. -/
theorem leftBy_withStore {j id : ℕ} (h : (w.withStore m).LeftBy j id) :
    w.LeftBy j id ∨ id = w.made.length ∧ m.maker = some j := by
  obtain ⟨m', hm', hmaker, hc⟩ := h
  rcases Nat.lt_trichotomy id w.made.length with hlt | rfl | hgt
  · rw [World.withStore, getElem?_append_left hlt] at hm'
    exact .inl ⟨m', hm', hmaker, hc⟩
  · rw [World.withStore, getElem?_concat_length, some.injEq] at hm'
    subst hm'
    exact .inr ⟨rfl, hmaker⟩
  · rw [World.withStore, getElem?_eq_none (by simp; omega)] at hm'
    cases hm'

/-! ### What an id is taken for -/

/-- What a process may take a store id for, and why nobody changes that. -/
structure Notion where
  Right : World → String → ℕ → Prop
  frame : ∀ {w w' : World}, w'.record = w.record →
    (∀ key id, w.IsFor key id → w'.IsFor key id) → ∀ {key id}, Right w key id → Right w' key id
  claimed : ∀ {w : World} {key ids}, w.record.lookup key = none → w.IsFor key ids.store →
    (∀ k i, Right w k i → Right (w.update (w.record.insert key ids)) k i) ∧
      Right (w.update (w.record.insert key ids)) key ids.store
  saved : ∀ {w : World} {key ids}, Right w key ids.store →
    ∀ k i, Right w k i → Right (w.update (w.record.insert key ids)) k i

/-- To be right is to be the store of the record. -/
def agreed : Notion where
  Right w key id := w.storeOf key = some id
  frame hr _ _ _ h := by rwa [World.storeOf, hr]
  claimed {w key ids} hnone _ := by
    refine ⟨fun k i h => ?_, by simp [World.storeOf, World.update]⟩
    have hne : k ≠ key := by
      rintro rfl
      rw [World.storeOf, hnone] at h
      cases h
    simpa [World.storeOf, World.update, hne] using h
  saved {w key ids} h k i hk := by
    by_cases heq : k = key
    · subst heq
      rw [h] at hk
      cases hk
      simp [World.storeOf, World.update]
    · simpa [World.storeOf, World.update, heq] using hk

/-- To be right is to be a store of the component. -/
def named : Notion where
  Right w key id := w.IsFor key id
  frame _ hfor _ _ h := hfor _ _ h
  claimed _ hfor := ⟨fun _ _ h => h, hfor⟩
  saved _ _ _ h := h

namespace Notion

variable (N : Notion)

/-- What every process holds of a key is right, and so is what is recorded. -/
structure Inv (w : World) : Prop where
  cached : ∀ p key ids, (w.procs p).ids.lookup key = some ids → N.Right w key ids.store
  recorded : ∀ key ids, w.record.lookup key = some ids → N.Right w key ids.store

/-- How others may move the state while the `j`-th call is running. -/
structure Rely (j : ℕ) (w w' : World) : Prop where
  right : ∀ key id, N.Right w key id → N.Right w' key id
  isFor : ∀ key id, w.IsFor key id → w'.IsFor key id
  left : ∀ id, w'.LeftBy j id → w.LeftBy j id
  le : w.version ≤ w'.version
  same : w'.version = w.version → w'.record = w.record

/-- What a call has: `r` is right for the key, `c` was made for it, and it leaves nothing
else behind as long as deletions are carried out and the call is told of what it makes. -/
structure Stands (sure : Prop) (j : ℕ) (key : String) (r c : Option ℕ) (w : World) : Prop where
  right : ∀ i, r = some i → N.Right w key i
  made : ∀ i, c = some i → w.IsFor key i
  left : sure → ∀ id, w.LeftBy j id → c = some id ∨ N.Right w key id

/-- Where that is asked for, calls are considered whose deletions are carried out and that are
told of the stores they make. -/
def spec (κ : Type) (sure : Prop) : Spec World κ Op Outcome where
  inv calls w := N.Inv w ∧ ∀ m ∈ w.made, ∀ b, m.maker = some b → b < calls.length
  rely j _ w w' := N.Rely j w w'
  cond _ _ i f _ _ := sure → (i.deletes = true → f = .done) ∧ (i.creates = true → f ≠ .lost)

variable {N} {sure : Prop} {j : ℕ} {key : String} {r c : Option ℕ} {w w' : World}

theorem Rely.refl (w : World) : N.Rely j w w :=
  ⟨fun _ _ h => h, fun _ _ h => h, fun _ h => h, le_rfl, fun _ => rfl⟩

/-- What others may do in two steps they may do in one. -/
theorem Rely.trans {w1 w2 w3 : World} (h : N.Rely j w1 w2) (h' : N.Rely j w2 w3) :
    N.Rely j w1 w3 := by
  refine ⟨fun k i hi => h'.right k i (h.right k i hi), fun k i hi => h'.isFor k i (h.isFor k i hi),
    fun id hid => h.left id (h'.left id hid), h.le.trans h'.le, fun _ => ?_⟩
  have hle := h.le
  have hle' := h'.le
  rw [h'.same (by omega), h.same (by omega)]

/-- To touch the state is what others may do. -/
theorem Rely.of_touches (h : Touches w w') : N.Rely j w w' :=
  ⟨fun _ _ hr => N.frame h.record h.isFor hr, h.isFor, fun _ => h.leftBy, h.version ▸ le_rfl,
    fun _ => h.record⟩

/-- An operation that sets only what is right keeps the invariant. -/
theorem Inv.exec {p : ℕ} {i : Op} {f : Outcome} {a : i.Ans} (hi : N.Inv w) (h : Touches w w')
    (he : Arbiter.exec p j i f w = some (a, w'))
    (hset : ∀ k ids, i = .set k ids → N.Right w k ids.store) : N.Inv w' := by
  refine ⟨fun q k ids hk => N.frame h.record h.isFor ?_,
    fun k ids hk => N.frame h.record h.isFor (hi.recorded k ids (h.record ▸ hk))⟩
  rcases exec_cached he hk with hk | hk | rfl
  · exact hi.cached q k ids hk
  · exact hi.recorded k ids hk
  · exact hset k ids rfl

section

variable (hs : N.Stands sure j key r c w)

include hs

/-- Others do not change where a call stands. -/
theorem Stands.rely (h : N.Rely j w w') :
    N.Stands sure j key r c w' :=
  ⟨fun i hi => h.right key i (hs.right i hi), fun i hi => h.isFor key i (hs.made i hi),
    fun hsure id hid => (hs.left hsure id (h.left id hid)).imp_right (h.right key id)⟩

theorem Stands.touches (h : Touches w w') :
    N.Stands sure j key r c w' := hs.rely (.of_touches h)

theorem Stands.forget : N.Stands sure j key none c w :=
  ⟨nofun, hs.made, hs.left⟩

end

/-- A store that has been recorded is left behind no more. -/
theorem Stands.settle {i : ℕ} (hs : N.Stands sure j key (some i) (some i) w) :
    N.Stands sure j key (some i) none w := by
  refine ⟨hs.right, nofun, fun hsure id hid => .inr ?_⟩
  rcases hs.left hsure id hid with h | h
  · cases h
    exact hs.right i rfl
  · exact h

/-- To record a right store keeps the invariant. -/
theorem inv_insert {ids : StoreIDs} (hi : N.Inv w)
    (hkeep : ∀ k i, N.Right w k i → N.Right (w.update (w.record.insert key ids)) k i)
    (h : N.Right (w.update (w.record.insert key ids)) key ids.store) :
    N.Inv (w.update (w.record.insert key ids)) := by
  refine ⟨fun q k ids' hk => hkeep _ _ (hi.cached q k ids' hk), fun k ids' hk => ?_⟩
  rw [World.update, GoMap.lookup_insert_eq] at hk
  split_ifs at hk with heq
  · cases hk
    exact heq ▸ h
  · exact hkeep _ _ (hi.recorded k ids' hk)

theorem Rely.of_update {data : Record}
    (hkeep : ∀ k i, N.Right w k i → N.Right (w.update data) k i) : N.Rely j w (w.update data) :=
  ⟨hkeep, fun _ _ h => h, fun _ h => h, Nat.le_succ _, fun h => absurd h (Nat.succ_ne_self _)⟩

end Notion

/-! ### The steps of a call -/

section steps

variable {κ α : Type} (proc : κ → ℕ) (code : κ → Prog Op Op.Ans α)

/-- Calls of several processes, each step of which has an outcome. -/
def arbiters : System World κ Op Op.Ans α Outcome Empty where
  code := code
  exec j k := exec (proc k) j
  env e _ := nomatch e

variable {proc code} {N : Notion} {sure : Prop} {j : ℕ} {k : κ} {key : String} {r c : Option ℕ}
  {w : World} {β : Type}

/-- The program of the `j`-th call goes on from `w`, and ends in `Q` or, with an error, with
nothing to show but what it made. -/
def Goes (proc : κ → ℕ) (code : κ → Prog Op Op.Ans α) (N : Notion) (sure : Prop) (j : ℕ) (k : κ)
    (key : String) (c : Option ℕ) (Q : β → World → Prop) (x : Run β) (w : World) : Prop :=
  SafeE (arbiters proc code) (N.spec κ sure) j k Q (fun _ => N.Stands sure j key none c) x w

/-- What holds when a call has answered, and when it failed. -/
def Answered {γ : Type} (Q : γ → World → Prop) (E : World → Prop) : Option γ → World → Prop
  | some b, w => Q b w
  | none, w => E w

/-- An operation that touches the state lets a call go on. -/
theorem goes_touch {i : Op} (hi : i.touches) {Q : i.Ans → World → Prop}
    (hset : ∀ k' ids, i = .set k' ids → k' = key ∧ r = some ids.store)
    (hw : N.Stands sure j key r c w)
    (hQ : ∀ f a w1 w', N.Stands sure j key r c w1 → N.Inv w1 → Touches w1 w' →
      (sure → i.deletes → f = .done) →
      exec (proc k) j i f w1 = some (a, w') → Q a w') {E : Err → World → Prop} :
    SafeE (arbiters proc code) (N.spec κ sure) j k Q E (call i) w := by
  refine .call fun _ w1 f a w' hrely hinv _ hcond he => ?_
  have hw1 := hw.rely hrely
  have ht := exec_touches hi he
  have hright : ∀ k' ids, i = .set k' ids → N.Right w1 k' ids.store := by
    intro k' ids hi
    obtain ⟨rfl, hr⟩ := hset k' ids hi
    exact hw1.right _ hr
  refine ⟨⟨hinv.1.exec ht he hright, fun m' hm' b hb => ?_⟩, fun _ _ _ => .of_touches ht,
    hQ f a w1 w' hw1 hinv.1 ht (fun hsure => (hcond hsure).1) he⟩
  obtain ⟨n, hn⟩ := getElem?_of_mem hm'
  obtain ⟨m, hm, -, hmaker, -⟩ := ht.made n m' hn
  exact hinv.2 m (mem_of_getElem? hm) b (hmaker ▸ hb)

theorem goes_any {i : Op} (hi : i.touches)
    (hset : ∀ k' ids, i = .set k' ids → k' = key ∧ r = some ids.store)
    (hw : N.Stands sure j key r c w) :
    Goes proc code N sure j k key c (fun _ => N.Stands sure j key r c) (call i) w :=
  goes_touch hi hset hw fun _ _ _ _ hs _ ht _ _ => hs.touches ht

theorem goes_must {x : Run Bool} {e : Err}
    (h : Goes proc code N sure j k key c (fun _ => N.Stands sure j key r c) x w) :
    Goes proc code N sure j k key c (fun _ => N.Stands sure j key r c) (must x e) w := by
  refine .next (fun b w hb => ?_) h
  cases b with
  | true => exact .pure hb
  | false => exact .throw hb.forget

theorem goes_need {γ : Type} {x : Run (Option γ)} {e : Err} {Q : γ → World → Prop}
    (h : Goes proc code N sure j k key c (Answered Q (N.Stands sure j key none c)) x w) :
    Goes proc code N sure j k key c Q (need x e) w := by
  refine .next (fun a w ha => ?_) h
  cases a with
  | some b => exact .pure ha
  | none => exact .throw ha

theorem goes_need_any {γ : Type} {x : Run (Option γ)} {e : Err}
    (h : Goes proc code N sure j k key c (fun _ => N.Stands sure j key r c) x w) :
    Goes proc code N sure j k key c (fun _ => N.Stands sure j key r c) (need x e) w := by
  refine goes_need (.mono (fun a w ha => ?_) (fun _ _ h => h) h)
  cases a with
  | some b => exact ha
  | none => exact ha.forget

variable {e : Entry} {ids : StoreIDs} {id : ℕ}

theorem goes_set (hw : N.Stands sure j key (some ids.store) c w) :
    Goes proc code N sure j k key c (fun _ => N.Stands sure j key (some ids.store) c)
      (call (.set key ids)) w := by
  refine goes_any rfl (fun _ _ heq => ?_) hw
  obtain ⟨rfl, rfl⟩ := Op.set.inj heq
  exact ⟨rfl, rfl⟩

variable {ref : Ref} {sum : String → String}

/-- A store that was made is in the hands of its call. -/
theorem goes_createStore (hkey : ref.recordKey = key) (hw : N.Stands sure j key none none w) :
    Goes proc code N sure j k key none (Answered (fun id => N.Stands sure j key none (some id))
      (N.Stands sure j key none none)) (call (.createStore ref)) w := by
  refine .call fun calls w1 f a _ hrely hinv hj hcond he => ?_
  have hw1 := hw.rely hrely
  have hlt : j < calls.length := (List.getElem?_eq_some_iff.1 hj).1
  let m : Made := ⟨ref, some j, [], some .empty⟩
  have hframe : ∀ {key id}, N.Right w1 key id → N.Right (w1.withStore m) key id := fun h =>
    N.frame (show (w1.withStore m).record = w1.record from rfl) (fun _ _ => isFor_withStore) h
  have hinv' : (N.spec κ sure).inv calls (w1.withStore m) := by
    refine ⟨⟨fun p k ids hk => hframe (hinv.1.cached p k ids hk),
      fun k ids hk => hframe (hinv.1.recorded k ids hk)⟩, fun m hm b hb => ?_⟩
    rcases mem_append.1 hm with hm | hm
    · exact hinv.2 m hm b hb
    · rw [mem_singleton.1 hm] at hb
      exact some.inj hb ▸ hlt
  have hrely' : ∀ j' (c' : κ), j' ≠ j → (N.spec κ sure).rely j' c' w1 (w1.withStore m) := by
    refine fun j' _ hne => ⟨fun _ _ => hframe, fun _ _ => isFor_withStore, fun id hid => ?_,
      le_rfl, fun _ => rfl⟩
    rcases leftBy_withStore hid with h | ⟨-, h⟩
    · exact h
    · exact absurd (some.inj h).symm hne
  cases f with
  | done =>
    cases he
    refine ⟨hinv', hrely', nofun, fun i hi => ?_, fun hsure id hid => ?_⟩
    · cases hi
      exact hkey ▸ isFor_withStore_self w1 m
    · rcases leftBy_withStore hid with h | ⟨rfl, -⟩
      · rcases hw1.left hsure id h with h | h
        · cases h
        · exact .inr (hframe h)
      · exact .inl rfl
  | failed =>
    cases he
    exact ⟨hinv, fun _ _ _ => .refl _, hw1⟩
  | lost =>
    cases he
    exact ⟨hinv', hrely', nofun, nofun, fun hsure => absurd rfl ((hcond hsure).2 rfl)⟩

/-- A store that lost the race is deleted. -/
theorem goes_discard (hw : N.Stands sure j key r (some id) w) :
    Goes proc code N sure j k key none (fun _ => N.Stands sure j key r none) (discard id) w := by
  refine .bind (goes_touch rfl (fun _ _ h => by cases h) hw ?_)
  intro f a _ _ hs _ ht hcond he
  have hs' := hs.touches ht
  refine ⟨hs'.right, nofun, fun hsure i hi => ?_⟩
  obtain rfl := hcond hsure rfl
  rcases hs'.left hsure i hi with h | h
  · cases h
    cases he
    obtain ⟨m, hm, -, hc⟩ := hi
    simp only [World.onStore, getElem?_modify] at hm
    obtain ⟨m', -, rfl⟩ := map_eq_some_iff.1 hm
    cases hc
  · exact .inr h

/-- **An edit of the record lands on the record it was made for**: on a conflict it is made
again, and an error leaves the call with what it made. -/
theorem goes_change {edit : Record → β × Option Record} {Q : β → World → Prop}
    (hkeep : ∀ b w, N.Stands sure j key r c w → N.Inv w → edit w.record = (b, none) → Q b w)
    (hedit : ∀ b data w, N.Stands sure j key r c w → N.Inv w → edit w.record = (b, some data) →
      N.Inv (w.update data) ∧ (∀ k i, N.Right w k i → N.Right (w.update data) k i) ∧
        Q b (w.update data))
    (hQ : ∀ b w, Q b w → N.Stands sure j key none c w) :
    ∀ (n : ℕ) {w : World}, N.Stands sure j key r c w →
      Goes proc code N sure j k key c Q (change edit n) w
  | 0, _, hw => .throw hw.forget
  | n + 1, w, hw => by
    refine .bind (.mono (Q := fun (a : ℕ × Record) w => N.Stands sure j key r c w ∧
      N.Inv w ∧ w.version = a.1 ∧ w.record = a.2) (fun a w ha => ?_) (fun _ _ h => h) ?_)
    · obtain ⟨version, data⟩ := a
      obtain ⟨hs, hi, rfl, rfl⟩ := ha
      cases hed : edit w.record with
      | mk b out =>
        simp only [hed]
        cases out with
        | none => exact .pure (hkeep b w hs hi hed)
        | some data =>
          refine .bind (.call fun calls w1 f a w' hrely hinv _ _ he => ?_)
          have hs1 := hs.rely hrely
          -- the version read is still there, so the record is the one that was edited
          have hland : w.version = w1.version → edit w1.record = (b, some data) :=
            fun heq => by rw [hrely.same heq.symm, hed]
          have hupdated : w.version = w1.version → (N.spec κ sure).inv calls (w1.update data) ∧
              (∀ j' (c' : κ), j' ≠ j → (N.spec κ sure).rely j' c' w1 (w1.update data)) ∧
              Q b (w1.update data) := by
            intro heq
            obtain ⟨hi', hright, hq⟩ := hedit b data w1 hs1 hinv.1 (hland heq)
            exact ⟨⟨hi', hinv.2⟩, fun _ _ _ => .of_update hright, hq⟩
          simp only [arbiters, exec] at he
          split_ifs at he with hfailed hver hdone hdone
          · cases he
            exact ⟨hinv, fun _ _ _ => .refl _, .throw hs1.forget⟩
          · cases he
            obtain ⟨hi', hr', hq⟩ := hupdated hver
            exact ⟨hi', hr', .pure hq⟩
          · cases he
            obtain ⟨hi', hr', hq⟩ := hupdated hver
            exact ⟨hi', hr', .throw (hQ b _ hq)⟩
          · cases he
            exact ⟨hinv, fun _ _ _ => .refl _, goes_change hkeep hedit hQ n hs1⟩
          · cases he
            exact ⟨hinv, fun _ _ _ => .refl _, .throw hs1.forget⟩
    · refine goes_need (goes_touch rfl (fun _ _ h => by cases h) hw ?_)
      intro f a w1 w' hs hi _ _ he
      cases he
      split_ifs
      · exact ⟨hs, hi, rfl, rfl⟩
      · exact hs.forget

/-- **A claim answers with the recorded store**, its own or the one it found. -/
theorem goes_claim {created : ℕ} (hw : N.Stands sure j key none (some created) w) :
    Goes proc code N sure j k key (some created)
      (fun ids => N.Stands sure j key (some ids.store) (some created))
      (claim key (.ofStore created)) w := by
  refine goes_change (fun ids w hs hi hed => ?_) (fun ids _ w hs hi hed => ?_)
    (fun _ _ hs => hs.forget) _ hw
  · cases hlook : w.record.lookup key with
    | none => simp [claimEdit, hlook] at hed
    | some existing =>
      simp only [claimEdit, hlook, mk.injEq, and_true] at hed
      subst hed
      refine ⟨fun i hi' => ?_, hs.made, hs.left⟩
      cases hi'
      exact hi.recorded key _ hlook
  · cases hlook : w.record.lookup key with
    | some existing => simp [claimEdit, hlook] at hed
    | none =>
      rw [claimEdit, hlook] at hed
      obtain ⟨rfl, rfl⟩ := hed
      obtain ⟨hkeep, hright⟩ := N.claimed hlook
        (show w.IsFor key (StoreIDs.ofStore created).store from hs.made created rfl)
      refine ⟨Notion.inv_insert hi hkeep hright, hkeep, fun i hi' => ?_, hs.made,
        fun hsure id hid => ?_⟩
      · cases hi'
        exact hright
      · exact (hs.left hsure id hid).imp_right (hkeep key id)

/-- To save what is recorded changes no store. -/
theorem goes_save (ids : StoreIDs) (hw : N.Stands sure j key (some ids.store) c w) :
    Goes proc code N sure j k key c (fun _ => N.Stands sure j key (some ids.store) c)
      (save key ids) w := by
  refine goes_change (fun _ w hs _ _ => hs) (fun _ _ w hs hi hed => ?_)
    (fun _ _ hs => hs.forget) _ hw
  simp only [saveEdit, mk.injEq, true_and] at hed
  split_ifs at hed
  cases hed
  have hright := hs.right _ rfl
  have hkeep := N.saved hright
  exact ⟨Notion.inv_insert hi hkeep (hkeep _ _ hright), hkeep,
    fun i hi' => hkeep _ _ (hs.right i hi'), hs.made,
    fun hsure id hid => (hs.left hsure id hid).imp_right (hkeep key id)⟩

/-- `createFor` ends with the recorded store. -/
theorem goes_createFor (hkey : e.ref.recordKey = key) (hw : N.Stands sure j key none none w) :
    Goes proc code N sure j k key none (fun ids => N.Stands sure j key (some ids.store) none)
      (createFor e) w := by
  subst hkey
  refine .next (fun _ w hs => ?_) (goes_need (goes_createStore rfl hw))
  refine .bind (.attempt (.mono (fun ids w hs => ?_) (fun _ w hs => ?_) (goes_claim hs)))
  · have hset : ∀ {w}, N.Stands sure j e.ref.recordKey (some ids.store) none w →
        Goes proc code N sure j k e.ref.recordKey none
          (fun ids => N.Stands sure j e.ref.recordKey (some ids.store) none)
          (do
            call (.set e.ref.recordKey ids)
            pure ids) w := fun hs =>
      .next (fun _ _ hs => .pure hs) (goes_set hs)
    dsimp only
    split_ifs with heq
    · subst heq
      exact hset hs.settle
    · exact .next (fun _ _ hs => hset hs) (goes_discard hs)
  · exact .next (fun _ _ hs => .throw hs) (goes_discard hs)

theorem goes_writeModelOf (hkey : e.ref.recordKey = key)
    (hw : N.Stands sure j key (some ids.store) none w) :
    Goes proc code N sure j k key none (fun ids => N.Stands sure j key (some ids.store) none)
      (writeModelOf sum e ids) w := by
  subst hkey
  unfold writeModelOf
  split_ifs
  · refine .next (fun model w hs => ?_) (goes_need_any (goes_any rfl nofun hw))
    refine .next (fun _ w hs => ?_)
      (goes_save { ids with model := some model, digest := sum e.model } hs)
    exact .next (fun _ _ hs => .pure hs) (goes_set hs)
  · exact .pure hw

theorem goes_sendAll (rs : List Request) : ∀ {w}, N.Stands sure j key r c w →
      Goes proc code N sure j k key c (fun _ => N.Stands sure j key r c) (sendAll id rs) w := by
  induction rs with
  | nil => exact fun hw => .pure hw
  | cons _ rs ih =>
    intro w hw
    exact .next (fun _ _ hs => ih hs) (goes_must (goes_any rfl nofun hw))

theorem goes_unmirror (hw : N.Stands sure j key r c w) :
    Goes proc code N sure j k key c (fun _ => N.Stands sure j key r c) (unmirror id) w :=
  .next (fun _ _ hs => goes_sendAll _ hs) (goes_need_any (goes_any rfl nofun hw))

/-- `platformTuples` keeps the store it is given. -/
theorem goes_platformTuples (hkey : e.ref.recordKey = key)
    (hw : N.Stands sure j key (some ids.store) none w) :
    Goes proc code N sure j k key none (fun ids => N.Stands sure j key (some ids.store) none)
      (platformTuples e ids) w := by
  subst hkey
  have hrest : ∀ {w}, N.Stands sure j e.ref.recordKey (some ids.store) none w →
      Goes proc code N sure j k e.ref.recordKey none
        (fun ids => N.Stands sure j e.ref.recordKey (some ids.store) none)
        (do
          save e.ref.recordKey { ids with written := e.tuples, mirrored := e.mirrorGroups }
          call (.set e.ref.recordKey { ids with written := e.tuples, mirrored := e.mirrorGroups })
          pure { ids with written := e.tuples, mirrored := e.mirrorGroups }) w := by
    intro w hs
    refine .next (fun _ w hs => ?_) (goes_save _ hs)
    exact .next (fun _ _ hs => .pure hs) (goes_set hs)
  unfold platformTuples
  dsimp only
  split_ifs
  · exact .pure hw
  · refine .next (fun _ w hs => ?_) (goes_sendAll _ hw)
    exact .next (fun _ _ hs => hrest hs) (goes_unmirror hs)
  · exact .next (fun _ _ hs => hrest hs) (goes_sendAll _ hw)

/-- What goes on under the lock goes on with it. -/
theorem goes_locked {x : Run β} {r : β → Option ℕ} (hw : N.Stands sure j key none none w)
    (hx : ∀ {w}, N.Stands sure j key none none w →
      Goes proc code N sure j k key none (fun b => N.Stands sure j key (r b) none) x w) :
    Goes proc code N sure j k key none (fun b => N.Stands sure j key (r b) none) (locked key x) w := by
  refine .next (fun _ w hs => ?_) (goes_must (goes_any rfl nofun hw))
  refine .next (fun _ w hs => ?_) (goes_any rfl nofun hs)
  refine .bind (.attempt (.mono (fun b w hs => ?_) (fun _ w hs => ?_) (hx hs)))
  · exact .next (fun _ _ hs => .pure hs) (goes_any rfl nofun hs)
  · exact .next (fun _ _ hs => .throw hs) (goes_any rfl nofun hs)

section

variable (hkey : e.ref.recordKey = key) (hw : N.Stands sure j key none none w)

include hkey hw

/-- `storeFor` ends with the recorded store. -/
theorem goes_storeFor :
    Goes proc code N sure j k key none (fun ids => N.Stands sure j key (some ids.store) none)
      (storeFor e) w := by
  subst hkey
  refine .bind (goes_touch rfl (fun _ _ h => by cases h) hw ?_)
  intro f a w1 _ hs hi _ _ he
  cases he
  cases hlook : (w1.procs (proc k)).ids.lookup e.ref.recordKey with
  | none => exact goes_createFor rfl hs
  | some ids =>
    refine .pure ⟨fun i hi' => ?_, hs.made, hs.left⟩
    cases hi'
    exact hi.cached _ _ _ hlook

/-- **`Resolve` answers with a right id**, and leaves no store of its own behind. -/
theorem resolve_safe :
    Goes proc code N sure j k key none (fun ids => N.Stands sure j key (some ids.store) none)
      (resolve sum e) w := by
  subst hkey
  refine goes_locked hw fun {w} hw => ?_
  refine .next (fun ids w hs => ?_) (goes_storeFor rfl hw)
  exact .next (fun _ _ hs => goes_platformTuples rfl hs) (goes_writeModelOf rfl hs)

end

/-- A purge leaves no store in its hands. -/
theorem goes_purgeLocked (hkey : ref.recordKey = key)
    (hany : ∀ w data k i, N.Right w k i → N.Right (w.update data) k i)
    (hw : N.Stands sure j key none none w) :
    Goes proc code N sure j k key none (fun _ => N.Stands sure j key none none)
      (purgeLocked ref) w := by
  subst hkey
  have hforget : ∀ {w}, N.Stands sure j ref.recordKey none none w →
      Goes proc code N sure j k ref.recordKey none
        (fun _ => N.Stands sure j ref.recordKey none none) (forget ref.recordKey) w := by
    refine fun hw => goes_change (fun _ w hs _ _ => hs) (fun _ data w hs hi hed => ?_)
      (fun _ _ hs => hs) _ hw
    simp only [forgetEdit, mk.injEq, true_and] at hed
    split_ifs at hed
    cases hed
    refine ⟨⟨fun q k ids hk => hany _ _ _ _ (hi.cached q k ids hk), fun k ids hk => ?_⟩,
      hany _ _, nofun, nofun,
      fun hsure id hid => (hs.left hsure id hid).imp_right (hany _ _ _ _)⟩
    rw [World.update, GoMap.lookup_erase_eq] at hk
    split_ifs at hk
    exact hany _ _ _ _ (hi.recorded k ids hk)
  refine .next (fun a w hs => ?_) (goes_any rfl nofun hw)
  cases a with
  | none => exact .pure hs
  | some ids =>
    refine .next (fun _ w hs => ?_) (goes_must (goes_any rfl nofun hs))
    refine .next (fun _ w hs => ?_) (hforget hs)
    exact goes_any rfl nofun hs

end steps

section restore

variable {κ α : Type} {proc : κ → ℕ} {code : κ → Prog Op Op.Ans α} {j : ℕ} {k : κ} {w : World}

variable {tuples : List Tuple} {model : String} {sum : String → String}

/-- A restore fills the store it has made. -/
theorem goes_fill {N : Notion} {sure : Prop} {key : String} {r : Option ℕ} {created : ℕ}
    (hw : N.Stands sure j key r (some created) w) : Goes proc code N sure j k key (some created)
      (fun ids w => ids.store = created ∧ N.Stands sure j key r (some created) w)
      (fill sum created model tuples) w := by
  refine .next (fun _ w hs => ?_) (goes_need_any (goes_any rfl nofun hw))
  exact .next (fun _ _ hs => .pure ⟨rfl, hs⟩) (goes_sendAll _ hs)

/-- **`Restore` records no id that was not made for the key.** -/
theorem restore_safe {ref : Ref} (hw : named.Stands False j ref.recordKey none none w) :
    Goes proc code named False j k ref.recordKey none
      (fun _ => named.Stands False j ref.recordKey none none) (restore sum ref model tuples) w := by
  refine goes_locked hw fun {w} hw => ?_
  refine .next (fun _ w hs => ?_) (goes_purgeLocked rfl (fun _ _ _ _ h => h) hw)
  refine .next (fun _ w hs => ?_) (goes_need (goes_createStore rfl hs))
  refine .bind (.attempt (.mono (fun _ w hs => ?_) (fun _ w hs => ?_) (goes_fill hs)))
  · obtain ⟨rfl, hs⟩ := hs
    refine .next (fun _ w hs => ?_) (goes_save _ ⟨hs.made, nofun, nofun⟩)
    exact .mono (fun _ _ hs => hs.forget) (fun _ _ h => h) (goes_set hs)
  · exact .next (fun _ _ hs => .throw hs) (goes_discard hs)

end restore

/-! ### Pools of calls -/

/-- A call of `Resolve` in a process. -/
structure Resolving where
  proc : ℕ
  entry : Entry
deriving DecidableEq

/-- Processes that resolve components. -/
def resolvers (sum : String → String) :
    System World Resolving Op Op.Ans (Except Err StoreIDs) Outcome Empty :=
  arbiters Resolving.proc fun c => (resolve sum c.entry).run

/-- A call on the stores, by the process it runs in. -/
inductive StoreCall where
  | resolve (proc : ℕ) (e : Entry)
  | restore (proc : ℕ) (ref : Ref) (model : String) (tuples : List Tuple)
  | purge (proc : ℕ) (ref : Ref)

/-- The process of a call. -/
def StoreCall.proc : StoreCall → ℕ
  | .resolve p _ | .restore p _ _ _ | .purge p _ => p

/-- What a call runs. -/
def StoreCall.code (sum : String → String) : StoreCall → Run Unit
  | .resolve _ e => do
    let _ ← Arbiter.resolve sum e
    pure ()
  | .restore _ ref model tuples => Arbiter.restore sum ref model tuples
  | .purge _ ref => Arbiter.purge ref

/-- Processes that resolve, restore and purge. -/
def keepers (sum : String → String) :
    System World StoreCall Op Op.Ans (Except Err Unit) Outcome Empty :=
  arbiters StoreCall.proc fun c => (c.code sum).run

/-- A call that begins has nothing in its hands. -/
theorem stands_begin {N : Notion} {sure : Prop} {κ : Type} {calls : List κ} {key : String}
    (hw : (N.spec κ sure).inv calls w) : N.Stands sure calls.length key none none w := by
  refine ⟨nofun, nofun, fun _ _ hid => ?_⟩
  obtain ⟨m, hm, hmaker, -⟩ := hid
  exact absurd (hw.2 m (mem_of_getElem? hm) _ hmaker) (lt_irrefl _)

theorem inv_begin {N : Notion} {sure : Prop} {κ : Type} {calls : List κ} {c : κ}
    (hw : (N.spec κ sure).inv calls w) : (N.spec κ sure).inv (calls ++ [c]) w :=
  ⟨hw.1, fun m hm b hb => by
    rw [length_append]
    exact Nat.lt_add_right _ (hw.2 m hm b hb)⟩

/-- What a call of `Resolve` has to show when it has ended. -/
def Resolved (j : ℕ) (c : Resolving) (a : Except Err StoreIDs) (w : World) : Prop :=
  agreed.Stands True j c.entry.ref.recordKey (a.toOption.map StoreIDs.store) none w

/-- Every call that resolves keeps the invariant and ends as it should. -/
theorem resolvers_sound (sum : String → String) :
    Sound (resolvers sum) (agreed.spec Resolving True) Resolved where
  refl _ _ _ := .refl _
  trans _ _ _ _ _ := .trans
  env e := nomatch e
  begin calls c w hw := by
    refine ⟨inv_begin hw, SafeE.safe (fun _ w hs => ?_) (fun e w hs => ?_)
      (resolve_safe rfl (stands_begin hw))⟩
    · exact hs
    · exact hs

/-- So does every call that resolves, restores or purges. -/
theorem keepers_sound (sum : String → String) :
    Sound (keepers sum) (named.spec StoreCall False) fun _ _ _ _ => True where
  refl _ _ _ := .refl _
  trans _ _ _ _ _ := .trans
  env e := nomatch e
  begin calls c w hw := by
    refine ⟨inv_begin hw, ?_⟩
    cases c with
    | resolve p e =>
      refine SafeE.safe (Q := fun _ _ => True) (E := fun _ _ => True) (fun _ _ _ => trivial)
        (fun _ _ _ => trivial) (.bind (.mono (fun _ _ _ => .pure trivial)
        (fun _ _ _ => trivial) (resolve_safe rfl (stands_begin hw))))
    | restore p ref _ _ =>
      exact SafeE.safe (fun _ _ _ => trivial) (fun _ _ _ => trivial)
        (restore_safe (stands_begin hw))
    | purge p ref =>
      exact SafeE.safe (fun _ _ _ => trivial) (fun _ _ _ => trivial) (goes_locked (stands_begin hw)
          (goes_purgeLocked rfl fun _ _ _ _ h => h))

/-- Each process remembers stores that are recorded, and the stores there are were made
before. -/
structure World.Loaded (w : World) : Prop where
  cached : ∀ p key ids, (w.procs p).ids.lookup key = some ids → w.storeOf key = some ids.store
  made : ∀ m ∈ w.made, m.maker = none

/-- What is recorded and remembered under a key is a store made for it. -/
structure World.Kept (w : World) : Prop where
  cached : ∀ p key ids, (w.procs p).ids.lookup key = some ids → w.IsFor key ids.store
  recorded : ∀ key ids, w.record.lookup key = some ids → w.IsFor key ids.store
  made : ∀ m ∈ w.made, m.maker = none

/-- Deletions are carried out, and no answer to the creation of a store is lost. -/
def CreationsTold (p : Pool World Resolving Op Op.Ans (Except Err StoreIDs))
    (m : Threads.Move Resolving Outcome Empty) : Prop := (agreed.spec Resolving True).Allows p m

/-- What is asked of a run whose deletions are carried out, and nothing else. -/
def deletesDone : Spec World Resolving Op Outcome :=
  { agreed.spec Resolving True with cond := fun _ _ i f _ _ => i.deletes = true → f = .done }

/-- No delete of the run fails. -/
def DeletesSucceed (p : Pool World Resolving Op Op.Ans (Except Err StoreIDs))
    (m : Threads.Move Resolving Outcome Empty) : Prop := deletesDone.Allows p m

/-- The calls of `Resolve` agree: those that succeeded for one component have one store,
which is the recorded one, and of the stores that a call that has ended made, any other is
deleted. -/
structure Agreed (p : Pool World Resolving Op Op.Ans (Except Err StoreIDs)) : Prop where
  same : ∀ j j' c c' ids ids', p.calls[j]? = some c → p.calls[j']? = some c' →
    c.entry.ref = c'.entry.ref → p.answer j = some (.ok ids) → p.answer j' = some (.ok ids') →
    ids.store = ids'.store
  recorded : ∀ j c ids, p.calls[j]? = some c → p.answer j = some (.ok ids) →
    p.shared.storeOf c.entry.ref.recordKey = some ids.store
  others : ∀ j c a, p.calls[j]? = some c → p.answer j = some a → ∀ id, p.shared.LeftBy j id →
    p.shared.storeOf c.entry.ref.recordKey = some id

/-- **Processes agree on one store per entry.** -/
theorem agreed_of_run {ms : List (Threads.Move Resolving Outcome Empty)}
    {p : Pool World Resolving Op Op.Ans (Except Err StoreIDs)} (hw : w.Loaded)
    (hm : Runs.Meets (resolvers sum).step CreationsTold (Pool.start w) ms)
    (hr : Runs.run (resolvers sum).step (Pool.start w) ms = some p) : Agreed p := by
  have hp := (resolvers_sound sum).run (holds_start ⟨⟨hw.cached, fun _ ids hk => by
    simp [agreed, World.storeOf, hk]⟩, fun m hm b hb => by simp [hw.made m hm] at hb⟩) hm hr
  have hended : ∀ {j c a}, p.calls[j]? = some c → p.answer j = some a → Resolved j c a p.shared := by
    intro j c a hc ha
    obtain ⟨w', hrely, hres⟩ := hp.ended hc ha
    exact Notion.Stands.rely hres hrely
  have hrecorded : ∀ {j c ids}, p.calls[j]? = some c → p.answer j = some (.ok ids) →
      p.shared.storeOf c.entry.ref.recordKey = some ids.store :=
    fun hc ha => (hended hc ha).right _ rfl
  refine ⟨fun j _ c _ ids _ hc hc' heq ha ha' => ?_, fun _ _ _ => hrecorded,
    fun j c a hc ha id hid => ?_⟩
  · have h := hrecorded hc ha
    rw [heq, hrecorded hc' ha'] at h
    exact (some.inj h).symm
  · exact ((hended hc ha).left trivial id hid).resolve_left (by simp)

/-- **Two components never have one store**, whatever is resolved, restored and purged. -/
theorem stores_differ {ms : List (Threads.Move StoreCall Outcome Empty)}
    {p : Pool World StoreCall Op Op.Ans (Except Err Unit)} (hw : w.Kept)
    (hr : Runs.run (keepers sum).step (Pool.start w) ms = some p) (ref ref' : Ref)
    {ids ids' : StoreIDs} (h : p.shared.record.lookup ref.recordKey = some ids)
    (h' : p.shared.record.lookup ref'.recordKey = some ids') (hne : ref ≠ ref') :
    ids.store ≠ ids'.store := by
  have hallows := Spec.allows_of_cond (S := named.spec StoreCall False) (ρ := Op.Ans)
    (α := Except Err Unit) (χ := Empty) fun _ _ _ _ _ _ h => absurd h id
  have hp := (keepers_sound sum).run (holds_start ⟨⟨hw.cached, hw.recorded⟩, fun m hm b hb => by
    simp [hw.made m hm] at hb⟩) (Runs.meets_of_always hallows _ ms) hr
  intro heq
  obtain ⟨m, hm, hkey⟩ := hp.inv.1.recorded _ _ h
  obtain ⟨m', hm', hkey'⟩ := hp.inv.1.recorded _ _ h'
  rw [heq, hm'] at hm
  cases hm
  exact hne (Ref.recordKey_inj (hkey.symm.trans hkey'))

/-- **One store for each entry.**  Of any number of processes that resolve entries,
interleaved in any way and failing anywhere as long as deletions are carried out and no answer
to a creation is lost, the calls that succeed for one component have one store, the recorded
one, and every other store a call that has ended made is deleted; and over any run of calls
that resolve, restore and purge, the stores recorded for two components are never the same. -/
theorem one_store_per_entry (sum : String → String) :
    (∀ {w : World} {ms : List (Threads.Move Resolving Outcome Empty)}
        {p : Pool World Resolving Op Op.Ans (Except Err StoreIDs)}, w.Loaded →
      Runs.Meets (resolvers sum).step CreationsTold (Pool.start w) ms →
      Runs.run (resolvers sum).step (Pool.start w) ms = some p → Agreed p) ∧
    ∀ {w : World} {ms : List (Threads.Move StoreCall Outcome Empty)}
        {p : Pool World StoreCall Op Op.Ans (Except Err Unit)}, w.Kept →
      Runs.run (keepers sum).step (Pool.start w) ms = some p → ∀ (ref ref' : Ref)
        {ids ids' : StoreIDs}, p.shared.record.lookup ref.recordKey = some ids →
        p.shared.record.lookup ref'.recordKey = some ids' → ref ≠ ref' → ids.store ≠ ids'.store :=
  ⟨agreed_of_run, stores_differ⟩

instance (p : Pool World Resolving Op Op.Ans (Except Err StoreIDs))
    (m : Threads.Move Resolving Outcome Empty) :
    Decidable (CreationsTold p m) :=
  haveI : ∀ j c i f calls w, Decidable ((agreed.spec Resolving True).cond j c i f calls w) :=
    fun _ _ i f _ _ => inferInstanceAs
      (Decidable (True → (i.deletes = true → f = .done) ∧ (i.creates = true → f ≠ .lost)))
  inferInstanceAs (Decidable ((agreed.spec Resolving True).Allows p m))

instance (p : Pool World Resolving Op Op.Ans (Except Err StoreIDs))
    (m : Threads.Move Resolving Outcome Empty) :
    Decidable (DeletesSucceed p m) :=
  haveI : ∀ j c i f calls w, Decidable (deletesDone.cond j c i f calls w) :=
    fun _ _ i f _ _ => inferInstanceAs (Decidable (i.deletes = true → f = .done))
  inferInstanceAs (Decidable (deletesDone.Allows p m))

/-- The wiki of one tenant. -/
def wiki : Entry :=
  ⟨⟨"acme", "wiki", by decide, by decide⟩, "model", "acme", false,
    [⟨"user:acme/1", "owner", "doc:1"⟩]⟩

/-- Nothing was made, and each process has loaded a record with nothing in it. -/
def nothingMade : World := ⟨[], 0, ∅, fun _ => ⟨true, ∅, []⟩, fun _ => []⟩

/-- Two processes make a store for the wiki; the second claims its own first, and the first
finds that record. -/
def bothCreate : List (Threads.Move Resolving Outcome Empty) :=
  .begin ⟨0, wiki⟩ :: .begin ⟨1, wiki⟩ :: replicate 5 (.run 0 .done) ++
    replicate 16 (.run 1 .done) ++ replicate 5 (.run 0 .done)

/-- The chat of that tenant. -/
def chat : Ref := ⟨"acme", "chat", by decide, by decide⟩

/-- The wiki is resolved, and the chat is restored while that goes on. -/
def resolveAndRestore : List (Threads.Move StoreCall Outcome Empty) :=
  .begin (.resolve 0 wiki) :: .begin (.restore 0 chat "model" []) ::
    replicate 5 (.run 0 .done) ++ replicate 9 (.run 1 .done) ++
    replicate 12 (.run 0 .done)

/-- Two calls of `Resolve` have one store, and the restored one has another. -/
theorem one_store_for_the_wiki :
    (∃ p, Runs.run (resolvers id).step (Pool.start nothingMade) bothCreate = some p ∧
      Agreed p ∧ ∃ ids, p.answer 0 = some (.ok ids) ∧ p.answer 1 = some (.ok ids)) ∧
    ∃ p ids ids', Runs.run (keepers id).step (Pool.start nothingMade) resolveAndRestore = some p ∧
      p.shared.record.lookup wiki.ref.recordKey = some ids ∧
      p.shared.record.lookup chat.recordKey = some ids' ∧ ids.store ≠ ids'.store := by
  constructor
  · have hr : Runs.run (resolvers id).step (.start nothingMade) bothCreate = some _ :=
      (some_get (by decide +kernel)).symm
    have hloaded : nothingMade.Loaded :=
      ⟨nofun, nofun⟩
    exact ⟨_, hr, (one_store_per_entry id).1 hloaded (by decide +kernel) hr,
      ⟨1, some 0, "model", wiki.tuples, false⟩, by decide +kernel, by decide +kernel⟩
  · have hr : Runs.run (keepers id).step (.start nothingMade) resolveAndRestore = some _ :=
      (some_get (by decide +kernel)).symm
    have hkept : nothingMade.Kept :=
      ⟨nofun, nofun, nofun⟩
    refine ⟨_, ⟨0, some 0, "model", wiki.tuples, false⟩, ⟨1, some 0, "model", [], false⟩, hr,
      by decide +kernel, by decide +kernel, ?_⟩
    exact (one_store_per_entry id).2 hkept hr wiki.ref chat (by decide +kernel)
      (by decide +kernel) (by decide)

/-- Two processes resolve the wiki; the answer to the first one's creation is lost. -/
def answerLost : List (Threads.Move Resolving Outcome Empty) :=
  .begin ⟨0, wiki⟩ :: .begin ⟨1, wiki⟩ :: replicate 3 (.run 0 .done) ++ [.run 0 .lost] ++
    .run 0 .done :: replicate 16 (.run 1 .done)

/-- **A store that nobody knows of.**  The first `Resolve` fails when the answer to its creation is
lost, the second makes another store and succeeds, and the first store stays: it is not the
recorded one, and no call will delete it. -/
theorem store_left_behind :
    Runs.Meets (resolvers id).step DeletesSucceed (Pool.start nothingMade) answerLost ∧
      ∃ p, Runs.run (resolvers id).step (Pool.start nothingMade) answerLost = some p ∧
        p.answer 0 = some (.error .create) ∧ (∃ ids, p.answer 1 = some (.ok ids)) ∧
        p.shared.LeftBy 0 0 ∧ p.shared.storeOf wiki.ref.recordKey = some 1 ∧ ¬Agreed p := by
  have hr : Runs.run (resolvers id).step (.start nothingMade) answerLost = some _ :=
    (some_get (by decide +kernel)).symm
  have hleft : ((Runs.run (resolvers id).step (.start nothingMade) answerLost).get
      (by decide +kernel)).shared.LeftBy 0 0 :=
    ⟨⟨wiki.ref, some 0, [], some .empty⟩, by decide +kernel, rfl, rfl⟩
  refine ⟨by decide +kernel, _, hr, by decide +kernel,
    ⟨⟨1, some 0, "model", wiki.tuples, false⟩, by decide +kernel⟩, hleft, by decide +kernel, ?_⟩
  intro h
  have := h.others 0 ⟨0, wiki⟩ (.error .create) (by decide +kernel) (by decide +kernel) 0 hleft
  exact absurd this (by decide +kernel)

end Gentian.Arbiter
