/-
# An OpenFGA store and the client that writes to it

`internal/openfga/openfga.go` (`Tuple`, `MaxWrite`, `Client.Write`, `Client.Read`) over a
server with OpenFGA's documented semantics, which the test store `memory` of
`internal/membership/membership_test.go` follows: a request is atomic, writing a tuple that
exists or deleting one that does not fails it, and so does naming a tuple twice in one request.

`Client.Write` sends the deletes and then the writes, at most `MaxWrite` of them a request, and
stops at the first request that is not answered.  `stopped` is the number of requests that took
effect, and `mem_write` says what the store holds then.
-/

import Gentian.Base.Batches
import Gentian.Base.GoStrings

namespace Gentian.OpenFGA

open Batches GoStrings List Nat

/-- `Tuple`: a relationship as OpenFGA's API spells it.  An empty field of a
filter is left out. -/
structure Tuple where
  user : String
  relation : String
  object : String
deriving DecidableEq

/-- `MaxWrite`: OpenFGA's limit on tuples per write request. -/
def maxWrite : ℕ := 100

/-- `key` of `internal/director/authz/roles.go`: what plans of writes are sorted
by. -/
def key (t : Tuple) : String := t.user ++ "|" ++ t.relation ++ "|" ++ t.object

/-- `sort.Slice(ts, func(i, j) { return key(ts[i]) < key(ts[j]) })`. -/
def sortByKey (ts : List Tuple) : List Tuple := ts.insertionSort fun a b => key a ≤ key b

variable {ts : List Tuple} {t : Tuple}

theorem mem_sortByKey : t ∈ sortByKey ts ↔ t ∈ ts :=
  mem_insertionSort _

theorem sortByKey_perm (ts : List Tuple) : (sortByKey ts).Perm ts := perm_insertionSort _ _

theorem pairwise_sortByKey (ts : List Tuple) : (sortByKey ts).Pairwise fun a b => key a ≤ key b :=
  haveI : Std.Total fun a b : Tuple => key a ≤ key b := ⟨fun a b => le_total (key a) (key b)⟩
  haveI : IsTrans Tuple fun a b => key a ≤ key b := ⟨fun _ _ _ => le_trans⟩
  pairwise_insertionSort _ _

variable {f : Tuple} {p : Tuple → Bool}

/-- What sorts first is taken first. -/
theorem take_sortByKey (h : ∀ a ∈ ts, ∀ b ∈ ts, p a → p b = false → key a < key b) :
    (sortByKey ts).take (ts.countP p) = (sortByKey ts).filter p := by
  have hsplit : ∀ l : List Tuple, (∀ a ∈ l, a ∈ ts) → (l.Pairwise fun a b => key a ≤ key b) →
      l.take (l.countP p) = l.filter p := by
    intro l hl hsort
    induction l with
    | nil => rfl
    | cons a l ih =>
      rw [pairwise_cons] at hsort
      rw [forall_mem_cons] at hl
      cases ha : p a with
      | true =>
        rw [countP_cons_of_pos ha, filter_cons_of_pos ha, take_succ_cons, ih hl.2 hsort.2]
      | false =>
        -- nothing of the kind comes after a tuple of another kind
        have hrest : ∀ b ∈ l, p b = false := fun b hb => by
          by_contra hpb
          exact absurd (h b (hl.2 b hb) a hl.1 (by simpa using hpb) ha) (not_lt.2 (hsort.1 b hb))
        have hnone : ∀ b ∈ a :: l, ¬p b := by
          simpa [ha] using hrest
        rw [filter_eq_nil_iff.2 hnone, countP_eq_zero.2 hnone, take_zero]
  rw [← hsplit _ (fun a ha => mem_sortByKey.1 ha) (pairwise_sortByKey ts),
    (sortByKey_perm ts).countP_eq]

theorem mem_take_sortByKey {k : ℕ} {a b : Tuple} (hb : b ∈ (sortByKey ts).take k)
    (ha : a ∈ ts) (hlt : key a < key b) : a ∈ (sortByKey ts).take k := by
  have ha' := mem_sortByKey.2 ha
  rw [← take_append_drop k (sortByKey ts), mem_append] at ha'
  refine ha'.resolve_right fun hdrop => ?_
  have hsort := pairwise_sortByKey ts
  rw [← take_append_drop k (sortByKey ts), pairwise_append] at hsort
  exact absurd hlt (not_lt.2 (hsort.2.2 b hb a hdrop))

/-- Whether an object is a bare type (`group:`): its only colon ends it. -/
def bareType (object : String) : Bool :=
  object.toList.getLast? = some ':' && decide (':' ∉ object.toList.dropLast)

theorem bareType_append {ty id : String} (hty : ':' ∈ ty.toList) (hid : id ≠ "") :
    bareType (ty ++ id) = false := by
  have hne : id.toList ≠ [] := fun h => hid (String.toList_inj.1 h)
  have hmem : ':' ∈ (ty ++ id).toList.dropLast := by
    rw [String.toList_append, dropLast_append_of_ne_nil hne]
    exact mem_append_left _ hty
  rw [bareType, decide_eq_false (not_not.2 hmem), Bool.and_false]

/-- Whether a stored tuple answers a read filter: each field given is equal, and
an object given as a bare type is answered by every object of it. -/
def Tuple.answers (t f : Tuple) : Bool :=
  (f.user = "" || f.user = t.user) && (f.relation = "" || f.relation = t.relation) &&
    (f.object = "" || f.object = t.object || (bareType f.object && hasPrefix t.object f.object))

/-- What answers a filter. -/
theorem answers_iff (hf : bareType f.object = false) :
    t.answers f ↔ (f.user = "" ∨ f.user = t.user) ∧
      (f.relation = "" ∨ f.relation = t.relation) ∧ (f.object = "" ∨ f.object = t.object) := by
  simp [Tuple.answers, hf, and_assoc]

/-- What answers a filter that names a type alone. -/
theorem answers_type_iff (hf : bareType f.object) : t.answers f ↔ (f.user = "" ∨ f.user = t.user) ∧
      (f.relation = "" ∨ f.relation = t.relation) ∧ hasPrefix t.object f.object := by
  have hne : f.object ≠ "" := fun h => by
    rw [h] at hf
    cases hf
  have heq : f.object = t.object → hasPrefix t.object f.object := fun h => by
    rw [h]
    exact hasPrefix_iff.2 ⟨"", by simp⟩
  simp only [Tuple.answers, hf, hne, decide_false, Bool.false_or, Bool.true_and,
    Bool.and_eq_true, Bool.or_eq_true, decide_eq_true_eq, and_assoc]
  exact and_congr_right fun _ => and_congr_right fun _ => or_iff_right_of_imp heq

/-- The tuples of a store, each once. -/
structure Store where
  tuples : List Tuple
  nodup : tuples.Nodup
deriving DecidableEq

namespace Store

instance : Membership Tuple Store := ⟨fun s t => t ∈ s.tuples⟩

instance (t : Tuple) (s : Store) : Decidable (t ∈ s) := inferInstanceAs (Decidable (t ∈ s.tuples))

variable {s : Store} {t : Tuple}

/-- The store without tuples. -/
def empty : Store := ⟨[], nodup_nil⟩

@[simp] theorem not_mem_empty (t : Tuple) : t ∉ empty := not_mem_nil

/-- `Client.Read`, its pages followed to the end: the tuples that answer the
filter. -/
def read (s : Store) (f : Tuple) : List Tuple := s.tuples.filter fun t => t.answers f

@[simp] theorem mem_read : t ∈ s.read f ↔ t ∈ s ∧ t.answers f :=
  mem_filter

/-- A read of one tuple tells whether it is there. -/
theorem read_eq_nil_iff (hu : t.user ≠ "") (hr : t.relation ≠ "")
    (ho : t.object ≠ "") (hbare : bareType t.object = false) : s.read t = [] ↔ t ∉ s := by
  rw [eq_nil_iff_forall_not_mem]
  simp only [mem_read, answers_iff hbare, hu, hr, ho, false_or]
  constructor
  · exact fun h ht => h t ⟨ht, rfl, rfl, rfl⟩
  · rintro h t' ⟨ht', hu', hr', ho'⟩
    have heq : t = t' := by
      cases t; cases t'
      simp_all
    exact h (heq ▸ ht')

/-- What a read of an object answers. -/
theorem mem_read_object {object : String} (ho : object ≠ "") (hbare : bareType object = false) :
    t ∈ s.read ⟨"", "", object⟩ ↔ t ∈ s ∧ t.object = object := by
  rw [mem_read, answers_iff hbare]
  simp only [true_or, true_and, ho, false_or, eq_comm]

/-- What a read of a user's relation to a type answers. -/
theorem mem_read_type {user relation type : String} (hu : user ≠ "")
    (hr : relation ≠ "") (hbare : bareType type) : t ∈ s.read ⟨user, relation, type⟩ ↔
      t ∈ s ∧ t.user = user ∧ t.relation = relation ∧ hasPrefix t.object type := by
  rw [mem_read, answers_type_iff hbare]
  simp only [hu, hr, false_or, eq_comm]

theorem nodup_read (s : Store) (f : Tuple) : (s.read f).Nodup := s.nodup.filter _

/-- The store without the tuples `ts`. -/
def without (s : Store) (ts : List Tuple) : Store :=
  ⟨s.tuples.filter fun t => decide (t ∉ ts), s.nodup.filter _⟩

@[simp] theorem mem_without : t ∈ s.without ts ↔ t ∈ s ∧ t ∉ ts := by
  change t ∈ s.tuples.filter _ ↔ _
  rw [mem_filter, decide_eq_true_iff]
  rfl

/-- The store with the tuples `ts`, none of which it holds, after its own. -/
def with_ (s : Store) (ts : List Tuple) (h : ts.Nodup ∧ ∀ t ∈ ts, t ∉ s) : Store :=
  ⟨s.tuples ++ ts, s.nodup.append h.1 fun t ht ht' => h.2 t ht' ht⟩

@[simp] theorem mem_with_ {h} : t ∈ s.with_ ts h ↔ t ∈ s ∨ t ∈ ts :=
  mem_append

end Store

/-- One write request: it carries either deletes or writes. -/
inductive Request where
  | deletes (ts : List Tuple)
  | writes (ts : List Tuple)
deriving DecidableEq

/-- The server's answer to a request: the store after it, or `none` when it
refuses, which leaves the store as it was. -/
def Store.serve (s : Store) : Request → Option Store
  | .deletes ts => if ts.Nodup ∧ ∀ t ∈ ts, t ∈ s then some (s.without ts) else none
  | .writes ts => if h : ts.Nodup ∧ ∀ t ∈ ts, t ∉ s then some (s.with_ ts h) else none

/-- The tuples a request writes. -/
def Request.adds : Request → List Tuple
  | .deletes _ => []
  | .writes ts => ts

/-- The tuples a request deletes. -/
def Request.removes : Request → List Tuple
  | .deletes ts => ts
  | .writes _ => []

variable {s : Store} {req : Request}

/-- **What a request that took effect leaves.** -/
theorem Store.mem_serve {s' : Store} (h : s.serve req = some s') (t : Tuple) :
    t ∈ s' ↔ (t ∈ s ∧ t ∉ req.removes) ∨ t ∈ req.adds := by
  cases req with
  | deletes ts =>
    obtain ⟨-, h⟩ := Option.ite_none_right_eq_some.1 h
    cases h
    simp [Request.adds, Request.removes]
  | writes ts =>
    obtain ⟨hok, h⟩ := Option.dite_none_right_eq_some.1 h
    cases h
    simp [Request.adds, Request.removes]

/-- What is written was not there. -/
theorem Store.adds_of_serve {s' : Store} (h : s.serve req = some s') :
    req.adds.Nodup ∧ ∀ t ∈ req.adds, t ∉ s := by
  cases req with
  | deletes ts => exact ⟨nodup_nil, nofun⟩
  | writes ts =>
    obtain ⟨hok, -⟩ := Option.dite_none_right_eq_some.1 h
    exact hok

/-- The requests of `Client.Write`, in the order they are sent. -/
def requests (writes deletes : List Tuple) : List Request :=
  (batches maxWrite deletes).map .deletes ++ (batches maxWrite writes).map .writes

/-- Requests sent one after another until one is refused: the store then, and
whether all were answered. -/
def sendAll : Store → List Request → Store × Bool
  | s, [] => (s, true)
  | s, r :: rs =>
    match s.serve r with
    | none => (s, false)
    | some s' => sendAll s' rs

/-- The number of requests that take effect when they are sent one after
another. -/
def served : Store → List Request → ℕ
  | _, [] => 0
  | s, r :: rs =>
    match s.serve r with
    | none => 0
    | some s' => served s' rs + 1

/-- What becomes of the connection during a `Write`: every request reaches the
server and is answered, or the call ends with an error once `k` requests have
reached it. -/
inductive Fate where
  | answered
  | interrupted (k : ℕ)
deriving DecidableEq

/-- What a store answers to a call that reads and then writes: one of its reads
is not answered, or all are and the write meets the fate given. -/
inductive CallFate where
  | unread
  | read (write : Fate)
deriving DecidableEq

/-- The requests of a `Write` that reach the server. -/
def reached (writes deletes : List Tuple) : Fate → List Request
  | .answered => requests writes deletes
  | .interrupted k => (requests writes deletes).take k

/-- `Client.Write`: the store it leaves and whether it returned without an
error. -/
def write (s : Store) (writes deletes : List Tuple) (fate : Fate) : Store × Bool :=
  let out := sendAll s (reached writes deletes fate)
  (out.1, out.2 && decide (fate = .answered))

/-- The number of requests of a `Write` that took effect. -/
def stopped (s : Store) (writes deletes : List Tuple) (fate : Fate) : ℕ :=
  served s (reached writes deletes fate)

/-- The deletes that took effect: those of the requests up to the last. -/
def deleted (s : Store) (writes deletes : List Tuple) (fate : Fate) : List Tuple :=
  deletes.take (stopped s writes deletes fate * maxWrite)

/-- The writes that took effect: those of the requests after the deletes' and up
to the last. -/
def written (s : Store) (writes deletes : List Tuple) (fate : Fate) : List Tuple :=
  writes.take ((stopped s writes deletes fate - (batches maxWrite deletes).length) * maxWrite)

/-! ### What a run of requests does -/

theorem maxWrite_pos : 0 < maxWrite := by decide

variable {writes : List Tuple}

theorem requests_writes (h : writes ≠ []) :
    requests writes [] = .writes (writes.take maxWrite) :: requests (writes.drop maxWrite) [] := by
  obtain ⟨-, -, rfl⟩ := exists_cons_of_ne_nil h
  simp only [requests, batches_nil, map_nil, nil_append]
  rw [batches_cons maxWrite_pos, map_cons]

/-- The first request has what sorts first. -/
theorem requests_first (h : ∀ a ∈ ts, ∀ b ∈ ts, p a → p b = false → key a < key b)
    (hcount : ts.countP p = maxWrite) :
    ∃ reqs, requests (sortByKey ts) [] = .writes ((sortByKey ts).filter p) :: reqs := by
  have hne : sortByKey ts ≠ [] := by
    intro hnil
    rw [← (sortByKey_perm ts).countP_eq, hnil, countP_nil] at hcount
    cases hcount
  rw [requests_writes hne, ← hcount, take_sortByKey h]
  exact ⟨_, rfl⟩

/-- The requests write what is to be written. -/
theorem flatMap_adds_requests (writes deletes : List Tuple) :
    (requests writes deletes).flatMap Request.adds = writes := by
  have hdel : ∀ ds : List (List Tuple), (ds.map Request.deletes).flatMap Request.adds = [] := by
    intro ds
    rw [flatMap_map]
    exact flatMap_eq_nil_iff.2 fun d _ => rfl
  rw [requests, flatMap_append, hdel, flatMap_map]
  exact flatMap_id'.trans (flatten_batches maxWrite_pos writes)

/-- And delete what is to be deleted. -/
theorem flatMap_removes_requests (writes deletes : List Tuple) :
    (requests writes deletes).flatMap Request.removes = deletes := by
  have hwri : ∀ ws : List (List Tuple), (ws.map Request.writes).flatMap Request.removes = [] := by
    intro ws
    rw [flatMap_map]
    exact flatMap_eq_nil_iff.2 fun w _ => rfl
  rw [requests, flatMap_append, hwri, append_nil, flatMap_map]
  exact flatMap_id'.trans (flatten_batches maxWrite_pos deletes)

theorem served_le (s : Store) (rs : List Request) : served s rs ≤ rs.length := by
  induction rs generalizing s with
  | nil => exact le_refl _
  | cons r rs ih =>
    rw [served]
    split
    · exact zero_le _
    · exact succ_le_succ (ih _)

/-- Requests one after the other. -/
theorem sendAll_append (s : Store) (rs rs' : List Request) : sendAll s (rs ++ rs') =
      if (sendAll s rs).2 then sendAll (sendAll s rs).1 rs' else ((sendAll s rs).1, false) := by
  induction rs generalizing s with
  | nil => simp [sendAll]
  | cons r rs ih =>
    cases h : s.serve r with
    | none => simp [sendAll, h]
    | some s' => simpa [sendAll, h] using ih s'

theorem served_append (s : Store) (rs rs' : List Request) : served s (rs ++ rs') =
      if (sendAll s rs).2 then rs.length + served (sendAll s rs).1 rs' else served s rs := by
  induction rs generalizing s with
  | nil => simp [sendAll]
  | cons r rs ih =>
    cases h : s.serve r with
    | none => simp [sendAll, served, h]
    | some s' =>
      simp only [cons_append, served, sendAll, h, ih s', length_cons]
      split_ifs
      · omega
      · rfl

/-- All succeeded when all were served. -/
theorem sendAll_snd_iff (s : Store) (rs : List Request) :
    (sendAll s rs).2 ↔ served s rs = rs.length := by
  induction rs generalizing s with
  | nil => simp [sendAll, served]
  | cons r rs ih =>
    cases h : s.serve r with
    | none => simp [sendAll, served, h]
    | some s' => simpa [sendAll, served, h] using ih s'

/-- What requests of deletes leave. -/
theorem mem_sendAll_deletes (s : Store) (ds : List (List Tuple)) (t : Tuple) :
    t ∈ (sendAll s (ds.map .deletes)).1 ↔
      t ∈ s ∧ t ∉ (ds.take (served s (ds.map .deletes))).flatten := by
  induction ds generalizing s with
  | nil => simp [sendAll]
  | cons d ds ih =>
    rw [map_cons, sendAll, served]
    cases h : s.serve (.deletes d) with
    | none => simp
    | some _ =>
      rw [Store.serve, Option.ite_none_right_eq_some] at h
      obtain ⟨-, h⟩ := h
      cases h
      simp only [ih, Store.mem_without, take_succ_cons, flatten_cons, mem_append, not_or, and_assoc]

/-- What requests of writes leave. -/
theorem mem_sendAll_writes (s : Store) (ws : List (List Tuple)) (t : Tuple) :
    t ∈ (sendAll s (ws.map .writes)).1 ↔
      t ∈ s ∨ t ∈ (ws.take (served s (ws.map .writes))).flatten := by
  induction ws generalizing s with
  | nil => simp [sendAll]
  | cons w ws ih =>
    rw [map_cons, sendAll, served]
    cases h : s.serve (.writes w) with
    | none => simp
    | some _ =>
      rw [Store.serve, Option.dite_none_right_eq_some] at h
      obtain ⟨hw, h⟩ := h
      cases h
      simp only [ih, Store.mem_with_, take_succ_cons, flatten_cons, mem_append, or_assoc]

/-- Deletes come before writes, whatever the fate. -/
theorem reached_eq (writes deletes : List Tuple) (fate : Fate) :
    ∃ a b, reached writes deletes fate = ((batches maxWrite deletes).take a).map .deletes ++
          ((batches maxWrite writes).take b).map .writes ∧
      (b = 0 ∨ (batches maxWrite deletes).length ≤ a) := by
  cases fate with
  | answered =>
    exact ⟨(batches maxWrite deletes).length, (batches maxWrite writes).length,
      by simp [reached, requests], .inr (le_refl _)⟩
  | interrupted k =>
    refine ⟨k, k - (batches maxWrite deletes).length, ?_, by omega⟩
    simp [reached, requests, take_append]

/-- **What a `Write` leaves.**  However it ends, the deletes and the writes that
took effect are those of the requests up to the last one served. -/
theorem mem_write (s : Store) (writes deletes : List Tuple) (fate : Fate) (t : Tuple) :
    t ∈ (write s writes deletes fate).1 ↔
      (t ∈ s ∧ t ∉ deleted s writes deletes fate) ∨ t ∈ written s writes deletes fate := by
  obtain ⟨a, b, hr, hab⟩ := reached_eq writes deletes fate
  set ds := batches maxWrite deletes with hds
  set ws := batches maxWrite writes with hws
  have hdel : deleted s writes deletes fate = (ds.take (stopped s writes deletes fate)).flatten := by
    rw [deleted, flatten_take_batches maxWrite_pos]
  have hwri : written s writes deletes fate =
      (ws.take (stopped s writes deletes fate - ds.length)).flatten := by
    rw [written, flatten_take_batches maxWrite_pos]
  have hD := mem_sendAll_deletes s (ds.take a) t
  have hle := served_le s ((ds.take a).map .deletes)
  rw [length_map, length_take] at hle
  rw [hdel, hwri, write, stopped, hr, sendAll_append, served_append]
  by_cases hok : (sendAll s ((ds.take a).map .deletes)).2
  · have hfull := (sendAll_snd_iff _ _).1 hok
    rw [length_map, length_take] at hfull
    simp only [hok, if_true, length_map, length_take]
    rw [mem_sendAll_writes, hD, hfull]
    have hle' := served_le (sendAll s ((ds.take a).map .deletes)).1 ((ws.take b).map .writes)
    rw [length_map, length_take] at hle'
    rcases hab with rfl | ha
    · -- no write request was sent, and none of the deletes after the first `a`
      rw [take_zero, map_nil, served, take_take]
      simp
    · rw [Nat.min_eq_right ha, Nat.add_sub_cancel_left, take_take, take_take,
        min_eq_left ha, take_of_length_le (le_add_right _ _), take_length,
        min_eq_left (hle'.trans (min_le_left _ _))]
  · have hlt : served s ((ds.take a).map .deletes) ≤ ds.length := hle.trans (min_le_right _ _)
    have ha : served s ((ds.take a).map .deletes) ≤ a := hle.trans (min_le_left _ _)
    simp only [hok, Bool.false_eq_true, if_false]
    rw [hD, Nat.sub_eq_zero_of_le hlt, take_take, Nat.min_eq_left ha]
    simp

variable {deletes : List Tuple} {fate : Fate}

/-- **What a `Write` that returned leaves**: no delete, and every write. -/
theorem mem_write_of_ok (h : (write s writes deletes fate).2) (t : Tuple) :
    t ∈ (write s writes deletes fate).1 ↔ (t ∈ s ∧ t ∉ deletes) ∨ t ∈ writes := by
  rw [write, Bool.and_eq_true, decide_eq_true_eq] at h
  obtain ⟨hall, rfl⟩ := h
  have hst : stopped s writes deletes .answered =
      (batches maxWrite deletes).length + (batches maxWrite writes).length := by
    rw [stopped, (sendAll_snd_iff _ _).1 hall]
    simp [reached, requests]
  rw [mem_write, deleted, written, hst, ← flatten_take_batches maxWrite_pos,
    ← flatten_take_batches maxWrite_pos, Nat.add_sub_cancel_left, take_length,
    take_of_length_le (le_add_right _ _), flatten_batches maxWrite_pos,
    flatten_batches maxWrite_pos]

theorem mem_of_mem_written (h : t ∈ written s writes deletes fate) : t ∈ writes :=
  mem_of_mem_take h

theorem mem_of_mem_deleted (h : t ∈ deleted s writes deletes fate) : t ∈ deletes :=
  mem_of_mem_take h

/-- Deletes of what is there succeed. -/
theorem sendAll_deletes_ok {ds : List (List Tuple)} (hd : ds.flatten.Nodup)
    (hs : ∀ t ∈ ds.flatten, t ∈ s) : (sendAll s (ds.map .deletes)).2 := by
  induction ds generalizing s with
  | nil => rfl
  | cons d ds ih =>
    obtain ⟨hd1, hd2, hdisj⟩ := nodup_append'.1 hd
    have hserve : s.serve (.deletes d) = some (s.without d) :=
      if_pos ⟨hd1, fun t ht => hs t (mem_append_left _ ht)⟩
    rw [map_cons, sendAll, hserve]
    refine ih hd2 fun t ht => Store.mem_without.2 ⟨hs t (mem_append_right _ ht), ?_⟩
    exact fun ht' => hdisj ht' ht

/-- Writes of what is not there succeed. -/
theorem sendAll_writes_ok {ws : List (List Tuple)} (hw : ws.flatten.Nodup)
    (hs : ∀ t ∈ ws.flatten, t ∉ s) : (sendAll s (ws.map .writes)).2 := by
  induction ws generalizing s with
  | nil => rfl
  | cons w ws ih =>
    obtain ⟨hw1, hw2, hdisj⟩ := nodup_append'.1 hw
    have hok : w.Nodup ∧ ∀ t ∈ w, t ∉ s := ⟨hw1, fun t ht => hs t (mem_append_left _ ht)⟩
    have hserve : s.serve (.writes w) = some (s.with_ w hok) := dif_pos hok
    rw [map_cons, sendAll, hserve]
    refine ih hw2 fun t ht ht' => ?_
    rcases Store.mem_with_.1 ht' with h | h
    · exact hs t (mem_append_right _ ht) h
    · exact hdisj h ht

/-- **A plan without conflicts is carried out** when every request is answered:
distinct deletes the store holds, distinct writes it does not. -/
theorem write_answered_ok (hd : deletes.Nodup)
    (hds : ∀ t ∈ deletes, t ∈ s) (hw : writes.Nodup) (hws : ∀ t ∈ writes, t ∉ s) :
    (write s writes deletes .answered).2 := by
  have hfd := flatten_batches maxWrite_pos deletes
  have hfw := flatten_batches maxWrite_pos writes
  have hD : (sendAll s ((batches maxWrite deletes).map .deletes)).2 :=
    sendAll_deletes_ok (by rwa [hfd]) (by rwa [hfd])
  simp only [write, reached, requests, sendAll_append, hD, decide_true, Bool.and_true]
  refine sendAll_writes_ok (by rwa [hfw]) fun t ht ht' => ?_
  rw [hfw] at ht
  exact hws t ht ((mem_sendAll_deletes _ _ _).1 ht').1

/-! ### Writes that take the store as they find it

`WriteOptions.OnDuplicate` and `OnMissing` as `internal/arbiter/openfga.go` (`writeTuples`,
`readAll`) sets them: with `ignore`, a tuple that is there already is no error, nor is one that is
gone already.  A tuple named twice in one request still is. -/

/-- The server's answer to a request with `ignore` on both conflicts. -/
def Store.serveIgnoring (s : Store) : Request → Option Store
  | .deletes ts => if ts.Nodup then some (s.without ts) else none
  | .writes ts =>
    if h : ts.Nodup then
      some (s.with_ (ts.filter fun t => decide (t ∉ s))
        ⟨h.filter _, fun _ ht => of_decide_eq_true (mem_filter.1 ht).2⟩)
    else none

variable {rs : List Request} {r : Request} {s : Store}

/-- **What a request that took effect leaves.** -/
theorem Store.mem_serveIgnoring {s' : Store} {req : Request}
    (h : s.serveIgnoring req = some s') (t : Tuple) :
    t ∈ s' ↔ (t ∈ s ∧ t ∉ req.removes) ∨ t ∈ req.adds := by
  cases req with
  | deletes ts =>
    obtain ⟨-, h⟩ := Option.ite_none_right_eq_some.1 h
    cases h
    simp [Request.adds, Request.removes]
  | writes ts =>
    obtain ⟨hok, h⟩ := Option.dite_none_right_eq_some.1 h
    cases h
    by_cases hs : t ∈ s
    · simp [Request.removes, hs]
    · simp [Request.adds, hs]

/-- Whether requests sent one after another leave a tuple, of those that satisfy `P`
before. -/
def Leaves : List Request → (Tuple → Prop) → Tuple → Prop
  | [], P, t => P t
  | r :: rs, P, t => Leaves rs (fun t => (P t ∧ t ∉ r.removes) ∨ t ∈ r.adds) t

theorem leaves_congr {P Q : Tuple → Prop} (h : ∀ t, P t ↔ Q t) (t : Tuple) :
    Leaves rs P t ↔ Leaves rs Q t := by
  induction rs generalizing P Q with
  | nil => exact h t
  | cons r rs ih => exact ih fun t => by rw [h t]

/-- What requests leave, one after the other. -/
theorem leaves_append (rs rs' : List Request) (P : Tuple → Prop) (t : Tuple) :
    Leaves (rs ++ rs') P t ↔ Leaves rs' (Leaves rs P) t := by
  induction rs generalizing P with
  | nil => exact Iff.rfl
  | cons r rs ih => exact ih _

theorem leaves_deletes (ds : List (List Tuple)) (P : Tuple → Prop) (t : Tuple) :
    Leaves (ds.map .deletes) P t ↔ P t ∧ t ∉ ds.flatten := by
  induction ds generalizing P with
  | nil => simp [Leaves]
  | cons d ds ih =>
    rw [map_cons, Leaves, ih]
    simp [Request.removes, Request.adds, and_assoc]

theorem leaves_writes (ws : List (List Tuple)) (P : Tuple → Prop) (t : Tuple) :
    Leaves (ws.map .writes) P t ↔ P t ∨ t ∈ ws.flatten := by
  induction ws generalizing P with
  | nil => simp [Leaves]
  | cons w ws ih =>
    rw [map_cons, Leaves, ih]
    simp [Request.removes, Request.adds, or_assoc]

/-- **What the requests of one `Client.Write` leave**: no delete, and every write. -/
theorem leaves_requests (writes deletes : List Tuple) (P : Tuple → Prop) (t : Tuple) :
    Leaves (requests writes deletes) P t ↔ (P t ∧ t ∉ deletes) ∨ t ∈ writes := by
  rw [requests, leaves_append, leaves_writes, leaves_deletes, flatten_batches maxWrite_pos,
    flatten_batches maxWrite_pos]

end Gentian.OpenFGA
