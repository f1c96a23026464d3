/-
# Attaching tenants while they may withdraw

`internal/director/authz/tenants.go` (`ReconcileTenants`) over `internal/openfga/openfga.go`
(`Client.Write`).  The tuple `operated_by` is the tenant's consent: it is written when the
tenant is attached, and a tenant that removes it afterwards has withdrawn it.

A call reads what it needs tenant by tenant, then sends its requests one after another, and
may end between any two; a tenant can remove its own tuple at any moment.  Every attachment
sorts before every consent (`key_attachment_lt`), and a request that writes an attachment a
second time is refused: so no call writes a consent twice, and none for a tenant that
withdrew (`Orderly`).
-/

import Gentian.Authz.Tenants
import Gentian.Base.Runs

namespace Gentian.Authz

open GoStrings Api OpenFGA Batches Runs List Store

/-! ### The machine -/

/-- How far a call of `ReconcileTenants` has come. -/
inductive Phase where
  | idle
  /-- Reading: the tenants read, those still to be read, and the plan so far. -/
  | looking (looked todo : List TenantRights) (writes deletes : List Tuple)
  /-- Writing: the tenants of the call, the tuples written so far, and the requests
  still to be sent. -/
  | sending (tenants : List TenantRights) (sent : List Tuple) (reqs : List Request)
  | returned (tenants : List TenantRights)
  | failed

/-- The store and where the call is, with the history: the consents removed so
far, and those removed while the tenant was attached. -/
structure ConsentState where
  store : Store
  phase : Phase
  removed : List Tuple
  withdrawn : List Tuple

/-- No call is under way and nothing has been sent. -/
def ConsentState.initial (store : Store) : ConsentState := ⟨store, .idle, [], []⟩

/-- What happens: a call, one of its reads or requests, or a right given beside it. -/
inductive ConsentLabel where
  /-- `ReconcileTenants` is called. -/
  | call (tenants : List TenantRights)
  /-- The next tenant is read; a read may go unanswered. -/
  | look (answered : Bool)
  /-- Everything is read. -/
  | write
  /-- The next request reaches the store. -/
  | send
  /-- Every request was answered. -/
  | finish
  /-- The call ends before its next request. -/
  | stop
  /-- A tenant removes its own `operated_by` tuple. -/
  | remove (name : String)

/-- One step of `ReconcileTenants` for the cluster `c`, or of a tenant. -/
def consentStep (c : String) (s : ConsentState) : ConsentLabel → Option ConsentState
  | .call tenants =>
    match s.phase with
    | .idle | .returned _ | .failed => some { s with phase := .looking [] tenants [] [] }
    | _ => none
  | .look answered =>
    match s.phase with
    | .looking looked (r :: todo) writes deletes =>
      if answered then
        match lookTenant c s.store r with
        | .ok (w, d) =>
          some { s with phase := .looking (looked ++ [r]) todo (writes ++ w) (deletes ++ d) }
        | .error _ => some { s with phase := .failed }
      else some { s with phase := .failed }
    | _ => none
  | .write =>
    match s.phase with
    | .looking looked [] writes deletes =>
      if writes = [] ∧ deletes = [] then some { s with phase := .returned looked }
      else
        some { s with
          phase := .sending looked [] (requests (sortByKey writes) (sortByKey deletes)) }
    | _ => none
  | .send =>
    match s.phase with
    | .sending tenants sent (req :: reqs) =>
      match s.store.serve req with
      | some store =>
        some { s with
          store := store
          phase := .sending tenants (sent ++ req.adds) reqs }
      | none => some { s with phase := .failed }
    | _ => none
  | .finish =>
    match s.phase with
    | .sending tenants _ [] => some { s with phase := .returned tenants }
    | _ => none
  | .stop =>
    match s.phase with
    | .sending _ _ _ => some { s with phase := .failed }
    | _ => none
  | .remove name =>
    if operatedBy c name ∈ s.store then
      some { s with
        store := s.store.without [operatedBy c name]
        removed := s.removed ++ [operatedBy c name]
        withdrawn :=
          if attachment c name ∈ s.store then s.withdrawn ++ [operatedBy c name]
          else s.withdrawn }
    else none

/-- One step of a call, or of those beside it. -/
inductive ConsentStep (c : String) (s : ConsentState) : ConsentLabel → ConsentState → Prop
  | called {tenants : List TenantRights}
      (hphase : s.phase = .idle ∨ (∃ ts, s.phase = .returned ts) ∨ s.phase = .failed) :
      ConsentStep c s (.call tenants) { s with phase := .looking [] tenants [] [] }
  | looked {looked todo : List TenantRights} {r : TenantRights} {writes deletes w d : List Tuple}
      (hphase : s.phase = .looking looked (r :: todo) writes deletes)
      (hlook : lookTenant c s.store r = .ok (w, d)) :
      ConsentStep c s (.look true)
        { s with phase := .looking (looked ++ [r]) todo (writes ++ w) (deletes ++ d) }
  | unread {answered : Bool} {looked todo : List TenantRights} {writes deletes : List Tuple}
      (hphase : s.phase = .looking looked todo writes deletes) :
      ConsentStep c s (.look answered) { s with phase := .failed }
  | nothing {looked : List TenantRights} (hphase : s.phase = .looking looked [] [] []) :
      ConsentStep c s .write { s with phase := .returned looked }
  | planned {looked : List TenantRights} {writes deletes : List Tuple}
      (hphase : s.phase = .looking looked [] writes deletes) :
      ConsentStep c s .write
        { s with phase := .sending looked [] (requests (sortByKey writes) (sortByKey deletes)) }
  | served {tenants : List TenantRights} {sent : List Tuple} {req : Request} {reqs : List Request}
      {store : Store} (hphase : s.phase = .sending tenants sent (req :: reqs))
      (hserve : s.store.serve req = some store) :
      ConsentStep c s .send
        { s with store := store, phase := .sending tenants (sent ++ req.adds) reqs }
  | refused {tenants : List TenantRights} {sent : List Tuple} {req : Request} {reqs : List Request}
      (hphase : s.phase = .sending tenants sent (req :: reqs)) (hserve : s.store.serve req = none) :
      ConsentStep c s .send { s with phase := .failed }
  | finished {tenants : List TenantRights} {sent : List Tuple}
      (hphase : s.phase = .sending tenants sent []) :
      ConsentStep c s .finish { s with phase := .returned tenants }
  | stopped {tenants : List TenantRights} {sent : List Tuple} {reqs : List Request}
      (hphase : s.phase = .sending tenants sent reqs) :
      ConsentStep c s .stop { s with phase := .failed }
  | removed {name : String} (hmem : operatedBy c name ∈ s.store) :
      ConsentStep c s (.remove name)
        { s with
          store := s.store.without [operatedBy c name]
          removed := s.removed ++ [operatedBy c name]
          withdrawn :=
            if attachment c name ∈ s.store then s.withdrawn ++ [operatedBy c name]
            else s.withdrawn }

variable {c : String} {s s' : ConsentState} {l : ConsentLabel}

/-- **A step does nothing else.** -/
theorem consentStep_cases (h : consentStep c s l = some s') : ConsentStep c s l s' := by
  cases l with
  | call tenants =>
    rw [consentStep] at h
    split at h
    · cases h
      exact .called (.inl (by assumption))
    · cases h
      exact .called (.inr (.inl ⟨_, by assumption⟩))
    · cases h
      exact .called (.inr (.inr (by assumption)))
    · cases h
  | look answered =>
    rw [consentStep] at h
    split at h
    next looked r _ writes deletes hphase =>
      cases answered with
      | false =>
        cases h
        exact .unread hphase
      | true =>
        cases hlook : lookTenant c s.store r with
        | ok p =>
          rw [hlook] at h
          cases h
          exact .looked hphase hlook
        | error e =>
          rw [hlook] at h
          cases h
          exact .unread hphase
    · cases h
  | write =>
    rw [consentStep] at h
    split at h
    next looked writes deletes hphase =>
      split_ifs at h with hnil
      · cases h
        exact .nothing (by rw [hphase, hnil.1, hnil.2])
      · cases h
        exact .planned hphase
    · cases h
  | send =>
    rw [consentStep] at h
    split at h
    next tenants _ req _ hphase =>
      cases hserve : s.store.serve req with
      | some store =>
        rw [hserve] at h
        cases h
        exact .served hphase hserve
      | none =>
        rw [hserve] at h
        cases h
        exact .refused hphase hserve
    · cases h
  | finish =>
    rw [consentStep] at h
    split at h
    · cases h
      exact .finished (by assumption)
    · cases h
  | stop =>
    rw [consentStep] at h
    split at h
    · cases h
      exact .stopped (by assumption)
    · cases h
  | remove _ =>
    rw [consentStep, Option.ite_none_right_eq_some] at h
    obtain ⟨hmem, h⟩ := h
    cases h
    exact .removed hmem

/-! ### What a call has planned -/

/-- The tuples that are to be written. -/
def Phase.planned : Phase → List Tuple
  | .looking _ _ writes _ => writes
  | .sending _ _ reqs => reqs.flatMap Request.adds
  | _ => []

/-- The tuples that are in the requests still to be sent. -/
def Phase.pending : Phase → List Tuple
  | .sending _ _ reqs => reqs.flatMap Request.adds
  | _ => []

/-- The tuples that are to be deleted. -/
def Phase.deletes : Phase → List Tuple
  | .looking _ _ _ deletes => deletes
  | .sending _ _ reqs => reqs.flatMap Request.removes
  | _ => []

/-- The tuples that have been sent. -/
def Phase.sent : Phase → List Tuple
  | .sending _ sent _ => sent
  | _ => []

/-- The tenants a call is about, as far as they have been read. -/
def Phase.tenants : Phase → List TenantRights
  | .looking looked _ _ _ => looked
  | .sending tenants _ _ => tenants
  | .returned tenants => tenants
  | _ => []

/-- Attachments sort before the operator's rights. -/
theorem key_attachment_lt (c x y : String) : key (attachment c x) < key (operatedBy c y) := by
  rw [String.lt_iff_toList_lt]
  simp only [key, attachment, operatedBy, String.toList_append, append_assoc]
  refine append_left_lt (append_left_lt ?_)
  exact cons_lt_cons_iff.2 (.inl (by decide))

/-- What holds of the plan of a call, and of the consents withdrawn, whatever the
calls met: what a call removes is derived, the consents it has still to write are
not stored, it plans no more consents than attachments, it writes in the order of
keys and an attachment at most once; and a tenant that withdrew is attached
without consent, and no consent is planned for it. -/
structure Orderly (c : String) (s : ConsentState) : Prop where
  derived : ∀ t ∈ s.phase.deletes, IsDerived t
  fresh : ∀ x ≠ platformTenant, operatedBy c x ∈ s.phase.planned → operatedBy c x ∉ s.store
  balanced : ∀ x ≠ platformTenant,
    (s.phase.sent ++ s.phase.planned).count (operatedBy c x) ≤
      (s.phase.sent ++ s.phase.planned).count (attachment c x)
  sorted : (s.phase.sent ++ s.phase.pending).Pairwise fun a b => key a ≤ key b
  once : ∀ x, s.phase.sent.count (attachment c x) ≤ 1
  stored : ∀ x, attachment c x ∈ s.phase.sent → attachment c x ∈ s.store
  kept : ∀ x ≠ platformTenant, operatedBy c x ∈ s.withdrawn →
    attachment c x ∈ s.store ∧ operatedBy c x ∉ s.store ∧ operatedBy c x ∉ s.phase.planned

/-- A phase that has nothing planned and nothing sent. -/
def Phase.Plain (p : Phase) : Prop := p.planned = [] ∧ p.pending = [] ∧ p.deletes = [] ∧ p.sent = []

theorem Orderly.plain (h : Orderly c s) {p : Phase} (hp : p.Plain) :
    Orderly c { s with phase := p } := by
  obtain ⟨hplan, hpend, hdel, hsent⟩ := hp
  constructor
  · simp [hdel]
  · simp [hplan]
  · simp [hplan, hsent]
  · simp [hpend, hsent]
  · simp [hsent]
  · simp [hsent]
  · intro x hx hw
    obtain ⟨hatt, hop, -⟩ := h.kept x hx hw
    exact ⟨hatt, hop, by simp [hplan]⟩

variable {deletes writes : List Tuple} {x : String}

/-- To read one tenant keeps the order. -/
theorem Orderly.looked (h : Orderly c s) {looked todo : List TenantRights} {r : TenantRights}
    {w d : List Tuple} (hphase : s.phase = .looking looked (r :: todo) writes deletes)
    (hlook : lookTenant c s.store r = .ok (w, d)) :
    Orderly c { s with phase := .looking (looked ++ [r]) todo (writes ++ w) (deletes ++ d) } := by
  obtain ⟨-, -, -, hd⟩ := lookTenant_eq_ok hlook
  obtain ⟨hder, hfresh, hbal, -, -, -, hkept⟩ := h
  rw [hphase] at hder hfresh hbal hkept
  constructor
  · intro t ht
    rcases mem_append.1 ht with ht | ht
    · exact hder t ht
    · exact hd t ht
  · intro x hx ho
    rcases mem_append.1 ho with ho | ho
    · exact hfresh x hx ho
    · exact ((operatedBy_mem_look hlook).1 ho).2.1
  · intro x hx
    have hb := hbal x hx
    have hw := count_look hlook hx
    simp only [Phase.sent, Phase.planned, count_append] at hb ⊢
    omega
  · exact List.Pairwise.nil
  · exact fun x => Nat.zero_le _
  · exact nofun
  · intro x hx hw
    obtain ⟨hatt, hop, hplan⟩ := hkept x hx hw
    refine ⟨hatt, hop, fun ho => ?_⟩
    rcases mem_append.1 ho with ho | ho
    · exact hplan ho
    · exact hx (((operatedBy_mem_look hlook).1 ho).2.2 hatt)

/-- To make requests of the plan keeps it. -/
theorem Orderly.planned (h : Orderly c s) {looked : List TenantRights}
    (hphase : s.phase = .looking looked [] writes deletes) : Orderly c { s with
      phase := .sending looked [] (requests (sortByKey writes) (sortByKey deletes)) } := by
  have hadds := flatMap_adds_requests (sortByKey writes) (sortByKey deletes)
  have hperm := sortByKey_perm writes
  obtain ⟨hder, hfresh, hbal, -, -, -, hkept⟩ := h
  rw [hphase] at hder hfresh hbal hkept
  constructor
  · intro t ht
    rw [Phase.deletes, flatMap_removes_requests, mem_sortByKey] at ht
    exact hder t ht
  · intro x hx ho
    rw [Phase.planned, hadds, mem_sortByKey] at ho
    exact hfresh x hx ho
  · intro x hx
    simp only [Phase.sent, Phase.planned, nil_append, hadds, hperm.count_eq]
    exact hbal x hx
  · rw [Phase.pending, hadds]
    exact pairwise_sortByKey writes
  · exact fun x => Nat.zero_le _
  · exact nofun
  · intro x hx hw
    rw [Phase.planned, hadds, mem_sortByKey]
    exact hkept x hx hw

variable {sent : List Tuple} {req : Request} {store : Store}

theorem mem_serve_of_derived {store' : Store} (hserve : store.serve req = some store')
    (hder : ∀ t ∈ req.removes, IsDerived t) {t : Tuple} (ht : ¬IsDerived t) :
    t ∈ store' ↔ t ∈ store ∨ t ∈ req.adds := by
  rw [mem_serve hserve]
  exact or_congr_left (and_iff_left fun hm => ht (hder t hm))

/-- A consent is not sent twice: its attachment would have to be, and the second
would be sent after the first consent. -/
theorem consent_sent_once {rest : List Tuple}
    (hbal : (sent ++ rest).count (operatedBy c x) ≤ (sent ++ rest).count (attachment c x))
    (honce : sent.count (attachment c x) ≤ 1)
    (hsort : (sent ++ rest).Pairwise fun a b => key a ≤ key b) (hsent : operatedBy c x ∈ sent) :
    operatedBy c x ∉ rest := by
  intro hrest
  have h1 : 0 < sent.count (operatedBy c x) := count_pos_iff.2 hsent
  have h2 : 0 < rest.count (operatedBy c x) := count_pos_iff.2 hrest
  simp only [count_append] at hbal
  have hpos : 0 < rest.count (attachment c x) := by omega
  have hord := (pairwise_append.1 hsort).2.2 _ hsent _ (count_pos_iff.1 hpos)
  exact absurd (key_attachment_lt c x x) (not_lt.2 hord)

/-- A request sends an attachment at most once. -/
theorem attachment_sent_once {store' : Store} (hserve : store.serve req = some store')
    (honce : sent.count (attachment c x) ≤ 1)
    (hstored : attachment c x ∈ sent → attachment c x ∈ store) :
    (sent ++ req.adds).count (attachment c x) ≤ 1 := by
  obtain ⟨hnodup, hnew⟩ := adds_of_serve hserve
  rw [count_append]
  by_cases hm : attachment c x ∈ sent
  · have hout : attachment c x ∉ req.adds := fun hm' => hnew _ hm' (hstored hm)
    rw [count_eq_zero.2 hout]
    exact honce
  · rw [count_eq_zero.2 hm, Nat.zero_add]
    exact nodup_iff_count_le_one.1 hnodup _

/-- A request that took effect keeps it. -/
theorem Orderly.served (h : Orderly c s) {tenants : List TenantRights} {reqs : List Request}
    (hphase : s.phase = .sending tenants sent (req :: reqs))
    (hserve : s.store.serve req = some store) :
    Orderly c { s with store := store, phase := .sending tenants (sent ++ req.adds) reqs } := by
  obtain ⟨hder, hfresh, hbal, hsort, honce, hstored, hkept⟩ := h
  rw [hphase] at hder hfresh hbal hsort honce hstored hkept
  simp only [Phase.planned, Phase.pending, flatMap_cons,
    ← append_assoc] at hder hfresh hbal hsort honce hstored hkept
  have hmem : ∀ {t}, ¬IsDerived t → (t ∈ store ↔ t ∈ s.store ∨ t ∈ req.adds) :=
    fun ht => mem_serve_of_derived hserve (fun t hm => hder t (mem_append_left _ hm)) ht
  have honce' : ∀ x, (sent ++ req.adds).count (attachment c x) ≤ 1 := fun x =>
    attachment_sent_once hserve (honce x) (hstored x)
  constructor
  · exact fun t ht => hder t (mem_append_right _ ht)
  · intro x hx ho hst
    rcases (hmem (not_isDerived_operatedBy c x)).1 hst with hst | hst
    · exact hfresh x hx (mem_append_right _ ho) hst
    · exact consent_sent_once (hbal x hx) (honce' x) hsort (mem_append_right _ hst) ho
  · exact hbal
  · exact hsort
  · exact honce'
  · intro x hx
    refine (hmem (not_isDerived_attachment c x)).2 ?_
    exact (mem_append.1 hx).imp_left (hstored x)
  · intro x hx hw
    obtain ⟨hatt, hop, hplan⟩ := hkept x hx hw
    refine ⟨(hmem (not_isDerived_attachment c x)).2 (.inl hatt), fun hst => ?_, fun ho => ?_⟩
    · rcases (hmem (not_isDerived_operatedBy c x)).1 hst with hst | hst
      · exact hop hst
      · exact hplan (mem_append_left _ hst)
    · exact hplan (mem_append_right _ ho)

/-- So does a right that is withdrawn. -/
theorem Orderly.removed (h : Orderly c s) {name : String} (hmem : operatedBy c name ∈ s.store) :
    Orderly c { s with
      store := s.store.without [operatedBy c name]
      removed := s.removed ++ [operatedBy c name]
      withdrawn :=
        if attachment c name ∈ s.store then s.withdrawn ++ [operatedBy c name]
        else s.withdrawn } := by
  have hatt : ∀ x, attachment c x ∈ s.store →
      attachment c x ∈ s.store.without [operatedBy c name] := fun x hx =>
    mem_without.2 ⟨hx, fun hm =>
      attachment_ne_operatedBy c x name (mem_singleton.1 hm)⟩
  have hless : ∀ {t}, t ∉ s.store → t ∉ s.store.without [operatedBy c name] := fun ht hm =>
    ht (mem_without.1 hm).1
  refine ⟨h.derived, fun x hx ho => hless (h.fresh x hx ho), h.balanced, h.sorted, h.once,
    fun x hx => hatt x (h.stored x hx), fun x hx hw => ?_⟩
  have hold : operatedBy c x ∈ s.withdrawn → attachment c x ∈ s.store.without [operatedBy c name] ∧
      operatedBy c x ∉ s.store.without [operatedBy c name] ∧ operatedBy c x ∉ s.phase.planned :=
    fun hw => (h.kept x hx hw).imp (hatt x) (And.imp_left hless)
  split_ifs at hw with hin
  · rcases mem_append.1 hw with hw | hw
    · exact hold hw
    · obtain rfl := operatedBy_inj (mem_singleton.1 hw)
      refine ⟨hatt x hin, fun hm => (mem_without.1 hm).2 (mem_singleton_self _), ?_⟩
      exact fun ho => h.fresh x hx ho hmem
  · exact hold hw

/-- **Every step keeps the plan orderly.** -/
theorem orderly_step (h : Orderly c s) (hstep : consentStep c s l = some s') : Orderly c s' := by
  cases consentStep_cases hstep with
  | called | unread | nothing | refused | finished | stopped => exact h.plain ⟨rfl, rfl, rfl, rfl⟩
  | looked hphase hlook => exact h.looked hphase hlook
  | planned hphase => exact h.planned hphase
  | served hphase hserve => exact h.served hphase hserve
  | removed hmem => exact h.removed hmem

theorem orderly_initial (c : String) (store : Store) : Orderly c (.initial store) := by
  constructor <;> simp [ConsentState.initial, Phase.deletes, Phase.planned, Phase.sent, Phase.pending]

end Gentian.Authz
