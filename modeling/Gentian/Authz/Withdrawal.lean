/-
# Withdrawn consent and consent never written

`internal/director/authz/tenants.go` (`ReconcileTenants`) says of the tuple `operated_by`: "a
tenant that later withdraws it is not second-guessed here, because the missing tuple is then
the tenant's answer".

A plan is sorted by key, every `cluster` tuple before every `operated_by` tuple: with more
than fifty new tenants the two land in different requests, and a call that ends in between
leaves tenants that are attached and never get their consent (`consent_never_written`).
`consent_distinguishable` says that nothing else confuses the two.
-/

import Gentian.Authz.Consent

namespace Gentian.Authz

open GoStrings Api OpenFGA Batches Runs List Store

variable {c : String} {s s' : ConsentState} {l : ConsentLabel}

/-! ### Calls that end between two requests -/

/-- No consent is still to be written whose attachment is stored: each such
consent is stored, or was removed by its tenant. -/
def Unsplit (s : ConsentState) (reqs : List Request) : Prop :=
  ∀ t ∈ reqs.flatMap Request.adds, t.relation = "operated_by" →
    { t with relation := "cluster" } ∈ s.store → t ∈ s.store ∨ t ∈ s.removed

/-- A call that ends early, or whose request is refused, does not end between the
request of an attachment and that of its consent. -/
def EndsUnsplit (s : ConsentState) : ConsentLabel → Prop
  | .send =>
    match s.phase with
    | .sending _ _ (req :: reqs) => s.store.serve req = none → Unsplit s (req :: reqs)
    | _ => True
  | .stop =>
    match s.phase with
    | .sending _ _ reqs => Unsplit s reqs
    | _ => True
  | _ => True

instance (s : ConsentState) (reqs : List Request) : Decidable (Unsplit s reqs) := by
  unfold Unsplit
  infer_instance

instance (s : ConsentState) (l : ConsentLabel) : Decidable (EndsUnsplit s l) := by
  cases l <;> dsimp only [EndsUnsplit] <;> try infer_instance
  all_goals split <;> infer_instance

/-- A consent that is stored, or that its tenant removed. -/
def Settled (c : String) (s : ConsentState) (x : String) : Prop :=
  operatedBy c x ∈ s.store ∨ operatedBy c x ∈ s.removed

/-- Every attachment comes with its consent: a stored one with a consent that is
settled or still to be sent, a planned one with a consent that is settled or
planned; and the tenants of a call are attached, or their attachment is
planned. -/
structure Covered (c : String) (s : ConsentState) : Prop where
  stored : ∀ x, attachment c x ∈ s.store → Settled c s x ∨ operatedBy c x ∈ s.phase.pending
  planned : ∀ x, attachment c x ∈ s.phase.planned →
    Settled c s x ∨ operatedBy c x ∈ s.phase.planned
  tenants : ∀ r ∈ s.phase.tenants,
    attachment c r.name ∈ s.store ∨ attachment c r.name ∈ s.phase.planned

/-- A call that ended leaves every attachment with a settled consent, when every
consent it had still to send is settled or its tenant is not attached. -/
theorem Covered.ended (h : Covered c s) {p : Phase} (hplan : p.planned = []) (hten : p.tenants = [])
    (hpend : ∀ x, operatedBy c x ∈ s.phase.pending → attachment c x ∈ s.store → Settled c s x) :
    Covered c { s with phase := p } := by
  refine ⟨fun x hx => ?_, by simp [hplan], by simp [hten]⟩
  rcases h.stored x hx with hs | hs
  · exact .inl hs
  · exact .inl (hpend x hs hx)

theorem Covered.returned (h : Covered c s) (hplan : s.phase.planned = [])
    (hpend : s.phase.pending = []) : Covered c { s with phase := .returned s.phase.tenants } := by
  refine ⟨fun x hx => ?_, nofun, fun r hr => ?_⟩
  · rcases h.stored x hx with hs | hs
    · exact .inl hs
    · rw [hpend] at hs
      cases hs
  · rcases h.tenants r hr with hs | hs
    · exact .inl hs
    · rw [hplan] at hs
      cases hs

variable {ts : List TenantRights} {writes : List Tuple}

variable {reqs : List Request} {tenants todo : List TenantRights} {deletes sent : List Tuple}
  {r : TenantRights}

/-- To read one tenant keeps what is covered. -/
theorem Covered.looked (h : Covered c s) {looked : List TenantRights}
    {w d : List Tuple} (hphase : s.phase = .looking looked (r :: todo) writes deletes)
    (hlook : lookTenant c s.store r = .ok (w, d)) :
    Covered c { s with phase := .looking (looked ++ [r]) todo (writes ++ w) (deletes ++ d) } := by
  obtain ⟨hstored, hplan, hten⟩ := h
  rw [hphase] at hstored hplan hten
  refine ⟨hstored, fun x hx => ?_, fun r' hr' => ?_⟩
  · rcases mem_append.1 hx with hx | hx
    · exact (hplan x hx).imp_right (mem_append_left _)
    · obtain ⟨hname, hout⟩ := (attachment_mem_look hlook).1 hx
      by_cases ho : operatedBy c x ∈ s.store
      · exact .inl (.inl ho)
      · refine .inr (mem_append_right _ ((operatedBy_mem_look hlook).2 ⟨hname, ho, ?_⟩))
        exact fun hin => absurd hin hout
  · rcases mem_append.1 hr' with hr' | hr'
    · exact (hten r' hr').imp_right (mem_append_left _)
    · obtain rfl := mem_singleton.1 hr'
      by_cases hin : attachment c r'.name ∈ s.store
      · exact .inl hin
      · exact .inr (mem_append_right _ ((attachment_mem_look hlook).2 ⟨rfl, hin⟩))

theorem Covered.planned_requests (h : Covered c s) {looked : List TenantRights}
    (hphase : s.phase = .looking looked [] writes deletes) : Covered c { s with
      phase := .sending looked [] (requests (sortByKey writes) (sortByKey deletes)) } := by
  obtain ⟨hstored, hplan, hten⟩ := h
  rw [hphase] at hstored hplan hten
  have hadds : ∀ t, t ∈ (requests (sortByKey writes) (sortByKey deletes)).flatMap Request.adds ↔
      t ∈ writes := fun t => by
    rw [flatMap_adds_requests, mem_sortByKey]
  refine ⟨fun x hx => .inl ((hstored x hx).resolve_right not_mem_nil), fun x hx => ?_,
    fun r hr => (hten r hr).imp_right (hadds _).2⟩
  exact (hplan x ((hadds _).1 hx)).imp_right (hadds _).2

/-- A request that took effect keeps it. -/
theorem Covered.served (h : Covered c s) (ho : Orderly c s) {req : Request} {store : Store}
    (hphase : s.phase = .sending tenants sent (req :: reqs))
    (hserve : s.store.serve req = some store) :
    Covered c { s with store := store, phase := .sending tenants (sent ++ req.adds) reqs } := by
  have hder := ho.derived
  obtain ⟨hstored, hplan, hten⟩ := h
  rw [hphase] at hder hstored hplan hten
  have hmem : ∀ {t}, ¬IsDerived t → (t ∈ store ↔ t ∈ s.store ∨ t ∈ req.adds) :=
    fun ht => mem_serve_of_derived hserve (fun t hm => hder t (mem_append_left _ hm)) ht
  -- a consent that was settled or pending is so after the request
  have hnext : ∀ x, Settled c s x ∨ operatedBy c x ∈ req.adds ++ reqs.flatMap Request.adds →
      (operatedBy c x ∈ store ∨ operatedBy c x ∈ s.removed) ∨
        operatedBy c x ∈ reqs.flatMap Request.adds := by
    rintro x ((hs | hs) | hs)
    · exact .inl (.inl ((hmem (not_isDerived_operatedBy c x)).2 (.inl hs)))
    · exact .inl (.inr hs)
    · rcases mem_append.1 hs with hs | hs
      · exact .inl (.inl ((hmem (not_isDerived_operatedBy c x)).2 (.inr hs)))
      · exact .inr hs
  refine ⟨fun x hx => hnext x ?_, fun x hx => hnext x (hplan x (mem_append_right _ hx)),
    fun r hr => ?_⟩
  · rcases (hmem (not_isDerived_attachment c x)).1 hx with hx | hx
    · exact hstored x hx
    · exact hplan x (mem_append_left _ hx)
  · rw [hmem (not_isDerived_attachment c r.name), or_assoc, ← mem_append]
    exact hten r hr

theorem Covered.removed (h : Covered c s) {name : String} {withdrawn : List Tuple} :
    Covered c { s with
      store := s.store.without [operatedBy c name]
      removed := s.removed ++ [operatedBy c name]
      withdrawn := withdrawn } := by
  have hsettled : ∀ x, Settled c s x → operatedBy c x ∈ s.store.without [operatedBy c name] ∨
      operatedBy c x ∈ s.removed ++ [operatedBy c name] := by
    rintro x (hs | hs)
    · by_cases hx : operatedBy c x ∈ [operatedBy c name]
      · exact .inr (mem_append_right _ hx)
      · exact .inl (mem_without.2 ⟨hs, hx⟩)
    · exact .inr (mem_append_left _ hs)
  refine ⟨fun x hx => (h.stored x (mem_without.1 hx).1).imp_left (hsettled x),
    fun x hx => (h.planned x hx).imp_left (hsettled x), fun r hr => ?_⟩
  refine (h.tenants r hr).imp_left fun hs => mem_without.2 ⟨hs, fun hm => ?_⟩
  exact attachment_ne_operatedBy c r.name name (mem_singleton.1 hm)

/-- **Every step that does not split an attachment from its consent keeps the two
together.** -/
theorem covered_step (ho : Orderly c s) (h : Covered c s) (hcond : EndsUnsplit s l)
    (hstep : consentStep c s l = some s') : Covered c s' := by
  cases consentStep_cases hstep with
  | called hphase =>
    have hpend : s.phase.pending = [] := by
      rcases hphase with hp | ⟨ts, hp⟩ | hp <;> rw [hp] <;> rfl
    refine ⟨(h.ended rfl rfl fun x hx => ?_).stored, nofun, nofun⟩
    rw [hpend] at hx
    cases hx
  | looked hphase hlook => exact h.looked hphase hlook
  | unread hphase =>
    refine h.ended rfl rfl fun x hx => ?_
    rw [hphase] at hx
    cases hx
  | nothing hphase | finished hphase =>
    have hret := h.returned (by rw [hphase]; rfl) (by rw [hphase]; rfl)
    rwa [hphase] at hret
  | planned hphase => exact h.planned_requests hphase
  | served hphase hserve => exact h.served ho hphase hserve
  | refused hphase hserve =>
    refine h.ended rfl rfl fun x hx hatt => ?_
    rw [EndsUnsplit, hphase] at hcond
    rw [hphase] at hx
    exact hcond hserve _ hx rfl hatt
  | stopped hphase =>
    refine h.ended rfl rfl fun x hx hatt => ?_
    rw [EndsUnsplit, hphase] at hcond
    rw [hphase] at hx
    exact hcond _ hx rfl hatt
  | removed _ => exact h.removed

/-- **A withdrawn consent can be told from one never written.**  From a store that
holds no attachment without consent, and over every interleaving of calls and
withdrawals: no tenant but the platform's that withdrew while attached is given
its consent back; and when no call ended between the request of an attachment and
that of its consent, every tenant of a call that returned holds its consent or
removed it. -/
theorem consent_distinguishable {store : Store} {ls : List ConsentLabel}
    (h0 : ∀ x, attachment c x ∈ store → operatedBy c x ∈ store)
    (hr : run (consentStep c) (.initial store) ls = some s) :
    (∀ x ≠ platformTenant, operatedBy c x ∈ s.withdrawn → operatedBy c x ∉ s.store) ∧
      (Meets (consentStep c) EndsUnsplit (.initial store) ls →
        ∀ tenants, s.phase = .returned tenants → ∀ r ∈ tenants,
          operatedBy c r.name ∉ s.removed → operatedBy c r.name ∈ s.store) := by
  have hord : Orderly c s :=
    invariant_of_step (fun s l s' h hstep => orderly_step h hstep) (orderly_initial c store) hr
  refine ⟨fun x hx hw => (hord.kept x hx hw).2.1, fun hm tenants hphase r hmem hnot => ?_⟩
  have hcov : Orderly c s ∧ Covered c s := by
    have hstep : ∀ s l s', Orderly c s ∧ Covered c s → EndsUnsplit s l →
        consentStep c s l = some s' → Orderly c s' ∧ Covered c s' := fun s l s' h hc hstep =>
      ⟨orderly_step h.1 hstep, covered_step h.1 h.2 hc hstep⟩
    refine invariant hstep ⟨orderly_initial c store, ?_⟩ hm hr
    refine ⟨fun x hx => .inl (.inl (h0 x hx)), nofun, ?_⟩
    exact nofun
  obtain ⟨-, hstored, -, hten⟩ := hcov
  rw [hphase] at hstored hten
  have hatt := (hten r hmem).resolve_right not_mem_nil
  exact ((hstored _ hatt).resolve_right not_mem_nil).resolve_right hnot

/-- Two tenants are attached and hold their consent, and one withdraws it. -/
theorem consent_distinguishable_withdrawn : ∃ s, run (consentStep "prod") (.initial .empty)
        [.call [⟨"demo", [], [], by decide⟩, ⟨"acme", [], [], by decide⟩], .look true, .look true,
          .write, .send, .finish, .remove "demo"] = some s ∧
      operatedBy "prod" "demo" ∉ s.store ∧ operatedBy "prod" "acme" ∈ s.store := by
  have hr : run (consentStep "prod") (.initial .empty)
      [.call [⟨"demo", [], [], by decide⟩, ⟨"acme", [], [], by decide⟩], .look true, .look true,
        .write, .send, .finish, .remove "demo"] = some _ :=
    (Option.some_get (by decide)).symm
  have hboth := consent_distinguishable (fun x hx => absurd hx (not_mem_empty _)) hr
  refine ⟨_, hr, hboth.1 "demo" (by decide) (by decide), ?_⟩
  exact hboth.2 (by decide) _ rfl ⟨"acme", [], [], by decide⟩ (by decide) (by decide)

/-! ### More new tenants than one request holds -/

/-- What a round plans over a store that holds attachments only, for a tenant the
claim names nobody for. -/
def firstPlan (c : String) (store : Store) (r : TenantRights) : List Tuple :=
  (if attachment c r.name ∈ store then [] else [attachment c r.name, operatedBy c r.name]) ++
    tenantRoleGroups.map (roleTuple r.name)

/-- A tenant the claim names nobody for, other than the platform's. -/
def TenantRights.Plain (r : TenantRights) : Prop :=
  r.perimeterApprovers = [] ∧ r.auditors = [] ∧ r.name ≠ platformTenant

/-- The reads of a call, one after the other. -/
theorem run_looks {looked : List TenantRights} (hphase : s.phase = .looking looked todo writes [])
    (hstore : ∀ t ∈ s.store, t.relation = "cluster") (htodo : ∀ r ∈ todo, r.Plain) :
    run (consentStep c) s (replicate todo.length (.look true)) = some { s with
        phase := .looking (looked ++ todo) [] (writes ++ todo.flatMap (firstPlan c s.store)) [] } := by
  induction todo generalizing s looked writes with
  | nil =>
    simp only [length_nil, replicate_zero, run_nil, append_nil, flatMap_nil, ← hphase]
  | cons r todo ih =>
    obtain ⟨⟨hper, haud, hname⟩, htodo⟩ := forall_mem_cons.1 htodo
    have hlook : lookTenant c s.store r = .ok (firstPlan c s.store r, []) :=
      lookTenant_of_attachments hstore ⟨hper, haud⟩ hname
    rw [length_cons, replicate_succ, run_cons_eq_some]
    let next : ConsentState := { s with
      phase := .looking (looked ++ [r]) todo (writes ++ firstPlan c s.store r) [] }
    refine ⟨next, ?_, ?_⟩
    · simp only [consentStep, hphase, hlook]
      rfl
    · refine (ih (s := next) rfl hstore htodo).trans ?_
      simp [next, flatMap_cons]

theorem key_attachment_lt_roleTuple (c x y : String) (role : String × String) :
    key (attachment c x) < key (roleTuple y role) := by
  rw [String.lt_iff_toList_lt]
  unfold key attachment roleTuple cluster
  simp only [String.toList_append]
  exact cons_lt_cons_iff.2 (.inl (by decide))

/-- Whether a tuple attaches a tenant to a cluster. -/
def attaches (t : Tuple) : Bool := decide (t.relation = "cluster")

theorem attaches_roleTuple (name : String) :
    ∀ t ∈ tenantRoleGroups.map (roleTuple name), attaches t = false := fun t ht =>
  decide_eq_false (isDerived_roleTuple name t ht).1

theorem filter_attaches_firstPlan (c : String) (ts : List TenantRights) :
    (ts.flatMap (firstPlan c .empty)).filter attaches = ts.map fun r => attachment c r.name := by
  induction ts with
  | nil => rfl
  | cons r ts ih =>
    have hroles : (tenantRoleGroups.map (roleTuple r.name)).filter attaches = [] :=
      filter_eq_nil_iff.2 fun t ht => by rw [attaches_roleTuple r.name t ht]; decide
    rw [flatMap_cons, filter_append, ih]
    rfl

/-- Attachments sort before all other tuples. -/
theorem key_lt_of_attaches :
    ∀ a ∈ ts.flatMap (firstPlan c .empty), ∀ b ∈ ts.flatMap (firstPlan c .empty),
      attaches a → attaches b = false → key a < key b := by
  intro a ha b hb hatt hnot
  have ha' := mem_filter.2 ⟨ha, hatt⟩
  rw [filter_attaches_firstPlan] at ha'
  obtain ⟨r, -, rfl⟩ := mem_map.1 ha'
  obtain ⟨r', -, hb⟩ := mem_flatMap.1 hb
  rcases mem_cons.1 hb with rfl | hb
  · cases hnot
  rcases mem_cons.1 hb with rfl | hb
  · exact key_attachment_lt c r.name r'.name
  · obtain ⟨role, -, rfl⟩ := mem_map.1 hb
    exact key_attachment_lt_roleTuple c r.name r'.name role

/-- **A hundred new tenants are attached by the first request alone.** -/
theorem first_request (hlen : ts.length = maxWrite) :
    ∃ attachments reqs, requests (sortByKey (ts.flatMap (firstPlan c .empty))) [] =
        .writes attachments :: reqs ∧
      attachments.Perm (ts.map fun r => attachment c r.name) := by
  have hcount : (ts.flatMap (firstPlan c .empty)).countP attaches = maxWrite := by
    rw [countP_eq_length_filter, filter_attaches_firstPlan, length_map, hlen]
  obtain ⟨reqs, hreqs⟩ := requests_first key_lt_of_attaches hcount
  refine ⟨_, reqs, hreqs, ?_⟩
  rw [← filter_attaches_firstPlan]
  exact (sortByKey_perm _).filter _

/-- A call up to its first request. -/
theorem run_call (hphase : s.phase = .idle ∨ s.phase = .failed)
    (hstore : ∀ t ∈ s.store, t.relation = "cluster") (hts : ∀ r ∈ ts, r.Plain)
    (hne : ts.flatMap (firstPlan c s.store) ≠ []) :
    run (consentStep c) s (.call ts :: (replicate ts.length (.look true) ++ [.write])) =
      some { s with
        phase := .sending ts [] (requests (sortByKey (ts.flatMap (firstPlan c s.store))) []) } := by
  let started : ConsentState := { s with phase := .looking [] ts [] [] }
  have hcall : consentStep c s (.call ts) = some started := by
    rcases hphase with hp | hp <;> simp only [consentStep, hp, started]
  refine run_cons_eq_some.2 ⟨started, hcall, run_append_eq_some.2 ⟨_, run_looks rfl hstore hts, ?_⟩⟩
  simp only [run, consentStep, nil_append, started, hne]
  rfl

/-- A request that can be carried out is carried out. -/
theorem consentStep_send {ts : List Tuple}
    (hphase : s.phase = .sending tenants sent (.writes ts :: reqs))
    (hok : ts.Nodup ∧ ∀ t ∈ ts, t ∉ s.store) : consentStep c s .send = some { s with
      store := s.store.with_ ts hok
      phase := .sending tenants (sent ++ ts) reqs } := by
  have hserve : s.store.serve (.writes ts) = some (s.store.with_ ts hok) := dif_pos hok
  simp [consentStep, hphase, hserve, Request.adds]

/-- **A first call that ends after one request** leaves a hundred new tenants
attached, and nothing else. -/
theorem run_first_call (hlen : ts.length = maxWrite)
    (hnodup : (ts.map TenantRights.name).Nodup) (hplain : ∀ r ∈ ts, r.Plain) :
    ∃ first, run (consentStep c) (.initial .empty)
        (.call ts :: (replicate ts.length (.look true) ++ [.write, .send, .stop])) =
          some ⟨first, .failed, [], []⟩ ∧
      ∀ t, t ∈ first ↔ ∃ r ∈ ts, attachment c r.name = t := by
  obtain ⟨attachments, reqs, hreqs, hperm⟩ := first_request hlen
  have hmap := hnodup.map (f := attachment c) fun x y => attachment_inj
  rw [map_map] at hmap
  have hok : attachments.Nodup ∧ ∀ t ∈ attachments, t ∉ empty :=
    ⟨hperm.nodup_iff.2 hmap, fun t _ => not_mem_empty t⟩
  have hne : ts.flatMap (firstPlan c .empty) ≠ [] := fun hnil => by
    rw [hnil] at hreqs
    cases hreqs
  refine ⟨empty.with_ attachments hok, ?_, fun t => ?_⟩
  · have hcall := run_call (s := .initial .empty) (.inl rfl) (nofun) hplain hne
    rw [show (ConsentState.initial .empty).store = .empty from rfl, hreqs] at hcall
    rw [show [ConsentLabel.write, .send, .stop] = [.write] ++ [.send, .stop] from rfl,
      ← append_assoc, ← cons_append, run_append_eq_some]
    exact ⟨_, hcall, run_cons_eq_some.2 ⟨_, consentStep_send rfl hok, rfl⟩⟩
  · rw [mem_with_, or_iff_right (not_mem_empty t), hperm.mem_iff, mem_map]

/-- **A later call does not write a consent** for a tenant that is attached. -/
theorem run_later_call {first : Store} (hrel : ∀ t ∈ first, t.relation = "cluster") (hr : r.Plain)
    (hatt : attachment c r.name ∈ first) : ∃ second, run (consentStep c) ⟨first, .failed, [], []⟩
        [.call [r], .look true, .write, .send, .finish] = some ⟨second, .returned [r], [], []⟩ ∧
      operatedBy c r.name ∉ second := by
  have hplan : firstPlan c first r = tenantRoleGroups.map (roleTuple r.name) := by
    rw [firstPlan, if_pos hatt, nil_append]
  have hnodup : (tenantRoleGroups.map (roleTuple r.name)).Nodup := by
    refine List.Nodup.of_map Tuple.relation ?_
    show (tenantRoleGroups.map Prod.fst).Nodup
    decide
  have hder := isDerived_roleTuple r.name
  have hlen : (tenantRoleGroups.map (roleTuple r.name)).length = 2 := rfl
  generalize tenantRoleGroups.map (roleTuple r.name) = roles at hplan hnodup hder hlen
  have hroles : (sortByKey roles).Nodup ∧ ∀ t ∈ sortByKey roles, t ∉ first :=
    ⟨(sortByKey_perm roles).nodup_iff.2 hnodup,
      fun t ht hin => (hder t (mem_sortByKey.1 ht)).1 (hrel t hin)⟩
  have hlast : requests (sortByKey roles) [] = [.writes (sortByKey roles)] := by
    have hlen' := (sortByKey_perm roles).length_eq
    have hle : (sortByKey roles).length ≤ maxWrite := by rw [hlen', hlen]; decide
    rw [requests_writes (by rw [← length_pos_iff, hlen', hlen]; decide),
      take_of_length_le hle, drop_of_length_le hle]
    rfl
  refine ⟨first.with_ (sortByKey roles) hroles, ?_, fun hin => ?_⟩
  · have hone : [r].flatMap (firstPlan c first) = roles := by
      rw [flatMap_singleton, hplan]
    have hne : roles ≠ [] := by rw [← length_pos_iff, hlen]; decide
    have hplain : ∀ r' ∈ [r], r'.Plain := fun r' hr' => mem_singleton.1 hr' ▸ hr
    have hcall := run_call (s := ⟨first, .failed, [], []⟩) (.inr rfl) hrel hplain
      (by rw [hone]; exact hne)
    rw [hone, hlast] at hcall
    rw [show [ConsentLabel.call [r], .look true, .write, .send, .finish] =
      [.call [r], .look true, .write] ++ [.send, .finish] from rfl, run_append_eq_some]
    exact ⟨_, hcall, run_cons_eq_some.2 ⟨_, consentStep_send rfl hroles, rfl⟩⟩
  · rcases mem_with_.1 hin with hin | hin
    · exact absurd (hrel _ hin) (show "operated_by" ≠ "cluster" by decide)
    · exact not_isDerived_operatedBy c r.name (hder _ (mem_sortByKey.1 hin))

/-- A hundred names. -/
def twoDigits : List String :=
  "0123456789".toList.flatMap fun i => "0123456789".toList.map fun j => .ofList [i, j]

theorem nodup_twoDigits : twoDigits.Nodup := by
  have hdigits : "0123456789".toList.Nodup := by decide
  refine nodup_flatMap.2 ⟨fun i _ => hdigits.map fun j j' h => ?_, hdigits.imp fun hne => ?_⟩
  · simpa using congrArg String.toList h
  · intro _ hname hname'
    obtain ⟨j, -, rfl⟩ := mem_map.1 hname
    obtain ⟨j', -, h⟩ := mem_map.1 hname'
    have hlist := congrArg String.toList h
    simp only [String.toList_ofList, cons.injEq] at hlist
    exact hne hlist.1.symm

/-- The tenants of those names, the claim naming nobody for them. -/
def hundred : List TenantRights :=
  twoDigits.pmap (fun name h => ⟨name, [], [], h⟩) (all_eq_true.1 (by decide))

/-- **A default never written looks like a withdrawal.**  A call for a hundred new
tenants ends after its first request; a second call for one of them returns; the
tenant is attached and has no consent, and nothing ever removed one. -/
theorem consent_never_written :
    ∃ ls s tenants, run (consentStep "prod") (.initial .empty) ls = some s ∧
      s.phase = .returned tenants ∧
        ∃ r ∈ tenants, operatedBy "prod" r.name ∉ s.removed ∧ operatedBy "prod" r.name ∉ s.store := by
  have hlen : hundred.length = maxWrite := by
    decide
  have hnodup : (hundred.map TenantRights.name).Nodup := by
    exact nodup_twoDigits
  have hplain : ∀ r ∈ hundred, r.Plain := by
    have hplatform : platformTenant ∉ twoDigits := by decide
    intro r hr
    obtain ⟨name, hname, rfl⟩ := mem_pmap.1 hr
    exact ⟨rfl, rfl, fun he => hplatform (he ▸ hname)⟩
  have hr : (⟨"00", [], [], by decide⟩ : TenantRights) ∈ hundred :=
    mem_pmap.2 ⟨"00", by decide, rfl⟩
  obtain ⟨first, hfirst, hmem⟩ := run_first_call hlen hnodup hplain
  have hrel : ∀ t ∈ first, t.relation = "cluster" := fun t ht => by
    obtain ⟨-, -, rfl⟩ := (hmem t).1 ht
    rfl
  obtain ⟨second, hsecond, hnone⟩ :=
    run_later_call hrel (hplain _ hr) ((hmem _).2 ⟨_, hr, rfl⟩)
  refine ⟨_, _, _, run_append_eq_some.2 ⟨_, hfirst, hsecond⟩, rfl, _, mem_singleton_self _, ?_, ?_⟩
  · exact not_mem_nil
  · exact hnone

end Gentian.Authz
