/-
# The projection of the tenants as a call

`internal/director/authz/tenants.go` (`ReconcileTenants`).

What a call leaves when every request is answered (`mem_reconcileTenants`): what is due to the
tenants (`Due`), and of what it found all but the entries the Cluster claim alone decides on
(`Claims`).  That the plan is carried out rests on its having no conflicts (`Sendable`): no
entry is planned twice, what is deleted is stored and what is written is not.
-/

import Gentian.Authz.Tenants

namespace Gentian.Authz

open GoStrings Api OpenFGA Reconcile List Store

/-! ### Sending a plan -/

/-- A plan without conflicts: distinct deletes the store holds, distinct writes
it does not. -/
structure Sendable (s : Store) (writes deletes : List Tuple) : Prop where
  deletes_nodup : deletes.Nodup
  deletes_held : ∀ x ∈ deletes, x ∈ s
  writes_nodup : writes.Nodup
  writes_missing : ∀ x ∈ writes, x ∉ s

/-- The end of a call that has made its plan: an empty plan is not sent. -/
def send {ε : Type} (failed : ε) (s : Store) (writes deletes : List Tuple) (fate : Fate) :
    Store × Except ε Unit :=
  if writes = [] ∧ deletes = [] then (s, .ok ())
  else
    let out := write s writes deletes fate
    (out.1, if out.2 then .ok () else .error failed)

section Send

variable {ε : Type} (failed : ε) {s : Store} {writes deletes : List Tuple}

/-- What requests that are answered leave. -/
theorem send_answered (h : Sendable s writes deletes) :
    (send failed s writes deletes .answered).2 = .ok () ∧
      ∀ x, x ∈ (send failed s writes deletes .answered).1 ↔ (x ∈ s ∧ x ∉ deletes) ∨ x ∈ writes := by
  unfold send
  split_ifs with hnil
  · simp [hnil.1, hnil.2]
  · have hok := write_answered_ok h.deletes_nodup h.deletes_held h.writes_nodup h.writes_missing
    simp only [hok, if_true, true_and]
    exact mem_write_of_ok hok

/-- What any requests leave. -/
theorem mem_send (fate : Fate) {x : Tuple} :
    (x ∈ (send failed s writes deletes fate).1 → x ∈ s ∨ x ∈ writes) ∧
      (x ∈ s → x ∈ (send failed s writes deletes fate).1 ∨ x ∈ deletes) := by
  unfold send
  split_ifs
  · exact ⟨.inl, .inl⟩
  · rw [mem_write]
    refine ⟨fun h => h.imp And.left mem_of_mem_written, fun hx => ?_⟩
    by_cases hd : x ∈ deleted s writes deletes fate
    · exact .inr (mem_of_mem_deleted hd)
    · exact .inl (.inl ⟨hx, hd⟩)

theorem Sendable.sortByKey (h : Sendable s writes deletes) :
    Sendable s (sortByKey writes) (sortByKey deletes) where
  deletes_nodup := (sortByKey_perm deletes).nodup_iff.2 h.deletes_nodup
  deletes_held := fun x hx => h.deletes_held x (mem_sortByKey.1 hx)
  writes_nodup := (sortByKey_perm writes).nodup_iff.2 h.writes_nodup
  writes_missing := fun x hx => h.writes_missing x (mem_sortByKey.1 hx)

theorem sortByKey_eq_nil {ts : List Tuple} : sortByKey ts = [] ↔ ts = [] := by
  simp only [eq_nil_iff_forall_not_mem, mem_sortByKey]

end Send

/-! ### `ReconcileTenants` -/

/-- The loop of `ReconcileTenants` over the tenants. -/
def planTenants (clusterName : String) (s : Store) :
    List TenantRights → Except IDError (List Tuple × List Tuple)
  | [] => .ok ([], [])
  | r :: rs =>
    match lookTenant clusterName s r with
    | .error e => .error e
    | .ok (w, d) =>
      match planTenants clusterName s rs with
      | .error e => .error e
      | .ok (ws, ds) => .ok (w ++ ws, d ++ ds)

/-- Tenants, no two of one name. -/
structure TenantList where
  entries : List TenantRights
  nodup : (entries.map TenantRights.name).Nodup

/-- How `ReconcileTenants` fails. -/
inductive TenantsError where
  | group (e : IDError)
  | read
  | write
deriving DecidableEq

/-- `ReconcileTenants`: the store it leaves, and what it returns. -/
def reconcileTenants (clusterName : String) (s : Store) (tenants : TenantList) (fate : CallFate) :
    Store × Except TenantsError Unit :=
  match planTenants clusterName s tenants.entries with
  | .error e => (s, .error (.group e))
  | .ok (writes, deletes) =>
    match fate with
    | .unread => (s, .error .read)
    | .read fate => send .write s (sortByKey writes) (sortByKey deletes) fate

/-- A tuple of one of the relations that the claim states for a tenant. -/
def Claims (r : TenantRights) (x : Tuple) : Prop :=
  x.object = tenant r.name ∧ x.relation ∈ claimTenantRelations
deriving Decidable

/-- The tuples that the claim states for a tenant. -/
def claimed (r : TenantRights) : List Tuple :=
  (r.heldBy.zip claimTenantRelations).flatMap fun p =>
    p.1.map fun user => ⟨user, p.2, tenant r.name⟩

/-- What is due to a tenant: its attachment, its consent when it is not attached
yet or is the platform tenant, its role tuples and the claim's role holders. -/
def Due (c : String) (s : Store) (r : TenantRights) (x : Tuple) : Prop :=
  x = attachment c r.name ∨
    (x = operatedBy c r.name ∧ (attachment c r.name ∉ s ∨ r.name = platformTenant)) ∨
    x ∈ tenantRoleGroups.map (roleTuple r.name) ∨ x ∈ claimed r

section Tenants

variable {c : String} {s : Store} {r : TenantRights} {w d : List Tuple} {x : Tuple}

/-- What the claim states. -/
theorem mem_claimed : x ∈ claimed r ↔ x.object = tenant r.name ∧
      ((x.relation = "perimeter_approver" ∧ x.user ∈ r.perimeterApprovers) ∨
        (x.relation = "auditor" ∧ x.user ∈ r.auditors)) := by
  obtain ⟨u, -, -⟩ := x
  simp only [claimed, TenantRights.heldBy, claimTenantRelations, zip_cons_cons,
    zip_nil_right, flatMap_cons, flatMap_nil, append_nil, mem_append,
    mem_map, Tuple.mk.injEq]
  constructor
  · rintro (⟨u, hu, rfl, rfl, rfl⟩ | ⟨u, hu, rfl, rfl, rfl⟩)
    · exact ⟨rfl, .inl ⟨rfl, hu⟩⟩
    · exact ⟨rfl, .inr ⟨rfl, hu⟩⟩
  · rintro ⟨rfl, ⟨rfl, hu⟩ | ⟨rfl, hu⟩⟩
    · exact .inl ⟨u, hu, rfl, rfl, rfl⟩
    · exact .inr ⟨u, hu, rfl, rfl, rfl⟩

theorem Due.object (h : Due c s r x) : x.object = tenant r.name := by
  rcases h with rfl | ⟨rfl, -⟩ | h | h
  · rfl
  · rfl
  · obtain ⟨-, -, rfl⟩ := mem_map.1 h
    rfl
  · exact (mem_claimed.1 h).1

theorem Due.claimed (h : Due c s r x) (hclaim : x.relation ∈ claimTenantRelations) :
    x ∈ claimed r := by
  have hroles : ∀ role ∈ tenantRoleGroups, role.1 ∉ claimTenantRelations := by decide
  rcases h with rfl | ⟨rfl, -⟩ | h | h
  · exact absurd hclaim (show "cluster" ∉ claimTenantRelations by decide)
  · exact absurd hclaim (show "operated_by" ∉ claimTenantRelations by decide)
  · obtain ⟨role, hrole, rfl⟩ := mem_map.1 h
    exact absurd hclaim (hroles role hrole)
  · exact h

variable {rs : List TenantRights} {relation : String}

theorem mem_read_relation (hrel : relation ≠ "") : x ∈ s.read ⟨"", relation, tenant r.name⟩ ↔
      x ∈ s ∧ x.relation = relation ∧ x.object = tenant r.name := by
  rw [mem_read, answers_iff (f := ⟨"", relation, tenant r.name⟩) (bareType_tenant r.valid)]
  simp only [true_or, true_and, hrel, tenant_ne_empty, false_or]
  exact and_congr_right fun _ => and_congr eq_comm eq_comm

/-- **What a round plans for a claim's relation**: the holders the claim names that
are not stored, and the stored ones it does not name. -/
theorem mem_settleClaim {users : List String} (hrel : relation ≠ "") :
    (x ∈ (settleClaim s (tenant r.name) users relation).1 ↔
        x = ⟨x.user, relation, tenant r.name⟩ ∧ x.user ∈ users ∧ x ∉ s) ∧
      (x ∈ (settleClaim s (tenant r.name) users relation).2 ↔
        x ∈ s ∧ x.relation = relation ∧ x.object = tenant r.name ∧ x.user ∉ users) := by
  have hsame : ∀ v ∈ users.dedup, ∀ y ∈ s.read ⟨"", relation, tenant r.name⟩,
      ∀ z ∈ s.read ⟨"", relation, tenant r.name⟩, id v = y.user → id v = z.user → y = z := by
    intro v _ y hy z hz hvy hvz
    obtain ⟨-, hyr, hyo⟩ := (mem_read_relation hrel).1 hy
    obtain ⟨-, hzr, hzo⟩ := (mem_read_relation hrel).1 hz
    cases y
    cases z
    simp_all
  unfold settleClaim
  constructor
  · simp only [mem_map, mem_settle_fst, mem_dedup, id_eq]
    constructor
    · rintro ⟨user, ⟨hu, hno⟩, rfl⟩
      exact ⟨rfl, hu, fun hs => hno _ ((mem_read_relation hrel).2 ⟨hs, rfl, rfl⟩) rfl⟩
    · rintro ⟨hx, hu, hs⟩
      refine ⟨x.user, ⟨hu, fun y hy he => hs ?_⟩, hx.symm⟩
      obtain ⟨hy, hyr, hyo⟩ := (mem_read_relation hrel).1 hy
      have : x = y := by
        cases y
        simp_all
      exact this ▸ hy
  · simp only [mem_settle_snd_of (nodup_read s _) hsame, mem_read_relation hrel, mem_dedup]
    constructor
    · rintro ⟨⟨hx, hr, ho⟩, hno⟩
      exact ⟨hx, hr, ho, fun hu => hno _ hu rfl⟩
    · rintro ⟨hx, hr, ho, hu⟩
      exact ⟨⟨hx, hr, ho⟩, fun v hv he => hu (he ▸ hv)⟩

/-- The plan for one tenant. -/
theorem lookTenant_eq (c : String) (s : Store) (r : TenantRights) : lookTenant c s r =
      .ok ((if attachment c r.name ∉ s then [attachment c r.name] else []) ++
          (if attachment c r.name ∉ s ∨ r.name = platformTenant then
            if operatedBy c r.name ∉ s then [operatedBy c r.name] else [] else []) ++
          (tenantRoleGroups.map (roleTuple r.name)).filter (fun t => decide (s.read t = [])) ++
          ((r.heldBy.zip claimTenantRelations).map fun p =>
            settleClaim s (tenant r.name) p.1 p.2).flatMap (·.1),
        ((r.heldBy.zip claimTenantRelations).map fun p =>
          settleClaim s (tenant r.name) p.1 p.2).flatMap (·.2)) := by
  unfold lookTenant tenantDefaults
  simp only [read_attachment_eq_nil, read_operatedBy_eq_nil, roleTuples_of_valid r.valid, tail_cons]

theorem read_roleTuple_eq_nil {role : String × String} (hrole : role ∈ tenantRoleGroups) :
    s.read (roleTuple r.name role) = [] ↔ roleTuple r.name role ∉ s := by
  have hrel : ∀ role ∈ tenantRoleGroups, role.1 ≠ "" := by decide
  refine read_eq_nil_iff (fun h => ?_) (hrel role hrole) (tenant_ne_empty _)
    (bareType_tenant r.valid)
  exact absurd (String.append_eq_empty_iff.1 h).2 (by decide)

/-- **What a round plans**: what is due and missing, and what is stored of the
claim's entries and not named by the claim. -/
theorem mem_lookTenant (h : lookTenant c s r = .ok (w, d)) (x : Tuple) :
    (x ∈ w ↔ Due c s r x ∧ x ∉ s) ∧ (x ∈ d ↔ x ∈ s ∧ Claims r x ∧ x ∉ claimed r) := by
  have hpa : "perimeter_approver" ≠ "" := by decide
  have hau : "auditor" ≠ "" := by decide
  rw [lookTenant_eq] at h
  cases h
  have hroles : x ∈ (tenantRoleGroups.map (roleTuple r.name)).filter
      (fun t => decide (s.read t = [])) ↔ x ∈ tenantRoleGroups.map (roleTuple r.name) ∧ x ∉ s := by
    rw [mem_filter]
    refine and_congr_right fun hx => ?_
    obtain ⟨role, hrole, rfl⟩ := mem_map.1 hx
    rw [decide_eq_true_eq, read_roleTuple_eq_nil hrole]
  have hone : ∀ y, (y ∉ s ∧ x = y) ↔ (x = y ∧ x ∉ s) := fun y =>
    ⟨fun h => ⟨h.2, h.2 ▸ h.1⟩, fun h => ⟨h.1 ▸ h.2, h.1⟩⟩
  have hform : ∀ {relation}, x = ⟨x.user, relation, tenant r.name⟩ ↔
      x.relation = relation ∧ x.object = tenant r.name := by
    cases x
    simp
  simp only [TenantRights.heldBy, claimTenantRelations, zip_cons_cons, zip_nil_right,
    map_cons, map_nil, flatMap_cons, flatMap_nil,
    mem_append, mem_ite_nil_right, hone, hroles,
    (mem_settleClaim hpa).1, (mem_settleClaim hau).1, (mem_settleClaim hpa).2,
    (mem_settleClaim hau).2, hform, Due, Claims, mem_claimed, mem_cons, not_mem_nil,
    or_false]
  constructor
  · by_cases hxs : x ∈ s
    · simp [hxs]
    · simp only [hxs, not_false_eq_true, and_true]
      tauto
  · have hne : "perimeter_approver" ≠ "auditor" := by decide
    constructor
    · rintro (⟨hx, hr, ho, hu⟩ | ⟨hx, hr, ho, hu⟩)
      · exact ⟨hx, ⟨ho, .inl hr⟩, fun hn => hn.2.elim (fun h => hu h.2)
          fun h => hne (hr.symm.trans h.1)⟩
      · exact ⟨hx, ⟨ho, .inr hr⟩, fun hn => hn.2.elim (fun h => hne (h.1.symm.trans hr))
          fun h => hu h.2⟩
    · rintro ⟨hx, ⟨ho, hr | hr⟩, hn⟩
      · exact .inl ⟨hx, hr, ho, fun hu => hn ⟨ho, .inl ⟨hr, hu⟩⟩⟩
      · exact .inr ⟨hx, hr, ho, fun hu => hn ⟨ho, .inr ⟨hr, hu⟩⟩⟩

/-- Tuples that are of these relations, none twice. -/
structure Under (relations : List String) (ts : List Tuple) : Prop where
  nodup : ts.Nodup
  relation : ∀ x ∈ ts, x.relation ∈ relations

theorem Under.append {R R' : List String} {as bs : List Tuple} (ha : Under R as) (hb : Under R' bs)
    (hR : ∀ relation ∈ R, relation ∉ R') : Under (R ++ R') (as ++ bs) where
  nodup := ha.nodup.append hb.nodup fun x hx hy => hR _ (ha.relation x hx) (hb.relation x hy)
  relation := fun x hx => mem_append.2 ((mem_append.1 hx).imp (ha.relation x) (hb.relation x))

theorem Under.singleton (x : Tuple) : Under [x.relation] [x] :=
  ⟨nodup_singleton x, fun _ hy => mem_singleton.1 hy ▸ mem_singleton_self _⟩

theorem Under.ite {R : List String} {ts : List Tuple} (h : Under R ts) (p : Prop) [Decidable p] :
    Under R (if p then ts else []) := by
  split_ifs
  · exact h
  · exact ⟨nodup_nil, nofun⟩

theorem under_settleClaim (users : List String) (hrel : relation ≠ "") :
    Under [relation] (settleClaim s (tenant r.name) users relation).1 ∧
      Under [relation] (settleClaim s (tenant r.name) users relation).2 := by
  have hsnd : (settleClaim s (tenant r.name) users relation).2.Sublist
      (s.read ⟨"", relation, tenant r.name⟩) := by
    unfold settleClaim
    exact settle_snd_sublist
  refine ⟨⟨List.Nodup.map_on (fun u _ v _ he => congrArg Tuple.user he) ?_, fun x hx => ?_⟩,
    (nodup_read s _).sublist hsnd, fun x hx => ?_⟩
  · exact (nodup_dedup users).sublist settle_fst_sublist
  · rw [((mem_settleClaim hrel).1.1 hx).1]
    exact mem_singleton_self _
  · exact mem_singleton.2 ((mem_settleClaim hrel).2.1 hx).2.1

theorem under_roleTuples (p : Tuple → Bool) :
    Under ["admin", "member"] ((tenantRoleGroups.map (roleTuple r.name)).filter p) := by
  have hrel : ∀ a ∈ tenantRoleGroups, a.1 ∈ ["admin", "member"] := by decide
  have hinj : ∀ a ∈ tenantRoleGroups, ∀ b ∈ tenantRoleGroups, a.1 = b.1 → a = b := by decide
  refine ⟨List.Nodup.filter _ (List.Nodup.map_on (fun a ha b hb he => ?_) (by decide)),
    fun x hx => ?_⟩
  · exact hinj a ha b hb (congrArg Tuple.relation he)
  · obtain ⟨role, hrole, rfl⟩ := mem_map.1 (mem_of_mem_filter hx)
    exact hrel role hrole

/-- It writes and deletes nothing twice. -/
theorem nodup_lookTenant (h : lookTenant c s r = .ok (w, d)) : w.Nodup ∧ d.Nodup := by
  obtain ⟨hpa, hpad⟩ := under_settleClaim (s := s) (r := r) r.perimeterApprovers
    (show "perimeter_approver" ≠ "" by decide)
  obtain ⟨hau, haud⟩ := under_settleClaim (s := s) (r := r) r.auditors
    (show "auditor" ≠ "" by decide)
  have hatt : Under ["cluster"] [attachment c r.name] :=
    Under.singleton (attachment c r.name)
  rw [lookTenant_eq] at h
  cases h
  simp only [TenantRights.heldBy, claimTenantRelations, zip_cons_cons, zip_nil_right,
    map_cons, map_nil, flatMap_cons, flatMap_nil, append_nil]
  refine ⟨?_, (hpad.append haud (by decide)).nodup⟩
  have hcon : Under ["operated_by"] (if attachment c r.name ∉ s ∨ r.name = platformTenant then
      if operatedBy c r.name ∉ s then [operatedBy c r.name] else [] else []) :=
    ((Under.singleton (operatedBy c r.name)).ite _).ite _
  refine Under.nodup (Under.append (Under.append (Under.append (hatt.ite _) hcon ?_)
    (under_roleTuples _) ?_) (hpa.append hau ?_) ?_)
  all_goals decide

theorem planTenants_isOk (c : String) (s : Store) (rs : List TenantRights) :
    ∃ w d, planTenants c s rs = .ok (w, d) := by
  induction rs with
  | nil => exact ⟨[], [], rfl⟩
  | cons r rs ih =>
    obtain ⟨ws, ds, hrest⟩ := ih
    unfold planTenants
    rw [lookTenant_eq, hrest]
    exact ⟨_, _, rfl⟩

/-- A plan is made tenant by tenant. -/
theorem planTenants_cons_eq_ok (h : planTenants c s (r :: rs) = .ok (w, d)) :
    ∃ w1 d1 w2 d2, lookTenant c s r = .ok (w1, d1) ∧ planTenants c s rs = .ok (w2, d2) ∧
      w = w1 ++ w2 ∧ d = d1 ++ d2 := by
  obtain ⟨w2, d2, hrest⟩ := planTenants_isOk c s rs
  obtain ⟨p, hlook⟩ : ∃ p, lookTenant c s r = .ok p := ⟨_, lookTenant_eq c s r⟩
  unfold planTenants at h
  rw [hlook, hrest] at h
  cases h
  exact ⟨p.1, p.2, w2, d2, hlook, hrest, rfl, rfl⟩

/-- **What a call plans**, over all its tenants. -/
theorem mem_planTenants (h : planTenants c s rs = .ok (w, d)) (x : Tuple) :
    (x ∈ w ↔ ∃ r ∈ rs, Due c s r x ∧ x ∉ s) ∧
      (x ∈ d ↔ ∃ r ∈ rs, x ∈ s ∧ Claims r x ∧ x ∉ claimed r) := by
  induction rs generalizing w d with
  | nil =>
    cases h
    simp
  | cons r rs ih =>
    obtain ⟨w1, d1, w2, d2, hlook, hrest, rfl, rfl⟩ := planTenants_cons_eq_ok h
    obtain ⟨hw, hd⟩ := mem_lookTenant hlook x
    obtain ⟨hws, hds⟩ := ih hrest
    simp [hw, hd, hws, hds]

/-- A plan is about its tenants. -/
theorem object_of_mem_planTenants (h : planTenants c s rs = .ok (w, d)) (hx : x ∈ w ∨ x ∈ d) :
    ∃ r ∈ rs, x.object = tenant r.name := by
  rcases hx with hx | hx
  · obtain ⟨r, hr, hdue, -⟩ := (mem_planTenants h x).1.1 hx
    exact ⟨r, hr, hdue.object⟩
  · obtain ⟨r, hr, -, hclaims, -⟩ := (mem_planTenants h x).2.1 hx
    exact ⟨r, hr, hclaims.1⟩

section

variable (hnodup : (rs.map TenantRights.name).Nodup) (h : planTenants c s rs = .ok (w, d))

include hnodup h

theorem nodup_planTenants : w.Nodup ∧ d.Nodup := by
  induction rs generalizing w d with
  | nil =>
    cases h
    exact ⟨nodup_nil, nodup_nil⟩
  | cons r rs ih =>
    obtain ⟨w1, d1, w2, d2, hlook, hrest, rfl, rfl⟩ := planTenants_cons_eq_ok h
    rw [map_cons, nodup_cons] at hnodup
    obtain ⟨hw1, hd1⟩ := nodup_lookTenant hlook
    obtain ⟨hw2, hd2⟩ := ih hnodup.2 hrest
    -- the entries of the first tenant are held on it, and the others name it no more
    have hapart : ∀ x, x.object = tenant r.name → ¬(x ∈ w2 ∨ x ∈ d2) := by
      intro x hobj hx
      obtain ⟨r', hr', hobj'⟩ := object_of_mem_planTenants hrest hx
      have hname : r'.name = r.name := tenant_inj (hobj'.symm.trans hobj)
      exact hnodup.1 (hname ▸ mem_map_of_mem hr')
    refine ⟨hw1.append hw2 fun x hx hx' => ?_, hd1.append hd2 fun x hx hx' => ?_⟩
    · exact hapart x ((mem_lookTenant hlook x).1.1 hx).1.object (.inl hx')
    · exact hapart x ((mem_lookTenant hlook x).2.1 hx).2.1.1 (.inr hx')

/-- **The plan of a call has no conflicts.** -/
theorem sendable_planTenants : Sendable s w d where
  deletes_nodup := (nodup_planTenants hnodup h).2
  deletes_held := fun x hx => by
    obtain ⟨r, -, hs, -⟩ := (mem_planTenants h x).2.1 hx
    exact hs
  writes_nodup := (nodup_planTenants hnodup h).1
  writes_missing := fun x hx => by
    obtain ⟨r, -, -, hs⟩ := (mem_planTenants h x).1.1 hx
    exact hs

end

/-- **`ReconcileTenants` with every request answered** returns, and leaves what is
due to its tenants and all it found but the claim's entries on them. -/
theorem mem_reconcileTenants (c : String) (s : Store) (tenants : TenantList) :
    (reconcileTenants c s tenants (.read .answered)).2 = .ok () ∧
      ∀ x, x ∈ (reconcileTenants c s tenants (.read .answered)).1 ↔
        (∃ r ∈ tenants.entries, Due c s r x) ∨ (x ∈ s ∧ ∀ r ∈ tenants.entries, ¬Claims r x) := by
  obtain ⟨w, d, hplan⟩ := planTenants_isOk c s tenants.entries
  obtain ⟨hok, hmem⟩ := send_answered TenantsError.write
    (sendable_planTenants tenants.nodup hplan).sortByKey
  unfold reconcileTenants
  rw [hplan]
  refine ⟨hok, fun x => (hmem x).trans ?_⟩
  rw [mem_sortByKey, mem_sortByKey, (mem_planTenants hplan x).1, (mem_planTenants hplan x).2]
  constructor
  · rintro (⟨hs, hd⟩ | ⟨r, hr, hdue, -⟩)
    · by_cases hclaims : ∃ r ∈ tenants.entries, Claims r x
      · obtain ⟨r, hr, hc⟩ := hclaims
        refine .inl ⟨r, hr, .inr (.inr (.inr ?_))⟩
        exact not_not.1 fun hnot => hd ⟨r, hr, hs, hc, hnot⟩
      · exact .inr ⟨hs, fun r hr hc => hclaims ⟨r, hr, hc⟩⟩
    · exact .inl ⟨r, hr, hdue⟩
  · rintro (⟨r, hr, hdue⟩ | ⟨hs, hkept⟩)
    · by_cases hs : x ∈ s
      · refine .inl ⟨hs, ?_⟩
        rintro ⟨r', hr', -, hclaims, hnot⟩
        have hname : r'.name = r.name := tenant_inj (hclaims.1.symm.trans hdue.object)
        obtain rfl := inj_on_of_nodup_map tenants.nodup hr' hr hname
        exact hnot (hdue.claimed hclaims.2)
      · exact .inr ⟨r, hr, hdue, hs⟩
    · exact .inl ⟨hs, fun ⟨r, hr, _, hclaims, _⟩ => hkept r hr hclaims⟩

/-- **Nothing is left to do**: after a call that was answered, every other call for the same
tenants leaves the store as it is, whatever becomes of its requests. -/
theorem reconcileTenants_settles (c : String) (s : Store) (tenants : TenantList) (fate : CallFate) :
    (reconcileTenants c (reconcileTenants c s tenants (.read .answered)).1 tenants fate).1 =
      (reconcileTenants c s tenants (.read .answered)).1 := by
  obtain ⟨-, hmem⟩ := mem_reconcileTenants c s tenants
  generalize (reconcileTenants c s tenants (.read .answered)).1 = s' at hmem ⊢
  obtain ⟨w, d, hplan⟩ := planTenants_isOk c s' tenants.entries
  have hw : w = [] := by
    refine eq_nil_iff_forall_not_mem.2 fun x hx => ?_
    obtain ⟨r, hr, hdue, hno⟩ := (mem_planTenants hplan x).1.1 hx
    have hattached := (hmem (attachment c r.name)).2 (.inl ⟨r, hr, .inl rfl⟩)
    -- what is due depends on the store through the attachment alone
    refine hno ((hmem x).2 (.inl ⟨r, hr, hdue.imp_right (Or.imp_left (And.imp_right fun h => ?_))⟩))
    exact .inr (h.resolve_left (absurd hattached))
  have hd : d = [] := by
    refine eq_nil_iff_forall_not_mem.2 fun x hx => ?_
    obtain ⟨r, hr, hx, hclaims, hno⟩ := (mem_planTenants hplan x).2.1 hx
    rcases (hmem x).1 hx with ⟨r', hr', hdue⟩ | ⟨-, hkept⟩
    · obtain rfl := inj_on_of_nodup_map tenants.nodup hr' hr
        (tenant_inj (hdue.object.symm.trans hclaims.1))
      exact hno (hdue.claimed hclaims.2)
    · exact hkept r hr hclaims
  unfold reconcileTenants
  rw [hplan, hw, hd]
  cases fate <;> rfl

/-- A call that could not read changes nothing. -/
theorem reconcileTenants_unread (c : String) (s : Store) (tenants : TenantList) :
    (reconcileTenants c s tenants .unread).1 = s := by
  unfold reconcileTenants
  split <;> rfl

end Tenants

end Gentian.Authz
