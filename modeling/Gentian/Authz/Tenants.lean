/-
# The tenants of a cluster in the rights store

`internal/director/authz/tenants.go` (`TenantRights`, `ReconcileTenants`) and
`internal/director/authz/storeonly.go` (`tenantDefaults`).

`ReconcileTenants` plans for each tenant what is missing: the `cluster` tuple that attaches
it, the `operated_by` tuple that is its consent, the two role tuples, and the difference
between the claim's role holders and the stored ones.  The consent is planned only together
with the attachment, and always for the platform tenant.  `lookTenant` is one round of that
loop.  A tenant's name is checked when the Tenant object is made, so `TenantRights` carries
that it is valid.
-/

import Gentian.Authz.Names
import Gentian.Base.Settle
import Gentian.OpenFGA.Store

namespace Gentian.Authz

open GoStrings Api OpenFGA Reconcile List Store

/-- `PlatformTenant`: the tenant whose members are the platform's
administrators. -/
def platformTenant : String := "platform"

/-- `tenantRoleGroups`: the relations on a tenant that a group holds, and the
group's suffix. -/
def tenantRoleGroups : List (String × String) := [("admin", "admins"), ("member", "members")]

/-- `claimTenantRelations`: the relations on a tenant that the Cluster claim's
role holders hold. -/
def claimTenantRelations : List String := ["perimeter_approver", "auditor"]

/-- `TenantRights`: a tenant, and who the Cluster claim names its perimeter
approvers and its auditors. -/
structure TenantRights where
  name : String
  perimeterApprovers : List String := []
  auditors : List String := []
  valid : validTenantName name = true
deriving DecidableEq

/-- `heldBy`: who holds each of `claimTenantRelations`, in that order. -/
def TenantRights.heldBy (r : TenantRights) : List (List String) :=
  [r.perimeterApprovers, r.auditors]

/-- The tuple that attaches a tenant to its cluster. -/
def attachment (clusterName name : String) : Tuple := ⟨cluster clusterName, "cluster", tenant name⟩

/-- The tuple that says a tenant is operated by its cluster. -/
def operatedBy (clusterName name : String) : Tuple :=
  ⟨cluster clusterName, "operated_by", tenant name⟩

/-- The loop of `tenantDefaults` over the role groups of a tenant. -/
def roleTuples (name : String) : List (String × String) → Except IDError (List Tuple)
  | [] => .ok []
  | (relation, suffix) :: roles =>
    match group (tenantGroup name suffix) with
    | .error e => .error e
    | .ok g =>
      match roleTuples name roles with
      | .error e => .error e
      | .ok ts => .ok (⟨g ++ "#member", relation, tenant name⟩ :: ts)

/-- `tenantDefaults`: the entries written whenever one is missing, and the entry
written when the tenant is first attached. -/
def tenantDefaults (clusterName name : String) : Except IDError (List Tuple × List Tuple) :=
  match roleTuples name tenantRoleGroups with
  | .error e => .error e
  | .ok roles => .ok (attachment clusterName name :: roles, [operatedBy clusterName name])

/-- The role holders of one relation: what is missing of the claim's, and what is
stored beside them. -/
def settleClaim (s : Store) (object : String) (users : List String) (relation : String) :
    List Tuple × List Tuple :=
  let left := settle id Tuple.user users.dedup (s.read ⟨"", relation, object⟩)
  (left.1.map fun user => ⟨user, relation, object⟩, left.2)

/-- One round of the loop of `ReconcileTenants`, every read answered: the writes
and the deletes it plans for the tenant. -/
def lookTenant (clusterName : String) (s : Store) (r : TenantRights) :
    Except IDError (List Tuple × List Tuple) :=
  let attached := s.read (attachment clusterName r.name)
  let attach := if attached = [] then [attachment clusterName r.name] else []
  let consent :=
    if attached = [] ∨ r.name = platformTenant then
      if s.read (operatedBy clusterName r.name) = [] then [operatedBy clusterName r.name] else []
    else []
  match tenantDefaults clusterName r.name with
  | .error e => .error e
  | .ok (standing, _) =>
    let roles := standing.tail.filter fun t => decide (s.read t = [])
    let claims := (r.heldBy.zip claimTenantRelations).map fun p =>
      settleClaim s (tenant r.name) p.1 p.2
    .ok (attach ++ consent ++ roles ++ claims.flatMap (·.1), claims.flatMap (·.2))

/-! ### What a round plans -/

variable {s : Store} {c name x y : String} {r : TenantRights}

theorem tenant_inj (h : tenant x = tenant y) : x = y :=
  (String.append_right_inj _).1 h

theorem attachment_inj (h : attachment c x = attachment c y) : x = y :=
  tenant_inj (congrArg Tuple.object h)

theorem operatedBy_inj (h : operatedBy c x = operatedBy c y) : x = y :=
  tenant_inj (congrArg Tuple.object h)

theorem attachment_ne_operatedBy (c x y : String) : attachment c x ≠ operatedBy c y := fun h =>
  absurd (congrArg Tuple.relation h) (show "cluster" ≠ "operated_by" by decide)

theorem bareType_tenant (h : validTenantName name) : bareType (tenant name) = false := by
  refine bareType_append (by decide) ?_
  rintro rfl
  cases h

theorem cluster_ne_empty (c : String) : cluster c ≠ "" := fun h =>
  absurd (String.append_eq_empty_iff.1 h).1 (by decide)

theorem tenant_ne_empty (name : String) : tenant name ≠ "" := fun h =>
  absurd (String.append_eq_empty_iff.1 h).1 (by decide)

/-- A tuple that is neither an attachment nor an operator's. -/
def IsDerived (t : Tuple) : Prop := t.relation ≠ "cluster" ∧ t.relation ≠ "operated_by"

theorem not_isDerived_attachment (c x : String) : ¬IsDerived (attachment c x) := fun h => h.1 rfl

theorem not_isDerived_operatedBy (c x : String) : ¬IsDerived (operatedBy c x) := fun h => h.2 rfl

theorem read_attachment_eq_nil : s.read (attachment c r.name) = [] ↔ attachment c r.name ∉ s :=
  read_eq_nil_iff (cluster_ne_empty c) (show "cluster" ≠ "" by decide) (tenant_ne_empty _)
    (bareType_tenant r.valid)

theorem read_operatedBy_eq_nil : s.read (operatedBy c r.name) = [] ↔ operatedBy c r.name ∉ s :=
  read_eq_nil_iff (cluster_ne_empty c) (show "operated_by" ≠ "" by decide)
    (tenant_ne_empty _) (bareType_tenant r.valid)

/-- The tuple by which a tenant's own group holds a role on it. -/
def roleTuple (name : String) (role : String × String) : Tuple :=
  ⟨"group:" ++ ("gentian/tenant/" ++ name ++ "/" ++ role.2) ++ "#member", role.1, tenant name⟩

theorem roleTuples_eq_ok (h : validTenantName name) {roles : List (String × String)}
    (hroles : ∀ role ∈ roles, containsAny role.2 "#/ \t\r\n" = false ∧
      replaceAll role.2 ':' '/' = role.2) :
    roleTuples name roles = .ok (roles.map (roleTuple name)) := by
  induction roles with
  | nil => rfl
  | cons role roles ih =>
    obtain ⟨⟨hchars, hrep⟩, hroles⟩ := forall_mem_cons.1 hroles
    have hgroup := group_tenantGroup h (containsAny_eq_false_iff.1 hchars)
    rw [hrep] at hgroup
    unfold roleTuples
    rw [hgroup, ih hroles]
    rfl

/-- The roles of a tenant. -/
theorem roleTuples_of_valid (h : validTenantName name) :
    roleTuples name tenantRoleGroups = .ok (tenantRoleGroups.map (roleTuple name)) :=
  roleTuples_eq_ok h (by decide)

theorem isDerived_roleTuple (name : String) :
    ∀ t ∈ tenantRoleGroups.map (roleTuple name), IsDerived t := by
  have hrel : ∀ role ∈ tenantRoleGroups, role.1 ≠ "cluster" ∧ role.1 ≠ "operated_by" := by decide
  intro t ht
  obtain ⟨role, hrole, rfl⟩ := mem_map.1 ht
  exact hrel role hrole

theorem isDerived_settleClaim {object relation : String} {users : List String}
    (hrel : relation ∈ claimTenantRelations) :
    (∀ t ∈ (settleClaim s object users relation).1, IsDerived t) ∧
      ∀ t ∈ (settleClaim s object users relation).2, IsDerived t := by
  have hne : relation ≠ "" ∧ relation ≠ "cluster" ∧ relation ≠ "operated_by" := by
    simp only [claimTenantRelations, mem_cons, not_mem_nil, or_false] at hrel
    rcases hrel with rfl | rfl <;> decide
  constructor
  · intro t ht
    obtain ⟨user, -, rfl⟩ := mem_map.1 ht
    exact hne.2
  · intro t ht
    change t ∈ (settle id Tuple.user users.dedup (s.read ⟨"", relation, object⟩)).2 at ht
    have hfound := settle_snd_sublist.subset ht
    have hread := (mem_read.1 hfound).2
    simp only [Tuple.answers, Bool.and_eq_true, Bool.or_eq_true, decide_eq_true_eq] at hread
    have hrel : relation = t.relation := hread.1.2.resolve_left hne.1
    rw [IsDerived, ← hrel]
    exact hne.2

/-- **What a round plans**: the attachment when it is missing, the consent when it
is missing and the tenant is not attached or is the platform tenant, and
otherwise derived tuples only. -/
theorem lookTenant_eq_ok {w d : List Tuple} (h : lookTenant c s r = .ok (w, d)) :
    ∃ rest, w = (if attachment c r.name ∈ s then [] else [attachment c r.name]) ++
        (if operatedBy c r.name ∈ s ∨ attachment c r.name ∈ s ∧ r.name ≠ platformTenant then []
          else [operatedBy c r.name]) ++ rest ∧
      (∀ t ∈ rest, IsDerived t) ∧ ∀ t ∈ d, IsDerived t := by
  have hattach : (if attachment c r.name ∉ s then [attachment c r.name] else []) =
      if attachment c r.name ∈ s then [] else [attachment c r.name] := by
    by_cases ha : attachment c r.name ∈ s <;> simp [ha]
  have hconsent : (if attachment c r.name ∉ s ∨ r.name = platformTenant then
        if operatedBy c r.name ∉ s then [operatedBy c r.name] else [] else []) =
      if operatedBy c r.name ∈ s ∨ attachment c r.name ∈ s ∧ r.name ≠ platformTenant then []
        else [operatedBy c r.name] := by
    by_cases ha : attachment c r.name ∈ s <;> by_cases ho : operatedBy c r.name ∈ s <;>
      by_cases hp : r.name = platformTenant <;> simp [ha, ho]
  have hclaims : ∀ p ∈ r.heldBy.zip claimTenantRelations, p.2 ∈ claimTenantRelations :=
    fun p hp => (of_mem_zip hp).2
  unfold lookTenant tenantDefaults at h
  simp only [read_attachment_eq_nil, read_operatedBy_eq_nil, hattach, hconsent,
    roleTuples_of_valid r.valid] at h
  cases h
  refine ⟨_, append_assoc _ _ _, fun t ht => ?_, fun t ht => ?_⟩
  · rcases mem_append.1 ht with ht | ht
    · exact isDerived_roleTuple r.name t (mem_of_mem_filter ht)
    · obtain ⟨q, hq, ht⟩ := mem_flatMap.1 ht
      obtain ⟨p, hp, rfl⟩ := mem_map.1 hq
      exact (isDerived_settleClaim (hclaims p hp)).1 t ht
  · obtain ⟨q, hq, ht⟩ := mem_flatMap.1 ht
    obtain ⟨p, hp, rfl⟩ := mem_map.1 hq
    exact (isDerived_settleClaim (hclaims p hp)).2 t ht

section Look

variable {c : String} {s : Store} {r : TenantRights} {w d : List Tuple}

section

variable (h : lookTenant c s r = .ok (w, d))

include h

/-- A tenant is attached just when it was not. -/
theorem attachment_mem_look :
    attachment c x ∈ w ↔ x = r.name ∧ attachment c x ∉ s := by
  obtain ⟨rest, rfl, hrest, -⟩ := lookTenant_eq_ok h
  have hnot : attachment c x ∉ rest := fun hm => not_isDerived_attachment c x (hrest _ hm)
  have hown : attachment c x = attachment c r.name ↔ x = r.name :=
    ⟨attachment_inj, congrArg _⟩
  rw [mem_append, mem_append, or_iff_left hnot]
  constructor
  · rintro (hm | hm)
    · split_ifs at hm with hs
      · cases hm
      · obtain rfl := hown.1 (mem_singleton.1 hm)
        exact ⟨rfl, hs⟩
    · split_ifs at hm with hs
      · cases hm
      · exact absurd (mem_singleton.1 hm) (attachment_ne_operatedBy c x r.name)
  · rintro ⟨rfl, hs⟩
    exact .inl (by rw [if_neg hs]; exact mem_singleton_self _)

/-- A round plans a consent for its own tenant only, when it is missing and the
tenant is not attached or is the platform tenant. -/
theorem operatedBy_mem_look :
    operatedBy c x ∈ w ↔ x = r.name ∧ operatedBy c x ∉ s ∧
      (attachment c x ∈ s → x = platformTenant) := by
  obtain ⟨rest, rfl, hrest, -⟩ := lookTenant_eq_ok h
  have hnot : operatedBy c x ∉ rest := fun hm => not_isDerived_operatedBy c x (hrest _ hm)
  rw [mem_append, mem_append, or_iff_left hnot]
  constructor
  · rintro (hm | hm)
    · split_ifs at hm with hs
      · cases hm
      · exact absurd (mem_singleton.1 hm).symm (attachment_ne_operatedBy c r.name x)
    · split_ifs at hm with hs
      · cases hm
      · obtain rfl := operatedBy_inj (mem_singleton.1 hm)
        rw [not_or, not_and, not_not] at hs
        exact ⟨rfl, hs⟩
  · rintro ⟨rfl, hs⟩
    rw [← not_not (a := r.name = platformTenant), ← not_and, ← not_or] at hs
    exact .inr (by rw [if_neg hs]; exact mem_singleton_self _)

/-- An operator's right is written only with the attachment. -/
theorem count_look (hx : x ≠ platformTenant) :
    w.count (operatedBy c x) ≤ w.count (attachment c x) := by
  have hmem := operatedBy_mem_look h (x := x)
  obtain ⟨rest, rfl, hrest, -⟩ := lookTenant_eq_ok h
  have hnot : rest.count (operatedBy c x) = 0 :=
    count_eq_zero.2 fun hm => not_isDerived_operatedBy c x (hrest _ hm)
  have hne : attachment c r.name ≠ operatedBy c x := attachment_ne_operatedBy c r.name x
  by_cases hm : operatedBy c x ∈ (if attachment c r.name ∈ s then [] else [attachment c r.name]) ++
      (if operatedBy c r.name ∈ s ∨ attachment c r.name ∈ s ∧ r.name ≠ platformTenant then []
        else [operatedBy c r.name]) ++ rest
  · -- the tenant is not attached, so its attachment is planned as well
    obtain ⟨rfl, -, hplat⟩ := hmem.1 hm
    have hout : attachment c r.name ∉ s := fun hs => hx (hplat hs)
    rw [count_append, count_append, hnot, if_neg hout, count_singleton, if_neg (by simpa using hne)]
    split_ifs <;> simp
  · rw [count_eq_zero.2 hm]
    exact Nat.zero_le _

end

/-- A round over a store that holds attachments only, for a tenant the claim names
nobody for: both tuples when the attachment is missing, and the role tuples. -/
theorem lookTenant_of_attachments (hs : ∀ t ∈ s, t.relation = "cluster")
    (hclaim : r.perimeterApprovers = [] ∧ r.auditors = []) (hname : r.name ≠ platformTenant) :
    lookTenant c s r =
      .ok ((if attachment c r.name ∈ s then [] else [attachment c r.name, operatedBy c r.name]) ++
        tenantRoleGroups.map (roleTuple r.name), []) := by
  have hread : ∀ f, f.relation ≠ "" → f.relation ≠ "cluster" → s.read f = [] := by
    intro f hne hcl
    rw [eq_nil_iff_forall_not_mem]
    intro t ht
    obtain ⟨ht, hans⟩ := mem_read.1 ht
    simp only [Tuple.answers, Bool.and_eq_true, Bool.or_eq_true, decide_eq_true_eq] at hans
    exact hcl ((hans.1.2.resolve_left hne).trans (hs t ht))
  have hoper : s.read (operatedBy c r.name) = [] :=
    hread _ (show "operated_by" ≠ "" by decide) (show "operated_by" ≠ "cluster" by decide)
  have hrole : ∀ t ∈ tenantRoleGroups.map (roleTuple r.name), s.read t = [] := by
    have hrel : ∀ role ∈ tenantRoleGroups, role.1 ≠ "" ∧ role.1 ≠ "cluster" := by decide
    intro t ht
    obtain ⟨role, hrole, rfl⟩ := mem_map.1 ht
    exact hread _ (hrel role hrole).1 (hrel role hrole).2
  have hclaims : ∀ relation ∈ claimTenantRelations,
      settleClaim s (tenant r.name) [] relation = ([], []) := by
    have hrel : ∀ relation ∈ claimTenantRelations, relation ≠ "" ∧ relation ≠ "cluster" := by decide
    intro relation hrelation
    unfold settleClaim
    rw [hread ⟨"", relation, tenant r.name⟩ (hrel _ hrelation).1 (hrel _ hrelation).2]
    rfl
  have hheld : (r.heldBy.zip claimTenantRelations).map
      (fun p => settleClaim s (tenant r.name) p.1 p.2) = [([], []), ([], [])] := by
    rw [TenantRights.heldBy, hclaim.1, hclaim.2]
    simp only [claimTenantRelations, zip_cons_cons, zip_nil_right, map_cons, map_nil]
    rw [hclaims _ (by decide), hclaims _ (by decide)]
  unfold lookTenant tenantDefaults
  simp only [roleTuples_of_valid r.valid, tail_cons, hheld, hoper, read_attachment_eq_nil, hname]
  rw [filter_eq_self.2 fun t ht => decide_eq_true (hrole t ht)]
  by_cases hatt : attachment c r.name ∈ s <;> simp [hatt]

end Look

end Gentian.Authz
