/-
# The plan a tenant is on

`internal/resourceplan/catalogue.go` (`Load`, `Default`, `Match`, `Resolve`) and `QuotasEqual` of
`api/v1alpha1`.

The plans are sorted by tier and name, so that the first one found is the lowest.  A tenant is on
the plan whose quantities it has, whatever plan its annotation names.
-/

import Gentian.Base.Collections

namespace Gentian.Resourceplan

open List

/-- `TenantQuotas`, with its quantities as numbers. -/
structure TenantQuotas where
  maxApps : ℤ := 0
  storage : Option ℤ := none
  cpu : Option ℤ := none
  memory : Option ℤ := none
  requestsCPU : Option ℤ := none
  requestsMemory : Option ℤ := none
  maxPods : ℤ := 0
deriving DecidableEq

/-- `QuotasEqual` of quotas that are there: `MaxApps` is not compared. -/
def quotasEqual (a b : TenantQuotas) : Bool :=
  a.storage = b.storage && a.cpu = b.cpu && a.memory = b.memory &&
    a.requestsCPU = b.requestsCPU && a.requestsMemory = b.requestsMemory && a.maxPods = b.maxPods

/-- A plan, with its tier and its quotas. -/
structure ResourcePlan where
  name : String
  tier : ℤ
  isDefault : Bool
  quotas : TenantQuotas
deriving DecidableEq

/-- What plans are ordered by: the tier, then the name. -/
def ResourcePlan.rank (p : ResourcePlan) : ℤ ×ₗ String := toLex (p.tier, p.name)

/-- `Load`: the plans of the cluster, the lowest first. -/
def load (plans : Except String (List ResourcePlan)) : Except String (List ResourcePlan) :=
  match plans with
  | .error e => .error ("list resource plans: " ++ e)
  | .ok plans => .ok (plans.insertionSort fun p q =>
      (if q.tier ≠ p.tier then decide (q.tier < p.tier) else decide (q.name < p.name)) = false)

/-- `Catalogue.Default`. -/
def default (c : List ResourcePlan) : Option ResourcePlan := c.find? fun p => p.isDefault

/-- `Catalogue.Match`. -/
def matchPlan (c : List ResourcePlan) : Option TenantQuotas → Option ResourcePlan
  | none => none
  | some quotas => c.find? fun p => quotasEqual p.quotas quotas

/-- What is read of a `Tenant`: its annotation, `""` when it has none, and its quotas. -/
structure Tenant where
  annotation : String
  quotas : Option TenantQuotas

/-- What is known of a tenant's plan. -/
structure Resolution where
  plan : Option ResourcePlan := none
  annotated : String := ""
  drifted : Bool := false
  custom : Bool := false
deriving DecidableEq

/-- `Resolve`. -/
def resolve (c : List ResourcePlan) : Option Tenant → Resolution
  | none => {}
  | some t =>
    match matchPlan c t.quotas with
    | none =>
      -- no quotas at all is not a custom ceiling
      if t.quotas = none then { annotated := t.annotation, plan := default c }
      else { annotated := t.annotation, custom := true }
    | some p =>
      { annotated := t.annotation, plan := some p
        drifted := t.annotation ≠ "" && t.annotation ≠ p.name }

/-! ### What is resolved -/

/-- The tenant has the quantities of the plan. -/
def Tenant.has (t : Tenant) (p : ResourcePlan) : Bool := t.quotas.any (quotasEqual p.quotas)

/-- The lowest of the plans of which `q` holds, and none where it holds of none. -/
def Lowest (plans : List ResourcePlan) (q : ResourcePlan → Bool) : Option ResourcePlan → Prop
  | some p => p ∈ plans ∧ q p ∧ ∀ p' ∈ plans, q p' → p.rank ≤ p'.rank
  | none => ∀ p ∈ plans, ¬q p

/-- The first plan that is found in a loaded catalogue is the lowest one. -/
theorem lowest_find? {plans c : List ResourcePlan} {q : ResourcePlan → Bool}
    (h : load (.ok plans) = .ok c) : Lowest plans q (c.find? q) := by
  cases h
  cases hfind : find? q _ with
  | none => simpa [Lowest, find?_eq_none] using hfind
  | some p =>
    refine Ranked.first_of_rank (fun a b => ?_) hfind
    rw [ResourcePlan.rank, ResourcePlan.rank, Prod.Lex.toLex_le_toLex]
    split_ifs with hne
    · rw [decide_eq_false_iff_not, not_lt]
      simp [Ne.symm hne, lt_iff_le_and_ne]
    · rw [decide_eq_false_iff_not, not_lt]
      simp [not_not.1 hne]

/-- Two plans of one name are one plan, so the lowest one is found whatever it is found by. -/
theorem Lowest.eq_of_name {plans : List ResourcePlan} {q : ResourcePlan → Bool}
    {p p' : ResourcePlan} (hnodup : (plans.map ResourcePlan.name).Nodup)
    (h : Lowest plans q (some p)) (h' : Lowest plans q (some p')) : p = p' := by
  have hrank := le_antisymm (h.2.2 p' h'.1 h'.2.1) (h'.2.2 p h.1 h.2.1)
  exact inj_on_of_nodup_map hnodup h.1 h'.1 (congrArg (fun r => (ofLex r).2) hrank)

/-- `Match` goes by the quantities alone. -/
theorem matchPlan_eq {c : List ResourcePlan} {t : Tenant} :
    matchPlan c t.quotas = c.find? t.has := by
  unfold Tenant.has
  cases t.quotas with
  | none => exact (find?_eq_none.2 (by simp)).symm
  | some quotas => rfl

/-- What the documentation calls drifted: the annotation names a plan of other quantities. -/
def Tenant.drifted (t : Tenant) (plans : List ResourcePlan) : Prop :=
  ∃ p ∈ plans, p.name = t.annotation ∧ ¬t.has p

/-- There is no annotation; or it names a plan just when some plan has the tenant's quantities, and
no lower plan has them when the plan it names has them. -/
def Tenant.plainlyAnnotated (t : Tenant) (plans : List ResourcePlan) : Prop :=
  t.annotation = "" ∨ ((∃ p ∈ plans, p.name = t.annotation) ↔ ∃ p ∈ plans, t.has p) ∧
    ∀ p ∈ plans, p.name = t.annotation → t.has p → Lowest plans t.has (some p)

/-- `Drifted` of a tenant of whose quantities there is no plan is as documented when its annotation
names no plan. -/
theorem drifted_unmatched {plans : List ResourcePlan} {t : Tenant}
    (hname : ∀ p ∈ plans, p.name ≠ "") (hlow : Lowest plans t.has none) :
    ¬t.drifted plans ↔ t.plainlyAnnotated plans := by
  have hnot : ¬∃ p ∈ plans, t.has p := fun ⟨p, hp, hhas⟩ => hlow p hp hhas
  constructor
  · intro hdrift
    refine .inr ⟨iff_of_false (fun ⟨p, hp, heq⟩ => hdrift ⟨p, hp, heq, hlow p hp⟩) hnot, ?_⟩
    exact fun p hp _ hhas => absurd hhas (hlow p hp)
  · rintro (hnone | ⟨hboth, -⟩) ⟨p, hp, heq, -⟩
    · exact hname p hp (heq.trans hnone)
    · exact hnot (hboth.1 ⟨p, hp, heq⟩)

/-- `Drifted` of a tenant that is on a plan is as documented when its annotation names that plan or
one of other quantities. -/
theorem drifted_matched {plans : List ResourcePlan} {t : Tenant} {m : ResourcePlan}
    (hname : ∀ p ∈ plans, p.name ≠ "") (hnodup : (plans.map ResourcePlan.name).Nodup)
    (hlow : Lowest plans t.has (some m)) :
    ((t.annotation ≠ "" ∧ t.annotation ≠ m.name) ↔ t.drifted plans) ↔
      t.plainlyAnnotated plans := by
  have hsome : ∃ p ∈ plans, t.has p := ⟨m, hlow.1, hlow.2.1⟩
  by_cases hnone : t.annotation = ""
  · refine iff_of_true (iff_of_false (fun h => h.1 hnone) ?_) (.inl hnone)
    exact fun ⟨p, hp, heq, _⟩ => hname p hp (heq.trans hnone)
  constructor
  · intro hiff
    refine .inr ⟨iff_of_true ?_ hsome, fun p hp heq hhas => ?_⟩
    · by_contra hno
      have hother : t.annotation ≠ m.name := fun heq => hno ⟨m, hlow.1, heq.symm⟩
      obtain ⟨p, hp, heq, -⟩ := hiff.1 ⟨hnone, hother⟩
      exact hno ⟨p, hp, heq⟩
    · by_cases hsame : t.annotation = m.name
      · rwa [inj_on_of_nodup_map hnodup hp hlow.1 (heq.trans hsame)]
      · obtain ⟨p', hp', heq', hnot⟩ := hiff.1 ⟨hnone, hsame⟩
        rw [inj_on_of_nodup_map hnodup hp' hp (heq'.trans heq.symm)] at hnot
        exact absurd hhas hnot
  · rintro (hempty | ⟨hboth, hfirst⟩)
    · exact absurd hempty hnone
    constructor
    · rintro ⟨-, hother⟩
      obtain ⟨p, hp, heq⟩ := hboth.2 hsome
      refine ⟨p, hp, heq, fun hhas => hother ?_⟩
      rw [← heq, (hfirst p hp heq hhas).eq_of_name hnodup hlow]
    · rintro ⟨p, hp, heq, hnot⟩
      refine ⟨hnone, fun hsame => hnot ?_⟩
      rw [inj_on_of_nodup_map hnodup hp hlow.1 (heq.trans hsame)]
      exact hlow.2.1

/-- **A tenant is on the lowest plan whose quantities it has**, or without quotas on the lowest
default plan, and is custom when it has quotas of no plan.  **It is called drifted as documented
exactly when it is plainly annotated.** -/
theorem resolve_spec {plans c : List ResourcePlan} {t : Tenant} (h : load (.ok plans) = .ok c)
    (hname : ∀ p ∈ plans, p.name ≠ "") (hnodup : (plans.map ResourcePlan.name).Nodup) :
    let r := resolve c (some t)
    (if ∃ p ∈ plans, t.has p then Lowest plans t.has r.plan
      else if t.quotas = none then Lowest plans (·.isDefault) r.plan
      else r.plan = none) ∧
    (r.custom ↔ t.quotas ≠ none ∧ ∀ p ∈ plans, ¬t.has p) ∧
    ((r.drifted ↔ t.drifted plans) ↔ t.plainlyAnnotated plans) := by
  intro r
  have hlow := lowest_find? (q := t.has) h
  have hr : r = resolve c (some t) := rfl
  rw [resolve, matchPlan_eq] at hr
  cases hm : c.find? t.has with
  | none =>
    rw [hm] at hlow
    have hnot : ¬∃ p ∈ plans, t.has p := fun ⟨p, hp, hhas⟩ => hlow p hp hhas
    rw [if_neg hnot]
    have hdrift : r.drifted = false := by
      rw [hr, hm]
      dsimp only
      split_ifs <;> rfl
    refine ⟨?_, ?_, ?_⟩
    · split_ifs with hq
      · simpa [hr, hm, hq, default] using lowest_find? h
      · simp [hr, hm, hq]
    · by_cases hq : t.quotas = none
      · simp [hr, hm, hq]
      · simpa [hr, hm, hq, Lowest] using hlow
    · simpa [hdrift] using drifted_unmatched hname hlow
  | some m =>
    rw [hm] at hlow
    obtain ⟨hmem, hhas, -⟩ := id hlow
    rw [hr, hm, if_pos ⟨m, hmem, hhas⟩]
    refine ⟨hlow, by simpa using fun _ => ⟨m, hmem, hhas⟩, ?_⟩
    simpa using drifted_matched hname hnodup hlow

/-- A plan of the tests: its name, tier and cpu. -/
def plan (name : String) (tier cpu : ℤ) : ResourcePlan := ⟨name, tier, false, { cpu := some cpu }⟩

/-- A tenant annotated small that has the quantities of large. -/
theorem resolve_spec_moved : let t : Tenant := ⟨"small", some { cpu := some 8 }⟩
    t.plainlyAnnotated [plan "small" 1 2, plan "large" 2 8] ∧
    (resolve [plan "small" 1 2, plan "large" 2 8] (some t)).drifted := by
  have hplain : Tenant.plainlyAnnotated ⟨"small", some { cpu := some 8 }⟩
      [plan "small" 1 2, plan "large" 2 8] :=
    .inr ⟨by decide, by simp [plan, Tenant.has, quotasEqual]⟩
  exact ⟨hplain, ((@resolve_spec [plan "small" 1 2, plan "large" 2 8] _ _
    (by decide) (by decide) (by decide)).2.2.2 hplain).2 ⟨_, mem_cons_self, by decide⟩⟩

/-- **A drift is missed** when the quantities are set by hand to those of no plan, **and one is
said** of a tenant with the quantities of its plan when a lower plan has them as well. -/
theorem drift_missed : (load (.ok [plan "small" 1 2])).map (fun c =>
      (resolve c (some ⟨"small", some { cpu := some 8 }⟩)).drifted) = .ok false ∧
    (load (.ok [plan "small" 1 2, plan "other" 2 2])).map (fun c =>
      (resolve c (some ⟨"other", some { cpu := some 2 }⟩)).drifted) = .ok true := by
  decide

end Gentian.Resourceplan
