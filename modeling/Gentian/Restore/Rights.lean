/-
# What a restore does with the rights a bundle records

`internal/controller/tenant_rights.go` (`rightsPlan`, `rightsText`, `rightsTuple`,
`applyRights`) and `internal/backup/signature.go` (`CheckProvenance`).

`rightsPlan` puts the entries of a bundle's manifest under the names of the cluster restored on
and decides which of them a restore writes: what is granted only from a bundle that provably is
this cluster's own, what is withdrawn from any bundle, since "taking a right away widens
nothing".

The next projection finds what was taken away missing, and for two kinds of entries (`Anchor`)
acts on that.  A tenant that is not attached is attached again and operated by its cluster
again, whatever the tenant had answered; and an app without its `tenant` tuple is no longer
found, so that what is left of it is not removed (`withdrawn_consent_returns`).
-/

import Gentian.Authz.StoreOnly

namespace Gentian.Restore

open GoStrings Api OpenFGA Authz List

/-! ### Where a bundle comes from -/

/-- The `Provenance*` names. -/
inductive Reason where
  | proven
  | noKey
  | unsigned
  | otherKey
  | badSignature
  | noClusterID
  | otherCluster
deriving DecidableEq

/-- `Provenance`: what a restore can tell of where a bundle comes from, always in a
sentence too. -/
structure Provenance where
  reason : Reason
  message : String
  told : message ≠ ""

/-- `Provenance.Proven`. -/
def Provenance.isProven (p : Provenance) : Bool := p.reason = .proven

/-- A bundle's signature, as far as it can be read: `none` for one of another
algorithm or that does not decode, and otherwise its public key and whether it is
that key's over the manifest. -/
structure Signature (κ : Type) where
  readable : Option (κ × Bool)

/-- `CheckProvenance`, over what the signature scheme answers.  `clusterUID` is the
manifest's, `none` when there is no manifest. -/
def checkProvenance {κ : Type} [DecidableEq κ] (keyID : κ → String) (own : Option κ)
    (sig : Option (Signature κ)) (ownUID : String) (clusterUID : Option String) : Provenance :=
  match own, sig with
  | none, _ => ⟨.noKey, "this cluster holds no bundle signing key " ++
      "(gentian-os/kernel/backup/signing), so it cannot tell whether it wrote the bundle", by simp⟩
  | some _, none => ⟨.unsigned, "the bundle is not signed: it was written before bundles were " ++
      "signed, or by a platform that does not sign them", by simp⟩
  | some mine, some sig =>
    match sig.readable with
    | none => ⟨.badSignature, "the bundle's signature is NOT one this platform can read: " ++
        "it was damaged or made up", by simp⟩
    | some (key, holds) =>
      if key ≠ mine then
        ⟨.otherKey, "the bundle is signed with another key (" ++ keyID key ++
          ") than this cluster's (" ++ keyID mine ++ "): it was written on another cluster, " ++
          "or on this one before its bundle signing key was replaced", by simp⟩
      else if !holds then
        ⟨.badSignature, "the bundle's signature does NOT match its manifest: the manifest " ++
          "was changed after this cluster signed it, or the signature is another bundle's",
          by simp⟩
      else if ownUID = "" then
        ⟨.noClusterID, "this cluster has no cluster id (spec.clusterUID of its Cluster " ++
          "claim), so it cannot tell whether the bundle was taken on it", by simp⟩
      else if clusterUID ≠ some ownUID then
        let uid := clusterUID.getD ""
        let uid := if uid = "" then "none" else uid
        ⟨.otherCluster, "the bundle is signed with this cluster's key and was taken on a " ++
          "cluster of another id (" ++ uid ++ "; this one is " ++ ownUID ++
          "): one built from the same recovery kit and another deployments repository",
          by simp⟩
      else
        ⟨.proven, "the bundle is signed with this cluster's key and was taken on this " ++
          "cluster (" ++ ownUID ++ ")", by simp⟩

/-! ### The plan -/

/-- `ManifestRights`: the entries of the rights store a bundle records, and the
cluster they were recorded on. -/
structure ManifestRights where
  cluster : String
  granted : List Tuple := []
  withdrawn : List Tuple := []
deriving DecidableEq

/-- `RestoreRights`: what a restore does with them. -/
structure RestoreRights where
  grant : List String := []
  withdraw : List String := []
  notBrought : List String := []
  provenance : Reason
  provenanceMessage : String
  applied : Bool := false
deriving DecidableEq

/-- A tuple as a bundle writes it. -/
def rightsText (t : Tuple) : String := t.user ++ " " ++ t.relation ++ " " ++ t.object

/-- What is said where there is no store. -/
def noStoreHere : String := "this cluster's operator has no rights store to write it to"

/-- What is said of a right on something else. -/
def heldElsewhere : String :=
  "it is held on something that is neither this tenant nor one of its apps"

/-- Why an entry that names a person is not written from another bundle. -/
def namesPerson : String :=
  "it names a person, and a person's rights come back only from this cluster's own bundle of " ++
    "this tenant: "

/-- Why a usable entry is not granted from another bundle. -/
def grantedElsewhere : String :=
  "it was granted in the tenant the bundle was taken of, and a grant comes back only from this " ++
    "cluster's own bundle of this tenant; whoever may grant it here grants it again"

/-- Why an entry is not written, the empty text when it is. -/
def whyNot (t : Tuple) (tenantName ours : String) (haveStore : Bool) : String :=
  if !haveStore then noStoreHere
  else
    match wellFormed t with
    | some why => why
    | none =>
      if !onTenant t tenantName then heldElsewhere
      else if hasPrefix t.user "user:" && ours ≠ "" then namesPerson ++ ours
      else ""

/-- `usable` of `rightsPlan`: an entry under this cluster's names, and why it is not
written. -/
def usable (m : ManifestRights) (tenantName clusterName ours : String) (haveStore : Bool)
    (raw : Tuple) : Tuple × String :=
  let t := rebase raw m.cluster clusterName
  (t, whyNot t tenantName ours haveStore)

/-- The second loop of `rightsPlan`: an entry recorded as granted, and why it is not
written. -/
def usableGrant (m : ManifestRights) (tenantName clusterName ours : String) (haveStore : Bool)
    (raw : Tuple) : Tuple × String :=
  let (t, why) := usable m tenantName clusterName ours haveStore raw
  (t, if why = "" ∧ ours ≠ "" then grantedElsewhere else why)

/-- `rightsPlan`. -/
def rightsPlan (rights : Option ManifestRights) (tenantName clusterName : String)
    (provenance : Provenance) (haveStore : Bool) : Option RestoreRights :=
  match rights with
  | none => none
  | some m =>
    if m.granted = [] ∧ m.withdrawn = [] then none
    else
      let ours := if provenance.isProven then "" else provenance.message
      let withdrawn := m.withdrawn.map (usable m tenantName clusterName ours haveStore)
      let granted := m.granted.map (usableGrant m tenantName clusterName ours haveStore)
      some {
        grant := (granted.filter fun p => p.2 = "").map fun p => rightsText p.1
        withdraw := (withdrawn.filter fun p => p.2 = "").map fun p => rightsText p.1
        notBrought :=
          ((withdrawn.filter fun p => p.2 ≠ "").map fun p =>
            rightsText p.1 ++ " (withdrawn in the bundle): " ++ p.2) ++
          (granted.filter fun p => p.2 ≠ "").map fun p => rightsText p.1 ++ ": " ++ p.2
        provenance := provenance.reason
        provenanceMessage := provenance.message }

/-! ### Carrying it out -/

/-- How `applyRights` fails. -/
inductive RightsError where
  | noStore
  | read
  | notAnEntry (text : String)
  | malformed (why : String)
  | refused (text tenantName : String)
  | write
deriving DecidableEq

/-- A tuple read from its text. -/
def rightsTuple (text : String) : Except RightsError Tuple :=
  match split text ' ' with
  | [user, relation, object] =>
    match wellFormed ⟨user, relation, object⟩ with
    | some why => .error (.malformed why)
    | none => .ok ⟨user, relation, object⟩
  | _ => .error (.notAnEntry text)

/-- The loops of `applyRights` over the entries of a plan. -/
def planned (tenantName : String) : List String → Except RightsError (List Tuple)
  | [] => .ok []
  | text :: texts =>
    match rightsTuple text with
    | .error e => .error e
    | .ok t =>
      if !onTenant t tenantName then .error (.refused text tenantName)
      else
        match planned tenantName texts with
        | .error e => .error e
        | .ok ts => .ok (t :: ts)

/-- What `applyRights` leaves: the store, the plan, and whether it is done. -/
structure Applied where
  store : Store
  plan : Option RestoreRights
  done : Except RightsError Bool

/-- `applyRights`. -/
def applyRights (s : Store) (haveStore : Bool) (clusterName tenantName : String)
    (plan : Option RestoreRights) (fate : CallFate) : Applied :=
  match plan with
  | none => ⟨s, none, .ok true⟩
  | some p =>
    if p.applied || (p.grant = [] ∧ p.withdraw = []) then ⟨s, some p, .ok true⟩
    else if !haveStore then ⟨s, some p, .error .noStore⟩
    else
      match fate with
      | .unread => ⟨s, some p, .error .read⟩
      | .read fate =>
        if s.read (attachment clusterName tenantName) = [] then ⟨s, some p, .ok false⟩
        else
          match planned tenantName p.grant, planned tenantName p.withdraw with
          | .error e, _ => ⟨s, some p, .error e⟩
          | .ok _, .error e => ⟨s, some p, .error e⟩
          | .ok grants, .ok withdraws =>
            let writes := grants.filter fun t => decide (s.read t = [])
            let deletes := withdraws.filter fun t => decide (s.read t ≠ [])
            match send .write s writes deletes fate with
            | (s', .error e) => ⟨s', some p, .error e⟩
            | (s', .ok ()) => ⟨s', some { p with applied := true }, .ok true⟩

/-! ### What a plan holds -/

theorem wellFormed_ne_empty {x : Tuple} {why : String} (h : wellFormed x = some why) :
    why ≠ "" := by
  have hid : ∀ what id, notAnID what id ≠ "" := fun what id => by simp [notAnID]
  have hpart : ∀ {what id} {userset : Bool} {e : String},
      part what id userset = some e → e = notAnID what id := by
    intro what id userset e he
    unfold part at he
    grind
  unfold wellFormed at h
  split at h
  · next he =>
      cases h
      exact hpart he ▸ hid _ _
  · split at h
    · next he =>
        cases h
        exact hpart he ▸ hid _ _
    · split_ifs at h
      cases h
      simp

section Plan

variable {m : ManifestRights} {t c ours : String} {haveStore : Bool} {raw x : Tuple}

/-- **When an entry is written**: there is a store, the entry is one of the store's and
held on the tenant, and it names no person unless the bundle is this cluster's. -/
theorem whyNot_eq_empty : whyNot x t ours haveStore = "" ↔ haveStore ∧ wellFormed x = none ∧
      onTenant x t ∧ (hasPrefix x.user "user:" → ours = "") := by
  have hstore : noStoreHere ≠ "" := by simp [noStoreHere]
  have helse : heldElsewhere ≠ "" := by simp [heldElsewhere]
  unfold whyNot
  cases haveStore with
  | false => simp [hstore]
  | true =>
    cases hform : wellFormed x with
    | some _ => simp [wellFormed_ne_empty hform]
    | none =>
      by_cases hon : onTenant x t
      · by_cases huser : hasPrefix x.user "user:" = true <;>
          by_cases hours : ours = "" <;> simp [hon, hours]
      · simp [hon, helse]

theorem usableGrant_snd_ne (hours : ours ≠ "") : (usableGrant m t c ours haveStore raw).2 ≠ "" := by
  have helse : grantedElsewhere ≠ "" := fun h =>
    absurd (String.append_eq_empty_iff.1 h).2 (by simp)
  unfold usableGrant usable
  dsimp only
  split_ifs with h
  · exact helse
  · exact fun hwhy => h ⟨hwhy, hours⟩

/-- **A plan made from an unproven bundle grants nothing and withdraws what the bundle
names**, under this cluster's names and on the tenant. -/
theorem rightsPlan_of_unproven {provenance : Provenance} (hprov : provenance.isProven = false)
    {p : RestoreRights} (h : rightsPlan (some m) t c provenance haveStore = some p) :
    p.grant = [] ∧ ∃ xs : List Tuple, p.withdraw = xs.map rightsText ∧
      ∀ x ∈ xs, wellFormed x = none ∧ onTenant x t ∧
        ∃ raw ∈ m.withdrawn, x = rebase raw m.cluster c := by
  unfold rightsPlan at h
  simp only [hprov, Bool.false_eq_true, if_false] at h
  split_ifs at h
  cases h
  constructor
  · simp only [map_eq_nil_iff, filter_eq_nil_iff, mem_map]
    rintro p ⟨raw, -, rfl⟩
    simpa using usableGrant_snd_ne provenance.told
  · refine ⟨((m.withdrawn.map (usable m t c provenance.message haveStore)).filter fun p =>
      decide (p.2 = "")).map Prod.fst, by simp, fun x hx => ?_⟩
    obtain ⟨p, hp, rfl⟩ := mem_map.1 hx
    obtain ⟨hin, hwhy⟩ := mem_filter.1 hp
    obtain ⟨raw, hraw, rfl⟩ := mem_map.1 hin
    obtain ⟨-, hform, hon, -⟩ := whyNot_eq_empty.1 (of_decide_eq_true hwhy)
    exact ⟨hform, hon, raw, hraw, rfl⟩

/-- **A right is read back as it was written.** -/
theorem rightsTuple_rightsText (h : wellFormed x = none) : rightsTuple (rightsText x) = .ok x := by
  obtain ⟨huser, hobject, -, hrel⟩ := wellFormed_eq_none h
  have hu : ' ' ∉ x.user.toList := fun hm => (part_eq_none huser).2.1 _ hm (by decide)
  have ho : ' ' ∉ x.object.toList := fun hm => (part_eq_none hobject).2.1 _ hm (by decide)
  have hr : ' ' ∉ x.relation.toList := fun hm => hrel _ hm (by decide)
  have hone : split x.object ' ' = [x.object] := by
    simp [split, splitOn_eq_singleton ho]
  have hsplit : split (rightsText x) ' ' = [x.user, x.relation, x.object] := by
    have htext : rightsText x = x.user ++ String.ofList [' '] ++
        (x.relation ++ String.ofList [' '] ++ x.object) := by
      unfold rightsText
      simp only [String.append_assoc]
    rw [htext, split_join hu, split_join hr, hone]
  unfold rightsTuple
  rw [hsplit]
  dsimp only
  rw [h]

/-- So are all of a plan. -/
theorem planned_texts {xs : List Tuple} (h : ∀ x ∈ xs, wellFormed x = none ∧ onTenant x t) :
    planned t (xs.map rightsText) = .ok xs := by
  induction xs with
  | nil => rfl
  | cons x xs ih =>
    obtain ⟨⟨hform, hon⟩, hxs⟩ := forall_mem_cons.1 h
    simp only [map_cons, planned, rightsTuple_rightsText hform, hon, ih hxs, Bool.not_true,
      Bool.false_eq_true, if_false]

end Plan

/-! ### The restore and the projections after it -/

/-- A projection of the director. -/
inductive Call where
  | tenants (ts : TenantList)
  | apps (installed : InstalledApps)

/-- The store that a projection leaves. -/
def Call.after (c : String) (s : Store) (call : Call × CallFate) : Store :=
  match call.1 with
  | .tenants ts => (reconcileTenants c s ts call.2).1
  | .apps installed => (reconcileApps s installed.toInstalled call.2).1

/-- The store that projections leave, one after the other. -/
def project (c : String) (s : Store) (calls : List (Call × CallFate)) : Store :=
  calls.foldl (Call.after c) s

/-- A call none of whose requests is lost: it does not come to its write, or all of
the write is answered. -/
def Whole (call : Call × CallFate) : Prop := call.2 = .unread ∨ call.2 = .read .answered
deriving Decidable

/-- The entries a projection finds a tenant and its apps by. -/
def Anchor (c t : String) (x : Tuple) : Prop :=
  x = attachment c t ∨
    (x.user = tenant t ∧ x.relation = "tenant" ∧ hasPrefix x.object ("app:" ++ t ++ "/") = true)
deriving Decidable

/-- One store holds less than another: some entries on the tenant and its apps are
missing, and by none of them a projection finds its way. -/
structure Narrower (c t : String) (a b : Store) : Prop where
  subset : ∀ x ∈ a, x ∈ b
  missing : ∀ x ∈ b, x ∈ a ∨ (onTenant x t = true ∧ ¬Anchor c t x)

section Narrower

variable {c t : String} {a b : Store}

theorem Narrower.refl (c t : String) (s : Store) : Narrower c t s s := ⟨fun _ => id, fun _ => .inl⟩

theorem Narrower.attachment_iff (h : Narrower c t a b) (name : String) :
    attachment c name ∈ a ↔ attachment c name ∈ b := by
  refine ⟨h.subset _, fun hb => (h.missing _ hb).resolve_right ?_⟩
  rintro ⟨hon, hanchor⟩
  refine hanchor (.inl ?_)
  rcases onTenant_iff.1 hon with hobj | ⟨p, -, hobj⟩
  · rw [tenant_inj hobj]
  · cases hobj

theorem Narrower.attached_iff (ht : validTenantName t) (h : Narrower c t a b) {n o : String}
    (hn : validTenantName n) (ho : hasPrefix o ("app:" ++ n ++ "/")) :
    ⟨tenant n, "tenant", o⟩ ∈ a ↔ ⟨tenant n, "tenant", o⟩ ∈ b := by
  refine ⟨h.subset _, fun hb => (h.missing _ hb).resolve_right ?_⟩
  rintro ⟨hon, hanchor⟩
  obtain ⟨q, hq⟩ := hasPrefix_iff.1 ho
  rcases onTenant_iff.1 hon with hobj | ⟨p, -, hobj⟩
  · exact absurd (hobj.symm.trans hq) (tenant_ne_app t n q)
  · obtain ⟨rfl, -⟩ := app_inj hn ht (hq.symm.trans hobj)
    exact hanchor (.inr ⟨rfl, rfl, ho⟩)

/-- **A call of `ReconcileTenants` keeps one store narrower than the other.** -/
theorem Narrower.reconcileTenants (h : Narrower c t a b) (ts : TenantList) :
    Narrower c t (Authz.reconcileTenants c a ts (.read .answered)).1
      (Authz.reconcileTenants c b ts (.read .answered)).1 := by
  -- what is due depends on the store through the attachments alone
  have hdue : ∀ r x, Due c a r x ↔ Due c b r x := fun r x => by
    simp [Due, h.attachment_iff]
  refine ⟨fun x hx => ?_, fun x hx => ?_⟩
  · rw [(mem_reconcileTenants c _ ts).2] at hx ⊢
    simp only [hdue] at hx
    exact hx.imp_right fun hx => ⟨h.subset x hx.1, hx.2⟩
  · rw [(mem_reconcileTenants c _ ts).2] at hx ⊢
    simp only [hdue]
    rcases hx with hx | ⟨hb, hkept⟩
    · exact .inl (.inl hx)
    · exact (h.missing x hb).imp_left fun ha => .inr ⟨ha, hkept⟩

section

variable (ht : validTenantName t) (h : Narrower c t a b)

include ht h

/-- **A call of `ReconcileApps` keeps one store narrower than the other.** -/
theorem Narrower.reconcileApps (installed : InstalledApps) :
    Narrower c t (Authz.reconcileApps a installed.toInstalled (.read .answered)).1
      (Authz.reconcileApps b installed.toInstalled (.read .answered)).1 := by
  -- what a call goes over depends on the store through the attached apps alone
  have hover : ∀ x, GoneOver a installed.toInstalled x ↔ GoneOver b installed.toInstalled x := by
    intro x
    refine and_congr_right fun _ => exists_congr fun e => and_congr_right fun he =>
      exists_congr fun want => and_congr_right fun _ => ?_
    rw [mem_appObjects, mem_appObjects]
    refine or_congr_left (and_congr_left fun ho => ?_)
    exact h.attached_iff ht (installed.valid e he) ho
  by_cases hok : ∀ e ∈ installed.sorted, ∃ want, appTuples e.1 e.2 = .ok want
  · obtain ⟨w, d, hplan⟩ := (planApps_isOk_iff).2 hok
    obtain ⟨w', d', hplan'⟩ := (planApps_isOk_iff).2 hok
    have hmem := (installed.mem_reconcileApps hplan).2
    have hmem' := (installed.mem_reconcileApps hplan').2
    refine ⟨fun x hx => ?_, fun x hx => ?_⟩
    · rw [hmem, hover] at hx
      rw [hmem']
      exact hx.imp_right fun hx => ⟨h.subset x hx.1, hx.2⟩
    · rw [hmem'] at hx
      rw [hmem, hover]
      rcases hx with hx | ⟨hb, hkept⟩
      · exact .inl (.inl hx)
      · exact (h.missing x hb).imp_left fun ha => .inr ⟨ha, hkept⟩
  · -- the apps of the call cannot all be named, and it ends before it writes
    have hsame : ∀ s, (Authz.reconcileApps s installed.toInstalled (.read .answered)).1 = s := by
      intro s
      unfold Authz.reconcileApps
      cases hplan : planApps s installed.sorted with
      | error e => rfl
      | ok p => exact absurd (planApps_isOk_iff.1 ⟨p.1, p.2, hplan⟩) hok
    rw [hsame, hsame]
    exact h

/-- A projection keeps one store within the other. -/
theorem Narrower.after {call : Call × CallFate} (hcall : Whole call) :
    Narrower c t (Call.after c a call) (Call.after c b call) := by
  obtain ⟨call, fate⟩ := call
  cases call with
  | tenants ts =>
    rcases hcall with rfl | rfl
    · simp only [Call.after, reconcileTenants_unread]
      exact h
    · exact h.reconcileTenants ts
  | apps installed =>
    rcases hcall with rfl | rfl
    · simp only [Call.after, reconcileApps_unread]
      exact h
    · exact h.reconcileApps ht installed

/-- **Calls one after another keep one store narrower than the other.** -/
theorem Narrower.project {calls : List (Call × CallFate)} (hcalls : ∀ call ∈ calls, Whole call) :
    Narrower c t (Restore.project c a calls) (Restore.project c b calls) := by
  induction calls generalizing a b with
  | nil => exact h
  | cons call calls ih =>
    obtain ⟨hcall, hcalls⟩ := forall_mem_cons.1 hcalls
    exact ih (h.after ht hcall) hcalls

end

end Narrower

/-- What applying rights leaves. -/
theorem applyRights_store (s : Store) (haveStore : Bool) (c t : String) (plan : Option RestoreRights)
    (fate : CallFate) : (applyRights s haveStore c t plan fate).store = s ∨
      ∃ p ∈ plan, ∃ grants withdraws sent, planned t p.grant = .ok grants ∧
        planned t p.withdraw = .ok withdraws ∧
        (applyRights s haveStore c t plan fate).store =
          (send RightsError.write s (grants.filter fun x => decide (s.read x = []))
            (withdraws.filter fun x => decide (s.read x ≠ [])) sent).1 := by
  cases plan with
  | none => exact .inl rfl
  | some p =>
    cases fate with
    | unread =>
      unfold applyRights
      dsimp only
      split_ifs <;> exact .inl rfl
    | read sent =>
      unfold applyRights
      dsimp only
      split_ifs
      · exact .inl rfl
      · exact .inl rfl
      · exact .inl rfl
      · cases hg : planned t p.grant with
        | error e => exact .inl rfl
        | ok grants =>
          cases hw : planned t p.withdraw with
          | error e => exact .inl rfl
          | ok withdraws =>
            refine .inr ⟨p, rfl, grants, withdraws, sent, hg, hw, ?_⟩
            dsimp only
            split
            · next hsend => rw [hsend]
            · next hsend => rw [hsend]

/-- **What an unproven bundle does to the store**: it takes entries on the tenant away,
and none a projection finds its way by when the bundle withdraws none. -/
theorem narrower_applyRights {c t : String} {rights : Option ManifestRights}
    {provenance : Provenance} (hprov : provenance.isProven = false)
    (hanchor : ∀ m ∈ rights, ∀ raw ∈ m.withdrawn, ¬Anchor c t (rebase raw m.cluster c))
    (s : Store) (haveStore : Bool) (fate : CallFate) : Narrower c t
      (applyRights s haveStore c t (rightsPlan rights t c provenance haveStore) fate).store s := by
  rcases applyRights_store s haveStore c t (rightsPlan rights t c provenance haveStore) fate with
    hsame | ⟨p, hp, grants, withdraws, sent, hgrants, hwithdraws, hsent⟩
  · rw [hsame]
    exact .refl c t s
  · cases rights with
    | none => cases hp
    | some m =>
      obtain ⟨hnone, xs, hxs, hall⟩ := rightsPlan_of_unproven hprov hp
      rw [hnone] at hgrants
      cases hgrants
      rw [hxs, planned_texts fun x hx => ⟨(hall x hx).1, (hall x hx).2.1⟩] at hwithdraws
      cases hwithdraws
      rw [hsent]
      refine ⟨fun x hx => ?_, fun x hx => ?_⟩
      · exact ((mem_send _ sent).1 hx).resolve_right (by simp)
      · refine ((mem_send _ sent).2 hx).imp_right fun hdel => ?_
        obtain ⟨-, hon, raw, hraw, rfl⟩ := hall x (mem_of_mem_filter hdel)
        exact ⟨hon, hanchor m rfl raw hraw⟩

/-- **A bundle that is not proven to be this cluster's widens nobody's rights**, when
it withdraws no entry a projection finds the tenant or an app by: whatever else it
records, every entry the store holds after the restore and any calls of the
projections it would hold after the same calls without the restore. -/
theorem unproven_bundle_widens_nothing {c t : String} (ht : validTenantName t = true)
    (rights : Option ManifestRights) (provenance : Provenance) (hprov : provenance.isProven = false)
    (hanchor : ∀ m ∈ rights, ∀ raw ∈ m.withdrawn, ¬Anchor c t (rebase raw m.cluster c))
    (s : Store) (haveStore : Bool) (fate : CallFate) {calls : List (Call × CallFate)}
    (hcalls : ∀ call ∈ calls, Whole call) (x : Tuple) (hx : x ∈ project c
      (applyRights s haveStore c t (rightsPlan rights t c provenance haveStore) fate).store calls) :
    x ∈ project c s calls :=
  ((narrower_applyRights hprov hanchor s haveStore fate).project ht hcalls).subset x hx

/-- Where an unsigned bundle comes from, on a cluster that signs its own. -/
def unsigned : Provenance := checkProvenance id (some "key") none "uid" (some "uid")

/-- A bundle that withdraws the consent of `demo`. -/
def withdrawsConsent : ManifestRights :=
  { cluster := "c1", withdrawn := [operatedBy "c1" "demo"] }

/-- The projections of `demo`, which has no apps. -/
theorem valid_demo : Api.validTenantName "demo" = true := by decide +kernel

/-- A projection of tenants, and one of apps. -/
def demoCalls : List (Call × CallFate) :=
  [(.tenants ⟨[⟨"demo", [], [], valid_demo⟩], by decide +kernel⟩, .read .answered),
    (.apps ⟨⟨[("demo", [])], by decide +kernel, by decide +kernel⟩, by decide +kernel⟩,
      .read .answered)]

/-- An unsigned bundle takes the consent of `demo` away, and the attachment, which the
store holds afterwards, it would hold without the restore. -/
theorem unsigned_bundle_widens_nothing : operatedBy "c1" "demo" ∉ project "c1" (applyRights
        ⟨[attachment "c1" "demo", operatedBy "c1" "demo"], by decide +kernel⟩ true "c1" "demo"
        (rightsPlan (some withdrawsConsent) "demo" "c1" unsigned true) (.read .answered)).store
        demoCalls ∧
      attachment "c1" "demo" ∈ project "c1"
        ⟨[attachment "c1" "demo", operatedBy "c1" "demo"], by decide +kernel⟩ demoCalls :=
  ⟨by decide +kernel,
    unproven_bundle_widens_nothing (t := "demo") (by decide +kernel) (some withdrawsConsent)
      unsigned (by decide +kernel) (by decide +kernel) _ true (.read .answered)
      (by decide +kernel) (attachment "c1" "demo") (by decide +kernel)⟩

/-- `demo` has withdrawn its consent, and its app `wiki` is uninstalled but still
stored. -/
def demoStore : Store :=
  ⟨[attachment "c1" "demo", attachedTo "demo" "wiki",
    ⟨"group:gentian/tenant/demo/app/wiki#member", "entitled", "app:demo/wiki"⟩], by decide +kernel⟩

/-- **A bundle anybody can write brings back what a tenant withdrew.**  An unsigned
bundle withdraws the attachment of `demo`: the next projection attaches the tenant and
has it operated by its cluster again.  One that withdraws the `tenant` tuple of an app
keeps the app's group entitled. -/
theorem withdrawn_consent_returns : (operatedBy "c1" "demo" ∉ project "c1" demoStore demoCalls ∧
      operatedBy "c1" "demo" ∈ project "c1" (applyRights demoStore true "c1" "demo"
        (rightsPlan (some { cluster := "c1", withdrawn := [attachment "c1" "demo"] }) "demo" "c1"
          unsigned true) (.read .answered)).store demoCalls) ∧
      ⟨"group:gentian/tenant/demo/app/wiki#member", "entitled", "app:demo/wiki"⟩ ∉
          project "c1" demoStore demoCalls ∧
        ⟨"group:gentian/tenant/demo/app/wiki#member", "entitled", "app:demo/wiki"⟩ ∈
          project "c1" (applyRights demoStore true "c1" "demo"
            (rightsPlan (some { cluster := "c1", withdrawn := [attachedTo "demo" "wiki"] }) "demo"
              "c1" unsigned true) (.read .answered)).store demoCalls := by
  decide +kernel

end Gentian.Restore
