/-
# What of a tenant's rights exists only in the store

`internal/director/authz/storeonly.go` (`StoreOnlyOf`, `Rebase`, `OnTenant`, `WellFormed`).

A backup carries of the rights store what no projection would write again: the entries on
the tenant and its apps beyond the defaults, and the default the projection writes once and
the store no longer holds.  `wellFormed_eq_none` and `onTenant_iff` say what an entry must be
for a restore to write it.
-/

import Gentian.Authz.ProjectApps

namespace Gentian.Authz

open GoStrings Api OpenFGA List

/-! ### Entries of a bundle -/

/-- What `WellFormed` says of an id that is none. -/
def notAnID (what id : String) : String :=
  what ++ " \"" ++ id ++ "\" is not an id of the rights store"

/-- `strings.Cut(id, "#")`: the object, the relation, and whether there is one. -/
def cutRelation (id : String) : String × String × Bool :=
  match cut id '#' with
  | some (object, relation) => (object, relation, true)
  | none => (id, "", false)

/-- `part` of `WellFormed`: why a holder or an object cannot be one. -/
def part (what id : String) (userset : Bool) : Option String :=
  if id = "" || containsAny id " \t\r\n*" then some (notAnID what id)
  else
    let (object, relation, has) := cutRelation id
    if has && (!userset || relation = "" || contains relation "#") then some (notAnID what id)
    else
      match cut object ':' with
      | none => some (notAnID what id)
      | some (kind, name) =>
        if kind = "" || name = "" || contains name ":" then some (notAnID what id) else none

/-- `WellFormed`: why an entry cannot be one of the store's, `none` when it can. -/
def wellFormed (t : Tuple) : Option String :=
  match part "the holder" t.user true with
  | some e => some e
  | none =>
    match part "the object" t.object false with
    | some e => some e
    | none =>
      if t.relation = "" || containsAny t.relation " \t\r\n#:*" then
        some ("the relation \"" ++ t.relation ++ "\" is not one of the rights store's")
      else none

/-- `OnTenant`: whether an entry is held on the tenant or on one of its apps. -/
def onTenant (t : Tuple) (tenantName : String) : Bool :=
  t.object = tenant tenantName ||
    (hasPrefix t.object ("app:" ++ tenantName ++ "/") &&
      decide (("app:" ++ tenantName ++ "/").length < t.object.length))

/-- An object with the name of one cluster replaced by another's. -/
def rename (fromCluster toCluster id : String) : String :=
  let (object, relation, _) := cutRelation id
  let object := if fromCluster ≠ "" ∧ object = cluster fromCluster then cluster toCluster else object
  if relation ≠ "" then object ++ "#" ++ relation else object

/-- `Rebase`: an entry recorded on one cluster under the names of another. -/
def rebase (t : Tuple) (fromCluster toCluster : String) : Tuple :=
  ⟨rename fromCluster toCluster t.user, t.relation, rename fromCluster toCluster t.object⟩

/-! ### `StoreOnlyOf` -/

/-- `StoreOnly`: what a tenant has in the store that follows from nothing else. -/
structure StoreOnly where
  granted : List Tuple
  withdrawn : List Tuple
deriving DecidableEq

/-- How `StoreOnlyOf` fails, every read answered. -/
inductive StoreOnlyError where
  | group (e : IDError)
  | app (e : AppError)
  | notProjected (tenantName : String)
deriving DecidableEq

/-- The further app names `StoreOnlyOf` is given that can be objects. -/
def heldObjects (tenantName : String) (held : List String) : List String :=
  (held.filter fun name => decide (name ≠ "") && !containsAny name "#/ \t\r\n").map (app tenantName)

/-- `objects` of `StoreOnlyOf`: the apps wanted, the further ones it is given, and
every app the store attaches to the tenant under the tenant's name. -/
def carriedObjects (s : Store) (tenantName : String) (want : List Tuple) (held : List String) :
    List String :=
  let attached := (s.read ⟨tenant tenantName, "tenant", "app:"⟩).filter fun t =>
    hasPrefix t.object ("app:" ++ tenantName ++ "/")
  want.map Tuple.object ++ heldObjects tenantName held ++ attached.map Tuple.object

/-- The apps in the order `StoreOnlyOf` reads them. -/
def carriedNames (s : Store) (tenantName : String) (want : List Tuple) (held : List String) :
    List String :=
  (carriedObjects s tenantName want held).dedup.insertionSort fun a b => a ≤ b

/-- What a store has on an object beyond what it is attached by. -/
def othersOn (s : Store) (object : String) : List Tuple :=
  (s.read ⟨"", "", object⟩).filter fun t =>
    decide (t.relation ≠ "tenant" ∧ t.relation ≠ "entitled")

/-- `StoreOnlyOf`, every read answered. -/
def storeOnlyOf (s : Store) (clusterName tenantName : String) (apps : List InstalledApp)
    (held : List String) : Except StoreOnlyError StoreOnly :=
  match tenantDefaults clusterName tenantName with
  | .error e => .error (.group e)
  | .ok (standing, once) =>
    match appTuples tenantName apps with
    | .error e => .error (.app e)
    | .ok want =>
      let derived := (standing ++ once ++ want).map key
      let onTenant := s.read ⟨"", "", tenant tenantName⟩
      let have_ := onTenant.map key
      if !(standing.head?.any fun t => decide (key t ∈ have_)) then
        .error (.notProjected tenantName)
      else
        let granted := onTenant.filter fun t =>
          decide (t.relation ∉ claimTenantRelations ∧ key t ∉ derived)
        let withdrawn :=
          if tenantName ≠ platformTenant then once.filter fun t => decide (key t ∉ have_) else []
        let onApps := (carriedNames s tenantName want held).flatMap (othersOn s)
        .ok ⟨sortByKey (granted ++ onApps), withdrawn⟩

/-! ### What an entry of a bundle must be -/

theorem tenant_ne_app (n t p : String) : tenant n ≠ app t p := fun h => by
  have hhead := congrArg (fun o => o.toList.head?) h
  simp [tenant, app] at hhead

variable {what : String} {x : Tuple}

/-- A tuple on a tenant is on it or on one of its apps. -/
theorem onTenant_iff {t : String} :
    onTenant x t ↔ x.object = tenant t ∨ ∃ p, p ≠ "" ∧ x.object = app t p := by
  simp only [onTenant, Bool.or_eq_true, Bool.and_eq_true, decide_eq_true_eq, hasPrefix_iff]
  refine or_congr_right ⟨?_, ?_⟩
  · rintro ⟨⟨p, hp⟩, hlen⟩
    refine ⟨p, ?_, hp⟩
    rintro rfl
    rw [hp] at hlen
    simp at hlen
  · rintro ⟨p, hne, hp⟩
    refine ⟨⟨p, hp⟩, ?_⟩
    have hpos : 0 < p.length := Nat.pos_of_ne_zero fun h => hne (String.length_eq_zero_iff.1 h)
    rw [hp, app]
    simp only [String.length_append]
    omega

variable {userset : Bool} {id : String}

theorem part_eq_none (h : part what id userset = none) :
    id ≠ "" ∧ (∀ c ∈ id.toList, c ∉ " \t\r\n*".toList) ∧
      ∀ object relation, cut id '#' = some (object, relation) → userset ∧ relation ≠ "" := by
  unfold part cutRelation at h
  split_ifs at h with hchars
  rw [Bool.or_eq_true, decide_eq_true_eq, not_or, Bool.not_eq_true] at hchars
  refine ⟨hchars.1, containsAny_eq_false_iff.1 hchars.2, fun object relation hcut => ?_⟩
  simp only [hcut] at h
  split_ifs at h with hhash
  simp only [Bool.true_and, Bool.or_eq_true, Bool.not_eq_true', decide_eq_true_eq, not_or,
    Bool.not_eq_false] at hhash
  exact ⟨hhash.1.1, hhash.1.2⟩

/-- What a well-formed tuple has. -/
theorem wellFormed_eq_none (h : wellFormed x = none) :
    part "the holder" x.user true = none ∧ part "the object" x.object false = none ∧
      x.relation ≠ "" ∧ ∀ c ∈ x.relation.toList, c ∉ " \t\r\n#:*".toList := by
  unfold wellFormed at h
  split at h
  · cases h
  · next huser =>
      split at h
      · cases h
      · next hobject =>
          split_ifs at h with hrel
          rw [Bool.or_eq_true, decide_eq_true_eq, not_or, Bool.not_eq_true] at hrel
          exact ⟨huser, hobject, hrel.1, containsAny_eq_false_iff.1 hrel.2⟩

theorem part_of_plain (kind name : String) (userset : Bool)
    (hkind : kind ≠ "" ∧ ∀ c ∈ kind.toList, c ∉ " \t\r\n*#:".toList)
    (hname : name ≠ "" ∧ ∀ c ∈ name.toList, c ∉ " \t\r\n*#:".toList) :
    part what (kind ++ ":" ++ name) userset = none := by
  have hsub : ∀ c ∈ " \t\r\n*".toList, c ∈ " \t\r\n*#:".toList := by simp
  have hchars : containsAny (kind ++ ":" ++ name) " \t\r\n*" = false := by
    refine containsAny_eq_false_iff.2 fun c hc hbad => ?_
    simp only [String.toList_append, mem_append] at hc
    rcases hc with (hc | hc) | hc
    · exact hkind.2 c hc (hsub c hbad)
    · obtain rfl : c = ':' := by simpa using hc
      exact absurd hbad (by decide)
    · exact hname.2 c hc (hsub c hbad)
  have hhash : cut (kind ++ ":" ++ name) '#' = none := by
    cases hcut : cut (kind ++ ":" ++ name) '#' with
    | none => rfl
    | some p =>
      have hm : '#' ∈ (kind ++ ":" ++ name).toList := by
        rw [(cut_eq_some_iff.1 hcut).2]
        simp
      simp only [String.toList_append, mem_append] at hm
      rcases hm with (hm | hm) | hm
      · exact absurd (by decide) (hkind.2 _ hm)
      · exact absurd hm (by decide)
      · exact absurd (by decide) (hname.2 _ hm)
  have hcolon : cut (kind ++ ":" ++ name) ':' = some (kind, name) :=
    cut_eq_some_iff.2 ⟨fun hm => hkind.2 _ hm (by decide), by simp⟩
  have hcontains : contains name ":" = false :=
    contains_eq_false rfl fun hm => hname.2 _ hm (by decide)
  have hne : kind ++ ":" ++ name ≠ "" := fun h =>
    hname.1 (String.append_eq_empty_iff.1 h).2
  unfold part cutRelation
  simp [hchars, hhash, hcolon, hcontains, hkind.1, hname.1]

/-- Renaming a cluster to itself changes nothing. -/
theorem rename_self (h : part what id userset = none) (c : String) : rename c c id = id := by
  have hobject : ∀ object,
      (if c ≠ "" ∧ object = cluster c then cluster c else object) = object := by
    intro object
    split_ifs with hc
    · exact hc.2.symm
    · rfl
  unfold rename cutRelation
  cases hcut : cut id '#' with
  | none => simp only [hobject, ne_eq, not_true_eq_false, if_false]
  | some p =>
    obtain ⟨object, relation⟩ := p
    have hne := ((part_eq_none h).2.2 object relation hcut).2
    simp only [hobject, if_pos hne]
    refine String.toList_inj.1 ?_
    rw [(cut_eq_some_iff.1 hcut).2]
    simp

/-- **An entry keeps its names on the cluster it was recorded on.** -/
theorem rebase_self (h : wellFormed x = none) (c : String) : rebase x c c = x := by
  obtain ⟨huser, hobject, -, -⟩ := wellFormed_eq_none h
  unfold rebase
  rw [rename_self huser, rename_self hobject]

/-! ### What a backup carries -/

section Carried

variable {c : String} {r : TenantRights}

theorem barless_onCluster (hc : '|' ∉ c.toList) {relation : String} (hrel : '|' ∉ relation.toList) :
    Barless ⟨cluster c, relation, tenant r.name⟩ := by
  refine ⟨?_, hrel, ?_⟩
  · unfold cluster
    rw [String.toList_append, mem_append, not_or]
    exact ⟨by decide, hc⟩
  · unfold tenant
    rw [String.toList_append, mem_append, not_or]
    exact ⟨by decide, not_mem_of_validTenantName r.valid (by decide)⟩

theorem barless_roleTuple {role : String × String} (hrole : role ∈ tenantRoleGroups) :
    Barless (roleTuple r.name role) := by
  have hparts : ∀ role ∈ tenantRoleGroups, '|' ∉ role.1.toList ∧ '|' ∉ role.2.toList := by decide
  have hname : '|' ∉ r.name.toList := not_mem_of_validTenantName r.valid (by decide)
  obtain ⟨hrel, hsuffix⟩ := hparts role hrole
  refine ⟨?_, hrel, ?_⟩
  · unfold roleTuple
    simp only [String.toList_append, mem_append, not_or]
    exact ⟨⟨by decide, ⟨⟨by decide, hname⟩, by decide⟩, hsuffix⟩, by decide⟩
  · unfold roleTuple tenant
    rw [String.toList_append, mem_append, not_or]
    exact ⟨by decide, hname⟩

/-- The entries the projection of a tenant writes, the claim's apart. -/
def defaults (c : String) (r : TenantRights) : List Tuple :=
  attachment c r.name :: tenantRoleGroups.map (roleTuple r.name) ++ [operatedBy c r.name]

theorem barless_defaults (hc : '|' ∉ c.toList) : ∀ x ∈ defaults c r, Barless x := by
  intro x hx
  simp only [defaults, mem_append, mem_cons, not_mem_nil, or_false] at hx
  rcases hx with (rfl | hx) | rfl
  · exact barless_onCluster hc (by decide)
  · obtain ⟨role, hrole, rfl⟩ := mem_map.1 hx
    exact barless_roleTuple hrole
  · exact barless_onCluster hc (by decide)

variable {s : Store} {apps : List InstalledApp} {want : List Tuple} {held : List String}

variable {x : Tuple}

theorem mem_read_tenant : x ∈ s.read ⟨"", "", tenant r.name⟩ ↔ x ∈ s ∧ x.object = tenant r.name :=
  Store.mem_read_object (tenant_ne_empty _) (bareType_tenant r.valid)

theorem key_mem_have (hx : Barless x) (hobj : x.object = tenant r.name) :
    key x ∈ (s.read ⟨"", "", tenant r.name⟩).map key ↔ x ∈ s := by
  rw [mem_map]
  constructor
  · rintro ⟨y, hy, hkey⟩
    obtain rfl := hx.key_inj hkey.symm
    exact (mem_read_tenant.1 hy).1
  · exact fun h => ⟨x, mem_read_tenant.2 ⟨h, hobj⟩, rfl⟩

theorem app_of_mem_carriedObjects (hwant : AppTuples r.name want) {o : String}
    (ho : o ∈ carriedObjects s r.name want held) : ∃ p, o = app r.name p := by
  simp only [carriedObjects, heldObjects, mem_append, mem_map, mem_filter] at ho
  rcases ho with (⟨x, hx, rfl⟩ | ⟨p, -, rfl⟩) | ⟨x, ⟨-, hpre⟩, rfl⟩
  · exact (hwant.shape x hx).object
  · exact ⟨p, rfl⟩
  · exact hasPrefix_iff.1 hpre

theorem mem_othersOn (p : String) :
    x ∈ othersOn s (app r.name p) ↔ x ∈ s ∧ x.object = app r.name p ∧ x.relation ≠ "tenant" ∧
      x.relation ≠ "entitled" := by
  rw [othersOn, mem_filter, mem_read_app, decide_eq_true_eq, and_assoc]

theorem mem_carriedNames {t o : String} :
    o ∈ carriedNames s t want held ↔ o ∈ carriedObjects s t want held := by
  rw [carriedNames, mem_insertionSort, mem_dedup]

/-- What is held on the apps beyond what is projected. -/
theorem mem_others (hwant : AppTuples r.name want) :
    x ∈ (carriedNames s r.name want held).flatMap (othersOn s) ↔
      x ∈ s ∧ x.object ∈ carriedObjects s r.name want held ∧ x.relation ≠ "tenant" ∧
        x.relation ≠ "entitled" := by
  simp only [mem_flatMap, mem_carriedNames]
  constructor
  · rintro ⟨o, ho, hx⟩
    obtain ⟨p, rfl⟩ := app_of_mem_carriedObjects hwant ho
    obtain ⟨hs, hobj, hrel⟩ := (mem_othersOn p).1 hx
    exact ⟨hs, hobj ▸ ho, hrel⟩
  · rintro ⟨hs, ho, hrel⟩
    obtain ⟨p, hp⟩ := app_of_mem_carriedObjects hwant ho
    exact ⟨app r.name p, hp ▸ ho, (mem_othersOn p).2 ⟨hs, hp, hrel⟩⟩

theorem nodup_others (hwant : AppTuples r.name want) :
    ((carriedNames s r.name want held).flatMap (othersOn s)).Nodup := by
  have hnames : (carriedNames s r.name want held).Nodup :=
    (perm_insertionSort _ _).nodup_iff.2 (nodup_dedup _)
  refine nodup_flatMap.2 ⟨fun o _ => (Store.nodup_read s _).filter _, ?_⟩
  refine hnames.imp_of_mem fun {o o'} ho ho' hne x hx hx' => hne ?_
  obtain ⟨p, rfl⟩ := app_of_mem_carriedObjects hwant (mem_carriedNames.1 ho)
  obtain ⟨p', rfl⟩ := app_of_mem_carriedObjects hwant (mem_carriedNames.1 ho')
  exact ((mem_othersOn p).1 hx).2.1.symm.trans ((mem_othersOn p').1 hx').2.1

theorem key_mem_derived (hc : '|' ∉ c.toList) (hwant : AppTuples r.name want)
    (hbar : ∀ x ∈ want, Barless x) (hobj : x.object = tenant r.name) :
    key x ∈ (defaults c r ++ want).map key ↔ x ∈ defaults c r := by
  rw [mem_map]
  constructor
  · rintro ⟨y, hy, hkey⟩
    rcases mem_append.1 hy with hy | hy
    · exact (barless_defaults hc y hy).key_inj hkey ▸ hy
    · obtain rfl := (hbar y hy).key_inj hkey
      obtain ⟨p, hp⟩ := (hwant.shape y hy).object
      exact absurd (hobj.symm.trans hp) (tenant_ne_app _ _ _)
  · exact fun hx => ⟨x, mem_append_left _ hx, rfl⟩

/-- What a backup records of a tenant: of the tenant's entries those no projection
writes, of each app's those that are not the projection's, and the consent when it is
missing and not the platform tenant's. -/
structure Recorded (c : String) (r : TenantRights) (want : List Tuple) (held : List String)
    (s : Store) (only : StoreOnly) : Prop where
  nodup : only.granted.Nodup
  granted : ∀ x, x ∈ only.granted ↔ x ∈ s ∧
    ((x.object = tenant r.name ∧ x.relation ∉ claimTenantRelations ∧ x ∉ defaults c r) ∨
      (x.object ∈ carriedObjects s r.name want held ∧ x.relation ≠ "tenant" ∧
        x.relation ≠ "entitled"))
  withdrawn : only.withdrawn =
    if r.name ≠ platformTenant ∧ operatedBy c r.name ∉ s then [operatedBy c r.name] else []

/-- **What a backup carries** of a tenant that is attached. -/
theorem storeOnlyOf_eq_ok (held : List String) (hc : '|' ∉ c.toList)
    (hatt : attachment c r.name ∈ s) (hwant : appTuples r.name apps = .ok want)
    (hbar : ∀ x ∈ want, Barless x) :
    ∃ only, storeOnlyOf s c r.name apps held = .ok only ∧ Recorded c r want held s only := by
  have hall := appTuples_eq_ok r.valid hwant
  have hmem := barless_defaults (r := r) hc
  have hhead : key (attachment c r.name) ∈ (s.read ⟨"", "", tenant r.name⟩).map key :=
    (key_mem_have (hmem _ (by simp [defaults])) rfl).2 hatt
  have honce : key (operatedBy c r.name) ∈ (s.read ⟨"", "", tenant r.name⟩).map key ↔
      operatedBy c r.name ∈ s := key_mem_have (hmem _ (by simp [defaults])) rfl
  have hown : ∀ x, x ∈ (s.read ⟨"", "", tenant r.name⟩).filter (fun x =>
      decide (x.relation ∉ claimTenantRelations ∧ key x ∉ (defaults c r ++ want).map key)) ↔
        x ∈ s ∧ x.object = tenant r.name ∧ x.relation ∉ claimTenantRelations ∧ x ∉ defaults c r := by
    intro x
    rw [mem_filter, mem_read_tenant, decide_eq_true_eq, and_assoc]
    refine and_congr_right fun _ => and_congr_right fun hobj => and_congr_right fun _ => ?_
    rw [key_mem_derived hc hall hbar hobj]
  unfold storeOnlyOf tenantDefaults
  simp only [roleTuples_of_valid r.valid, hwant, head?_cons, Option.any_some, hhead]
  refine ⟨_, rfl, ?_, fun x => ?_, ?_⟩
  · refine (sortByKey_perm _).nodup_iff.2 (((Store.nodup_read s _).filter _).append
      (nodup_others hall) fun x hx hx' => ?_)
    have hobj := (mem_read_tenant.1 (mem_of_mem_filter hx)).2
    obtain ⟨p, hp⟩ := app_of_mem_carriedObjects hall ((mem_others hall).1 hx').2.1
    exact tenant_ne_app _ _ _ (hobj.symm.trans hp)
  · refine mem_sortByKey.trans (mem_append.trans ?_)
    exact (or_congr (hown x) (mem_others hall)).trans and_or_left.symm
  · simp only [filter_cons, honce]
    by_cases hp : r.name = platformTenant <;> by_cases ho : operatedBy c r.name ∈ s <;>
      simp [hp]

end Carried

end Gentian.Authz
