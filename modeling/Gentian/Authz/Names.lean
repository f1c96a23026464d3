/-
# What a person, a group and an object are called in the rights store

`internal/director/authz/authz.go` (`encode`, `User`, `Group`, `GroupFromPath`,
`Tenant`, `Cluster`), `roles.go` (`HolderUser`, `CheckAs`, `key`) and `apps.go`
(`App`, `appGroup`), with the group names of `internal/keycloak/groups.go`.

`encode` writes `:` as `/` and refuses what it cannot write, so it can be undone
(`encode_inj`).  `HolderUser` joins a realm and a subject with the very character `encode`
writes for `:`: a subject that begins with a realm name and a colon is written as the role
holder of that realm (`user_eq_holderUser_iff`).
-/

import Gentian.Api.Names

namespace Gentian.Authz

open GoStrings Api String

/-- `ErrInvalidID`, with what could not be represented: an identifier, or the
realm of a role holder. -/
inductive IDError where
  | invalid (id : String)
  | realm (realm : String)
deriving DecidableEq

/-- `encode`: an external identifier in OpenFGA's alphabet. -/
def encode (s : String) : Except IDError String :=
  if s = "" ∨ containsAny s "#/ \t\r\n" then .error (.invalid s) else .ok (replaceAll s ':' '/')

/-- `User`: the OpenFGA user for a token subject. -/
def user (sub : String) : Except IDError String := do
  let id ← encode sub
  return "user:" ++ id

/-- `Group`: the OpenFGA object for a Keycloak group name. -/
def group (name : String) : Except IDError String := do
  let id ← encode name
  return "group:" ++ id

/-- `HolderUser`: the OpenFGA user a role holder's tuple names. -/
def holderUser (realm sub : String) : Except IDError String :=
  if realmName realm then do
    let id ← encode sub
    return "user:" ++ realm ++ "/" ++ id
  else .error (.realm realm)

/-- `Tenant`: the object a tenant is in the store. -/
def tenant (name : String) : String := "tenant:" ++ name

/-- `Cluster`: the object a cluster is in the store. -/
def cluster (name : String) : String := "cluster:" ++ name

/-- `App`: the object an installed app is in the store. -/
def app (tenant profile : String) : String := "app:" ++ tenant ++ "/" ++ profile

/-- `tenantPrefix` of `internal/keycloak/groups.go`. -/
def tenantGroup (tenant suffix : String) : String := "gentian:tenant:" ++ tenant ++ ":" ++ suffix

/-- `appGroup`: the group whose members may use an app. -/
def appGroup (tenant profile : String) : Except IDError String :=
  group (tenantGroup tenant ("app:" ++ profile))

/-- `CheckAs` over a store's answers `check user relation object`: as the user,
and, refused, as the role holder when there is one. -/
def checkAs {ε : Type} (check : String → String → String → Except ε Bool)
    (user holder relation object : String) : Except ε Bool :=
  match check user relation object with
  | .error e => .error e
  | .ok true => .ok true
  | .ok false => if holder = "" then .ok false else check holder relation object

/-! ### Encoding -/

variable {id realm s sub sub' u : String}

/-- What can be encoded, and as what. -/
theorem encode_eq_ok_iff :
    encode s = .ok id ↔ s ≠ "" ∧ (∀ c ∈ s.toList, c ∉ "#/ \t\r\n".toList) ∧
      id = replaceAll s ':' '/' := by
  unfold encode
  split_ifs with h
  · refine ⟨fun h' => (by cases h'), fun ⟨hne, hc, _⟩ => ?_⟩
    rcases h with h | h
    · exact absurd h hne
    · rw [containsAny_eq_false_iff.2 hc] at h
      cases h
  · rw [not_or, Bool.not_eq_true, containsAny_eq_false_iff] at h
    rw [Except.ok.injEq]
    exact ⟨fun h' => ⟨h.1, h.2, h'.symm⟩, fun h' => h'.2.2.symm⟩

theorem slash_not_mem_of_encode (h : encode s = .ok id) : '/' ∉ s.toList :=
  fun hm => (encode_eq_ok_iff.1 h).2.1 _ hm (by decide)

/-- **Encoding can be undone**: `/` is written back as `:`. -/
theorem decode_encode (h : encode s = .ok id) : replaceAll id '/' ':' = s := by
  rw [(encode_eq_ok_iff.1 h).2.2, replaceAll_replaceAll (slash_not_mem_of_encode h)]

variable {a b g name t : String}

/-- **Two names never encode to one id.** -/
theorem encode_inj (hs : encode s = .ok id) (ht : encode t = .ok id) : s = t := by
  rw [← decode_encode hs, decode_encode ht]

theorem user_eq_ok_iff : user sub = .ok u ↔ ∃ id, encode sub = .ok id ∧ u = "user:" ++ id := by
  unfold user
  cases h : encode sub with
  | error e => simp
  | ok id => simp [bind, Except.bind, pure, Except.pure, eq_comm]

theorem group_eq_ok_iff : group name = .ok g ↔ ∃ id, encode name = .ok id ∧ g = "group:" ++ id := by
  unfold group
  cases h : encode name with
  | error e => simp
  | ok id => simp [bind, Except.bind, pure, Except.pure, eq_comm]

theorem holderUser_eq_ok_iff : holderUser realm sub = .ok u ↔
      realmName realm ∧ ∃ id, encode sub = .ok id ∧ u = "user:" ++ realm ++ "/" ++ id := by
  unfold holderUser
  split_ifs with hr
  · cases h : encode sub with
    | error e => simp
    | ok id => simp [bind, Except.bind, pure, Except.pure, hr, eq_comm]
  · simp [hr]

/-- Two users are not one. -/
theorem user_inj (ha : user a = .ok u) (hb : user b = .ok u) : a = b := by
  obtain ⟨i, hi, rfl⟩ := user_eq_ok_iff.1 ha
  obtain ⟨j, hj, hu⟩ := user_eq_ok_iff.1 hb
  obtain rfl : i = j := by simpa using hu
  exact encode_inj hi hj

/-- Two groups are not one. -/
theorem group_inj (ha : group a = .ok g) (hb : group b = .ok g) : a = b := by
  obtain ⟨i, hi, rfl⟩ := group_eq_ok_iff.1 ha
  obtain ⟨j, hj, hg⟩ := group_eq_ok_iff.1 hb
  obtain rfl : i = j := by simpa using hg
  exact encode_inj hi hj

/-- Two users of two realms are not one. -/
theorem holderUser_inj {realm' : String} (h : holderUser realm sub = .ok u)
    (h' : holderUser realm' sub' = .ok u) : realm = realm' ∧ sub = sub' := by
  obtain ⟨hr, i, hi, rfl⟩ := holderUser_eq_ok_iff.1 h
  obtain ⟨hr', j, hj, hu⟩ := holderUser_eq_ok_iff.1 h'
  have hjoin : realm.toList ++ '/' :: i.toList = realm'.toList ++ '/' :: j.toList := by
    simpa [← toList_inj] using hu
  obtain ⟨rfl, rfl⟩ := join_inj (not_mem_of_realmName hr (by decide))
    (not_mem_of_realmName hr' (by decide)) hjoin
  exact ⟨rfl, encode_inj hi hj⟩

theorem encodable_of_validTenantName (h : validTenantName name) :
    ∀ c ∈ name.toList, c ∉ "#/ \t\r\n".toList := by
  have hno : ∀ d ∈ "#/ \t\r\n".toList, isLabelChar d = false := fun d hd => by
    have hall : ("#/ \t\r\n".toList.all fun d => !isLabelChar d) := by decide
    simpa using List.all_eq_true.1 hall d hd
  intro c hc hbad
  exact absurd (isLabelChar_of_validTenantName h c hc) (by rw [hno c hbad]; decide)

theorem group_tenantGroup {suffix : String} (ht : validTenantName t)
    (hs : ∀ c ∈ suffix.toList, c ∉ "#/ \t\r\n".toList) : group (tenantGroup t suffix) =
      .ok ("group:" ++ ("gentian/tenant/" ++ t ++ "/" ++ replaceAll suffix ':' '/')) := by
  have hlit : ∀ c ∈ "gentian:tenant:".toList, c ∉ "#/ \t\r\n".toList :=
    containsAny_eq_false_iff.1 (by decide)
  have hcolon : ∀ c ∈ ":".toList, c ∉ "#/ \t\r\n".toList := containsAny_eq_false_iff.1 (by decide)
  have hchars : ∀ c ∈ (tenantGroup t suffix).toList, c ∉ "#/ \t\r\n".toList := by
    intro c hc
    unfold tenantGroup at hc
    simp only [toList_append, List.mem_append] at hc
    rcases hc with ((hc | hc) | hc) | hc
    · exact hlit c hc
    · exact encodable_of_validTenantName ht c hc
    · exact hcolon c hc
    · exact hs c hc
  have hne : tenantGroup t suffix ≠ "" := by
    unfold tenantGroup
    exact fun h => by simpa using congrArg (fun x => x.toList.length) h
  have hrep : replaceAll (tenantGroup t suffix) ':' '/' =
      "gentian/tenant/" ++ t ++ "/" ++ replaceAll suffix ':' '/' := by
    have h1 : replaceAll "gentian:tenant:" ':' '/' = "gentian/tenant/" := by decide
    have h2 : replaceAll ":" ':' '/' = "/" := by decide
    have h3 : replaceAll t ':' '/' = t :=
      replaceAll_of_not_mem (not_mem_of_validTenantName ht (by decide))
    unfold tenantGroup
    simp [replaceAll_append, h1, h2, h3]
  exact group_eq_ok_iff.2 ⟨_, encode_eq_ok_iff.2 ⟨hne, hchars, rfl⟩, by simp only [hrep]⟩

/-! ### Where a subject is written as a role holder -/

/-- A subject that begins with a realm name and a colon and goes on after it. -/
def namesHolder (sub : String) : Bool :=
  match cut sub ':' with
  | some (realm, rest) => realmName realm && rest ≠ ""
  | none => false

/-- A subject is written as the role holder `sub'` of `realm` exactly when it
spells the two with a colon between them. -/
theorem user_eq_holderUser_iff (h : user sub = .ok u) : holderUser realm sub' = .ok u ↔
      realmName realm ∧ sub' ≠ "" ∧ cut sub ':' = some (realm, sub') := by
  obtain ⟨id, hid, rfl⟩ := user_eq_ok_iff.1 h
  obtain ⟨-, hchars, rfl⟩ := encode_eq_ok_iff.1 hid
  constructor
  · intro hh
    obtain ⟨hr, j, hj, hu⟩ := holderUser_eq_ok_iff.1 hh
    obtain ⟨hne, -, rfl⟩ := encode_eq_ok_iff.1 hj
    have hcolon : ':' ∉ realm.toList := not_mem_of_realmName hr (by decide)
    have hslash : '/' ∉ (realm ++ ":" ++ sub').toList := by
      simp [not_mem_of_realmName hr (c := '/') (by decide), slash_not_mem_of_encode hj]
    -- both sides are the encoding of one string without '/', so the subject is it
    have hsub : sub = realm ++ ":" ++ sub' := by
      refine replaceAll_inj (a := ':') (slash_not_mem_of_encode hid) hslash ?_
      rw [replaceAll_append, replaceAll_append, replaceAll_of_not_mem hcolon]
      simpa [← toList_inj] using hu
    exact ⟨hr, hne, cut_eq_some_iff.2 ⟨hcolon, by simp [hsub]⟩⟩
  · rintro ⟨hr, hne, hcut⟩
    obtain ⟨hcolon, hs⟩ := cut_eq_some_iff.1 hcut
    obtain rfl : sub = realm ++ ":" ++ sub' := toList_inj.1 (by simp [hs])
    have hj : encode sub' = .ok (replaceAll sub' ':' '/') :=
      encode_eq_ok_iff.2 ⟨hne, fun c hc => hchars c (by simp [hc]), rfl⟩
    refine holderUser_eq_ok_iff.2 ⟨hr, _, hj, ?_⟩
    rw [replaceAll_append, replaceAll_append, replaceAll_of_not_mem hcolon,
      show replaceAll ":" ':' '/' = "/" by decide, append_assoc, append_assoc,
      append_assoc]

/-- The user of an accepted subject is no role holder's exactly when the subject
does not begin with a realm name and a colon. -/
theorem user_ne_holderUser_iff (hu : user s = .ok u) :
    (∀ realm s', holderUser realm s' ≠ .ok u) ↔ namesHolder s = false := by
  simp only [ne_eq, user_eq_holderUser_iff hu]
  unfold namesHolder
  cases hcut : cut s ':' with
  | none => simp
  | some p =>
    obtain ⟨realm, rest⟩ := p
    constructor
    · intro h
      by_cases hr : realmName realm
      · have hrest : rest = "" := by
          by_contra hne
          exact h realm rest ⟨hr, hne, rfl⟩
        simp [hrest]
      · simp [hr]
    · rintro h realm' s' ⟨hr, hne, heq⟩
      cases heq
      simp [hr, hne] at h

/-- **Identifiers in the store never collide, but for a subject that spells a
role holder.**  `User`, `Group` and `HolderUser` are injective on what they
accept; the user of an accepted subject is no role holder's exactly when the
subject does not begin with a realm name and a colon. -/
theorem store_ids_distinct {s u : String} (hu : user s = .ok u) : (∀ b, user b = .ok u → s = b) ∧
      (∀ r s r' s' h, holderUser r s = .ok h → holderUser r' s' = .ok h → r = r' ∧ s = s') ∧
      (∀ a b g, group a = .ok g → group b = .ok g → a = b) ∧
      ((∀ realm s', holderUser realm s' ≠ .ok u) ↔ namesHolder s = false) :=
  ⟨fun _ => user_inj hu, fun _ _ _ _ _ => holderUser_inj, fun _ _ _ => group_inj,
    user_ne_holderUser_iff hu⟩

/-- The subject of a user Keycloak keeps itself is no role holder's id. -/
theorem store_ids_distinct_local : user "5d0c1f2e-8a47" = .ok "user:5d0c1f2e-8a47" ∧
      ∀ realm s', holderUser realm s' ≠ .ok "user:5d0c1f2e-8a47" :=
  ⟨by decide, (store_ids_distinct (by decide : user "5d0c1f2e-8a47" = _)).2.2.2.2 (by decide)⟩

/-- The federated id `f:ldap:7` is written as the role holder `ldap:7` of a
realm called `f`. -/
theorem federated_subject_is_a_holder :
    user "f:ldap:7" = .ok "user:f/ldap/7" ∧ holderUser "f" "ldap:7" = .ok "user:f/ldap/7" ∧
      ¬∀ s u, user s = .ok u → ∀ realm s', holderUser realm s' ≠ .ok u := by
  have h1 : user "f:ldap:7" = .ok "user:f/ldap/7" := by decide
  have h2 : holderUser "f" "ldap:7" = .ok "user:f/ldap/7" := by decide
  exact ⟨h1, h2, fun h => h _ _ h1 _ _ h2⟩

/-- **A role holder's tuple answers a token of its own realm only.**  A store
that holds the relation for the role holder of `realm'` alone refuses, through
`CheckAs`, every token of another realm whose subject does not spell a role
holder. -/
theorem checkAs_other_realm {realm' h h' : String} (hu : user sub = .ok u)
    (hh : holderUser realm sub = .ok h) (hh' : holderUser realm' sub' = .ok h')
    (hs : namesHolder sub = false) (hne : realm ≠ realm') (relation object : String) :
    checkAs (fun v r o => (.ok (decide (v = h' ∧ r = relation ∧ o = object)) : Except Empty Bool))
      u h relation object = .ok false := by
  have hu' : u ≠ h' := fun he => (user_ne_holderUser_iff hu).2 hs realm' sub' (he ▸ hh')
  have hh'' : h ≠ h' := fun he => hne (holderUser_inj hh (he ▸ hh')).1
  simp [checkAs, hu', hh'']

/-- An auditor of realm `b` is not one of realm `a` with the same subject. -/
theorem auditor_of_other_realm : checkAs (fun v r o => (.ok (decide (v = "user:b/7" ∧
      r = "auditor" ∧ o = "cluster:c")) : Except Empty Bool))
    "user:7" "user:a/7" "auditor" "cluster:c" = .ok false :=
  checkAs_other_realm (by decide : user "7" = _) (by decide : holderUser "a" "7" = _)
    (by decide : holderUser "b" "7" = _) (by decide) (by decide) _ _

end Gentian.Authz
