/-
# The endpoint membership events arrive at

`internal/membership/events.go` (`Event`, `Receiver.verify`, `first`, `newest`,
`forget`).  Each of `first`, `newest` and `forget` holds the mutex `mu` for its
whole body, so each is one step on the two maps it shares with every other
delivery: `seen`, from an event id to when it may be forgotten, and `last`, from
`realm/user` to the time of the newest event let through.

A clock reading is in nanoseconds since the epoch and an event's `Time` in
milliseconds; neither is bounded here.  What the receiver takes from Go's
libraries (`ed25519.Verify`, `base64`, `json.Unmarshal`) is a field of `Config`.
-/

import Gentian.Base.Collections
import Gentian.Membership.Projector

namespace Gentian.Membership

open GoStrings GoMap Api Authz OpenFGA

/-- The kinds of events that are acted on. -/
inductive EventKind where
  | userMemberships
  | userDeleted
  | groupDeleted
  | unknown
deriving DecidableEq

/-- `Event`: what the listener inside Keycloak sends. -/
structure Event where
  id : String
  time : ℤ
  realm : String
  type : String
  user : String := ""
  groups : List String := []
  group : String := ""
deriving DecidableEq

/-- The `switch` on `ev.Type`: the constants `TypeUserMemberships`,
`TypeUserDeleted` and `TypeGroupDeleted`, and any other type. -/
def Event.kind (ev : Event) : EventKind :=
  if ev.type = "user.memberships" then .userMemberships
  else if ev.type = "user.deleted" then .userDeleted
  else if ev.type = "group.deleted" then .groupDeleted
  else .unknown

/-- An event that states a user's complete set of groups. -/
def Event.isStatement (ev : Event) : Bool :=
  match ev.kind with
  | .userMemberships | .userDeleted => true
  | .groupDeleted | .unknown => false

/-- The groups a statement gives its user: none once the user is deleted. -/
def Event.statedGroups (ev : Event) : List String :=
  match ev.kind with
  | .userDeleted => []
  | _ => ev.groups

/-- `ev.Realm + "/" + ev.User`: what `last` is keyed by. -/
def Event.key (ev : Event) : String := ev.realm ++ "/" ++ ev.user

/-- `eventID.MatchString`: `^[A-Za-z0-9._-]{8,80}$`. -/
def eventID (id : String) : Bool :=
  id.toList.all (fun c => isAlnum c || c = '.' || c = '_' || c = '-') &&
    decide (8 ≤ id.toList.length) && decide (id.toList.length ≤ 80)

/-- A request as the receiver reads it: the signature header and the body. -/
structure Request where
  header : String
  body : List UInt8
deriving DecidableEq

/-- A receiver's keys, its projector's scope, whether a mirror is set, and the
library functions it calls. -/
structure Config (Key : Type) where
  keys : String → Option Key
  scope : Scope
  mirror : Bool
  ed25519Verify : Key → List UInt8 → List UInt8 → Bool
  base64Decode : String → Option (List UInt8)
  unmarshal : List UInt8 → Option Event

variable {Key : Type}

/-! ### `verify` -/

/-- A second, in nanoseconds. -/
def second : ℤ := 1000000000

/-- `window`: how far a signature's timestamp may be from now. -/
def window : ℤ := 5 * 60 * second

/-- `maxEventBytes`: the cap on an event body. -/
def maxEventBytes : ℕ := 256 * 1024

/-- Why a signature is not accepted. -/
inductive VerifyError where
  | unknownKeyID
  | noTimestamp
  | outsideWindow
  | signatureNotBase64
  | signatureNotVerified
deriving DecidableEq

/-- What the refusal says. -/
def VerifyError.text : VerifyError → String
  | .unknownKeyID => "unknown key id"
  | .noTimestamp => "no timestamp"
  | .outsideWindow => "timestamp outside the window"
  | .signatureNotBase64 => "signature is not base64"
  | .signatureNotVerified => "signature does not verify"

/-- The fields of a signature header, `k=v` between commas; a later field
replaces an earlier one of its name. -/
def headerFields (header : String) : AList fun _ : String => String :=
  (split header ',').foldl (fun fields part =>
    match cut (trimSpace part) '=' with
    | some (k, v) => fields.insert k v
    | none => fields) ∅

/-- `fields[name]`, empty when the header has no such field. -/
def headerField (header name : String) : String := ((headerFields header).lookup name).getD ""

/-- `Receiver.verify` with the clock reading `now`. -/
def verify (cfg : Config Key) (req : Request) (now : ℤ) : Except VerifyError Unit :=
  match cfg.keys (headerField req.header "keyid") with
  | none => .error .unknownKeyID
  | some key =>
    match parseInt (headerField req.header "t") with
    | none => .error .noTimestamp
    | some ts =>
      let d := now - ts * second
      if window < d ∨ d < -window then .error .outsideWindow
      else
        match cfg.base64Decode (headerField req.header "sig") with
        | none => .error .signatureNotBase64
        | some sig =>
          let msg := (headerField req.header "t" ++ ".").toUTF8.toList ++ req.body
          if cfg.ed25519Verify key msg sig then .ok () else .error .signatureNotVerified

variable {last : AList fun _ : String => ℤ} {cfg : Config Key} {req : Request} {k : String}
  {now v : ℤ}

/-- **An accepted request is signed within the window of the reading.** -/
theorem verify_window
    (h : verify cfg req now = .ok ()) : ∃ ts, parseInt (headerField req.header "t") = some ts ∧
      ts * second - window ≤ now ∧ now ≤ ts * second + window := by
  unfold verify at h
  cases hkey : cfg.keys (headerField req.header "keyid") with
  | none => simp [hkey] at h
  | some _ =>
    cases hts : parseInt (headerField req.header "t") with
    | none => simp [hkey, hts] at h
    | some ts =>
      rw [hkey, hts] at h
      by_cases hd : window < now - ts * second ∨ now - ts * second < -window
      · simp [hd] at h
      · exact ⟨ts, rfl, by omega, by omega⟩

/-- One signature is accepted within two windows at most. -/
theorem verify_verify {now' : ℤ}
    (h : verify cfg req now = .ok ()) (h' : verify cfg req now' = .ok ()) :
    now' ≤ now + 2 * window := by
  obtain ⟨ts, hts, hlo, -⟩ := verify_window h
  obtain ⟨ts', hts', -, hhi⟩ := verify_window h'
  obtain rfl : ts = ts' := Option.some.inj (hts.symm.trans hts')
  omega

/-! ### `first`, `newest` and `forget` -/

/-- The ids `first` keeps: those whose time is not past. -/
def keptSeen (seen : AList fun _ : String => ℤ) (now : ℤ) : AList fun _ : String => ℤ :=
  prune (fun until_ => decide (now ≤ until_)) seen

/-- `Receiver.first` with the clock reading `now`: the ids remembered, and
whether the id is new. -/
def first (seen : AList fun _ : String => ℤ) (id : String) (now : ℤ) :
    (AList fun _ : String => ℤ) × Bool :=
  match (keptSeen seen now).lookup id with
  | some _ => (keptSeen seen now, false)
  | none => ((keptSeen seen now).insert id (now + 2 * window), true)

/-- The number of entries `last` may hold before old ones are dropped. -/
def maxLast : ℕ := 4096

/-- `rc.now().Add(-2 * window).UnixMilli()`. -/
def floorAt (now : ℤ) : ℤ := (now - 2 * window) / 1000000

/-- The entries of `last` that `newest` keeps: all of them while there are few,
and otherwise those no older than the floor. -/
def keptLast (last : AList fun _ : String => ℤ) (now : ℤ) : AList fun _ : String => ℤ :=
  if maxLast < len last then prune (fun v => decide (floorAt now ≤ v)) last else last

/-- `Receiver.newest`: the times kept, and whether the statement is at least as
new as the newest one let through for its user.  A missing entry reads as
`0`. -/
def newest (last : AList fun _ : String => ℤ) (key : String) (t now : ℤ) :
    (AList fun _ : String => ℤ) × Bool :=
  if t < (last.lookup key).getD 0 then (last, false)
  else ((keptLast last now).insert key t, true)

theorem lookup_keptSeen {seen : AList fun _ : String => ℤ} {u : ℤ} :
    (keptSeen seen now).lookup k = some u ↔ seen.lookup k = some u ∧ now ≤ u := by
  rw [keptSeen, lookup_prune_eq_some, decide_eq_true_iff]

/-- An id is known, or is recorded now. -/
theorem first_cases (seen : AList fun _ : String => ℤ) (id : String) (now : ℤ) :
    (first seen id now = (keptSeen seen now, false) ∧ ∃ u, seen.lookup id = some u ∧ now ≤ u) ∨
      first seen id now = ((keptSeen seen now).insert id (now + 2 * window), true) ∧
        ∀ u, seen.lookup id = some u → u < now := by
  cases h : (keptSeen seen now).lookup id with
  | some u => exact .inl ⟨by rw [first, h], u, lookup_keptSeen.1 h⟩
  | none =>
    refine .inr ⟨by rw [first, h], fun u hu => not_le.1 fun hle => ?_⟩
    exact Option.some_ne_none u ((lookup_keptSeen.2 ⟨hu, hle⟩).symm.trans h)

/-- What `newest` does: a statement older than the entry of its user is refused,
any other becomes the entry. -/
theorem newest_cases (last : AList fun _ : String => ℤ) (key : String) (t now : ℤ) :
    (newest last key t now = (last, false) ∧ t < (last.lookup key).getD 0) ∨
      newest last key t now = ((keptLast last now).insert key t, true) ∧
        (last.lookup key).getD 0 ≤ t := by
  by_cases h : t < (last.lookup key).getD 0
  · exact .inl ⟨by rw [newest, if_pos h], h⟩
  · exact .inr ⟨by rw [newest, if_neg h], not_lt.1 h⟩

/-- A watermark is kept, or is too old to matter. -/
theorem lookup_keptLast (h : last.lookup k = some v) :
    (keptLast last now).lookup k = some v ∨ maxLast < len last ∧ v < floorAt now := by
  unfold keptLast
  split_ifs with hs
  · by_cases hv : floorAt now ≤ v
    · exact .inl (lookup_prune_eq_some.2 ⟨h, by simpa using hv⟩)
    · exact .inr ⟨hs, not_le.1 hv⟩
  · exact .inl h

theorem lookup_of_lookup_keptLast
    (h : (keptLast last now).lookup k = some v) : last.lookup k = some v := by
  unfold keptLast at h
  split_ifs at h
  · exact (lookup_prune_eq_some.1 h).1
  · exact h

/-- A key names one user of one realm. -/
theorem key_inj {ev ev' : Event} (h : realmName ev.realm) (h' : realmName ev'.realm)
    (hk : ev.key = ev'.key) : ev.realm = ev'.realm ∧ ev.user = ev'.user := by
  have hslash : isRealmChar '/' = false := by decide
  refine join_inj (not_mem_of_realmName h hslash) (not_mem_of_realmName h' hslash) ?_
  simpa [Event.key] using congrArg String.toList hk

/-- The projector call of `ServeHTTP` for the type of the event. -/
def project (cfg : Config Key) (s : Store) (ev : Event) (fate : CallFate) :
    Store × Except ApplyError Change :=
  match ev.kind with
  | .userMemberships | .userDeleted =>
    setUserGroups cfg.scope s ev.realm ev.user ev.statedGroups fate
  | .groupDeleted => removeGroup cfg.scope s ev.realm ev.group fate
  | .unknown => (s, .ok {})

end Gentian.Membership
