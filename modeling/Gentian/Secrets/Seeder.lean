/-
# Credentials that are seeded once

`Seeder` of `internal/kernel/secrets/seeder.go`: `SeedOIDC`, `SeedDatabase`, `SeedS3`, `SeedCache`
and `SeedKernelKey`, as programs of reads and writes of the vault that any number of callers
interleave.  `PutOnce` leaves a record that is there alone.

A value that is derived stands in for a read back that failed, although the record may hold
another one: one made in random mode, or set by hand.  And two callers who both found a record
without its secret each put one of their own (`seeded_not_stored`).
-/

import Gentian.Base.Threads
import Gentian.Secrets.Supplied

namespace Gentian.Secrets

open Threads Option List

/-! ### The vault -/

/-- A record of the vault; a key it does not have reads as the empty string. -/
abbrev Record := String → String

/-- The record of these fields. -/
def record (fields : List (String × String)) : Record := fun k => (fields.lookup k).getD ""

/-- The secrets, by path. -/
abbrev Vault := String → Option Record

/-- The vault, and two things that the results are about: whether a call has replaced a secret
that was stored, and which secrets (of a path, with a key and a length) were derived by the call
that made the record, and are as they were. -/
structure Stored where
  vault : Vault
  replaced : Bool
  derived : List (String × String × ℕ)

/-- The vault with one secret written. -/
def Vault.set (v : Vault) (path : String) (r : Record) : Vault :=
  fun p => if p = path then some r else v p

/-- A value the seeder made, and whether it would come out the same again. -/
structure Generated where
  value : String
  reproducible : Bool

/-- What a call asks.  `PutOnce` is asked with whether the values offered are reproducible.  Of the
two reads, `stored` and `readBack`, the second is asked with whether a value that was offered by
`PutOnce`, and not put, stands in for it when it fails. -/
inductive Op where
  | stored (path : String)
  | gen (salt info : String) (n : ℕ)
  | putOnce (path : String) (data : Record) (reproducible : Bool)
  | put (path : String) (data : Record)
  | readBack (path : String) (standsIn : Bool)

/-- What an operation gives. -/
abbrev Op.Result : Op → Type
  | .stored _ => Option Record
  | .gen .. => Generated
  | .putOnce .. | .put .. => Unit
  | .readBack .. => Record

/-- What an operation answers. -/
abbrev Answer (op : Op) : Type := Except String op.Result

/-- A call of the seeder. -/
abbrev Seeding := Act Op Answer String

/-- One operation. -/
def ask (op : Op) : Seeding op.Result := ExceptT.mk (Prog.op op fun r => Prog.ret r)

/-! ### The calls -/

/-- A call with what its caller gives. -/
inductive Seed where
  | oidc (tenant app issuer clientID : String)
  | database (tenant app host port name user password : String)
  | s3 (path endpoint bucket region accessKey secretKey : String)
  | cache (tenant app host port user password : String)
  | kernelKey (category name key : String)

namespace Seed

/-- Where the secret of a call is. -/
def path : Seed → String
  | .oidc tenant app .. => categoryPath tenant app "oidc"
  | .database tenant app .. => categoryPath tenant app "database"
  | .s3 path .. => path
  | .cache tenant app .. => categoryPath tenant app "cache"
  | .kernelKey category name _ => "gentian-os/kernel/" ++ category ++ "/" ++ name

/-- The secrets of its record, each with what the caller gives and its length. -/
def secrets : Seed → List (String × String × ℕ)
  | .oidc .. => [("client-secret", "", 40)]
  | .database _ _ _ _ _ _ password | .cache _ _ _ _ _ password => [("password", password, 40)]
  | .s3 _ _ _ _ accessKey secretKey =>
    [("access-key", accessKey, 20), ("secret-key", secretKey, 40)]
  | .kernelKey _ _ key => [(key, "", 48)]

/-- The secret that the call keeps while it puts the rest anew. -/
def refreshed : Seed → Option String
  | .oidc .. => some "client-secret"
  | .cache .. => some "password"
  | _ => none

end Seed

/-- The value a caller gives, or else one that is made. -/
def made (given salt info : String) (n : ℕ) : Seeding Generated :=
  if given ≠ "" then pure ⟨given, true⟩ else ask (.gen salt info n)

/-- The read back, with what stands in for one that fails. -/
def readBack (path : String) (data : Record) (offered certain : Bool) : Seeding Record := do
  match ← Act.attempt (ask (.readBack path (offered && certain))) with
  | .ok out => pure out
  | .error e => if !certain then throw ("read back " ++ path ++ ": " ++ e) else pure data

/-- A secret written unless there is one, and read back. -/
def seedAndRead (path : String) (data : Record) (reproducible : Bool) : Seeding Record := do
  ask (.putOnce path data reproducible)
  readBack path data true reproducible

/-- What `SeedOIDC` and `SeedCache` share: the stored secret `key` stands, and the rest of the
record is put anew. -/
def refresh (path key given : String) (want : Option Record → String → Record) :
    Seeding Record := do
  let existing ← ask (.stored path)
  let kept := (existing.map (· key)).getD ""
  let g ← made (if given ≠ "" then given else kept) path key 40
  let data := want existing (if kept ≠ "" then kept else g.value)
  if existing.isNone then seedAndRead path data g.reproducible
  else do
    ask (.put path data)
    readBack path data false true

/-- The record that `SeedOIDC` writes. -/
def oidcRecord (issuer clientID : String) (_ : Option Record) (secret : String) : Record :=
  record [("issuer", issuer), ("client-id", clientID), ("client-secret", secret)]

/-- The record that `SeedCache` writes: a stored user stays where the caller names none. -/
def cacheRecord (host port user : String) (existing : Option Record) (password : String) : Record :=
  record [("host", host), ("port", port), ("password", password),
    ("user", if user ≠ "" then user else (existing.map (· "user")).getD "")]

/-- The program of a call, up to the record whose fields are its result. -/
def Seed.code (c : Seed) : Seeding Record :=
  match c with
  | .oidc _ _ issuer clientID => refresh c.path "client-secret" "" (oidcRecord issuer clientID)
  | .database _ _ host port name user password => do
    let g ← made password c.path "password" 40
    seedAndRead c.path (record [("host", host), ("port", port), ("name", name), ("user", user),
      ("password", g.value)]) g.reproducible
  | .s3 _ endpoint bucket region accessKey secretKey => do
    let a ← made accessKey c.path "access-key" 20
    let s ← made secretKey c.path "secret-key" 40
    seedAndRead c.path (record [("endpoint", endpoint), ("bucket", bucket), ("region", region),
      ("access-key", a.value), ("secret-key", s.value)]) (a.reproducible && s.reproducible)
  | .cache _ _ host port user password =>
    refresh c.path "password" password (cacheRecord host port user)
  | .kernelKey _ _ key => do
    let g ← made "" c.path key 48
    let got ← seedAndRead c.path (record [(key, g.value)]) g.reproducible
    if got key = "" then throw ("the stored record holds no " ++ key) else pure got

/-! ### Running the calls -/

/-- How an operation goes: a write that is lost is answered with an error all the same, and a
value is derived when it is done and random when it is drawn. -/
inductive Fate where
  | done
  | fails (e : String)
  | lost (e : String)
  | drawn (value : String)

/-- The secrets of a call that the seeder makes. -/
def Seed.generated (c : Seed) : List (String × ℕ) :=
  (c.secrets.filter fun k => k.2.1 = "").map fun k => (k.1, k.2.2)

/-- A write by a call: a secret of the call's that was stored is replaced by another value. -/
def Stored.write (s : Stored) (c : Seed) (path : String) (data : Record) : Stored where
  vault := s.vault.set path data
  replaced := s.replaced || (s.vault path).any fun r =>
    c.secrets.any fun k => r k.1 ≠ "" && data k.1 ≠ r k.1
  derived := s.derived.filter fun e =>
    e.1 ≠ path || (s.vault path).map (· e.2.1) = some (data e.2.1)

/-- A write that leaves what is there alone. -/
def Stored.writeOnce (s : Stored) (c : Seed) (path : String) (data : Record)
    (reproducible : Bool) : Stored :=
  if (s.vault path).isSome then s
  else
    { s with
      vault := s.vault.set path data
      derived := (if reproducible then c.generated.map fun k => (path, k) else []) ++ s.derived }

/-- What becomes of a write. -/
def written (s s' : Stored) : Fate → Option (Except String Unit × Stored)
  | .done => some (.ok (), s')
  | .fails e => some (.error e, s)
  | .lost e => some (.error e, s')
  | .drawn _ => none

variable (derive : String → String → ℕ → String)

/-- One operation, with its fate. -/
def exec (c : Seed) (op : Op) (f : Fate) (s : Stored) : Option (Answer op × Stored) :=
  match op with
  | .stored path =>
    match f with
    | .done => some (.ok (s.vault path), s)
    | .fails e => some (.error e, s)
    | _ => none
  | .gen salt info n =>
    match f with
    | .done => some (.ok ⟨derive salt info n, true⟩, s)
    | .drawn value => some (.ok ⟨value, false⟩, s)
    | .fails e => some (.error e, s)
    | .lost _ => none
  | .putOnce path data reproducible => written s (s.writeOnce c path data reproducible) f
  | .put path data => written s (s.write c path data) f
  | .readBack path _ =>
    match f with
    | .done => some ((s.vault path).elim (.error "not found") .ok, s)
    | .fails e => some (.error e, s)
    | _ => none

/-- The callers of a seeder, which nobody else disturbs. -/
def callers : System Stored Seed Op Answer (Except String Record) Fate Empty where
  code c := c.code.run
  exec _ c := exec derive c
  env e := e.elim

/-- A read back that values offered to `PutOnce` stand in for fails only where the call that made
the record had derived the secrets as well, and no caller but the first finds a record without the
secret it keeps. -/
def goodStep (j : ℕ) (c : Seed) (op : Op) (f : Fate) (s : Stored) : Prop :=
  match op, f with
  | .readBack path true, .fails _ => ∀ k ∈ c.generated, (path, k) ∈ s.derived
  | .stored path, .done => j ≠ 0 → ∀ key ∈ c.refreshed, ∀ r ∈ s.vault path, r key ≠ ""
  | _, _ => True

instance goodStep.decidable (j : ℕ) (c : Seed) (s : Stored) :
    ∀ op f, Decidable (goodStep j c op f s)
  | .readBack .. , .fails _ | .stored _, .done => by unfold goodStep; split <;> infer_instance
  | .readBack .., .done | .readBack .., .lost _ | .readBack .., .drawn _ | .stored _, .fails _
  | .stored _, .lost _ | .stored _, .drawn _ | .gen .., _ | .putOnce .., _ | .put .., _ =>
    .isTrue (by simp [goodStep])

/-- What a caller relies on: a record stays, and so does the secret that the caller keeps, for
the first caller even while it is empty. -/
def relies (j : ℕ) (c : Seed) (s s' : Stored) : Prop :=
  ∀ r ∈ s.vault c.path, ∃ r' ∈ s'.vault c.path, ∀ key ∈ c.refreshed,
    r key ≠ "" ∨ j = 0 → r' key = r key

/-- **What every step keeps**: no secret is replaced, and what was derived is still there. -/
structure Kept (s : Stored) : Prop where
  unreplaced : s.replaced = false
  derived : ∀ e ∈ s.derived, (s.vault e.1).map (· e.2.1) = some (derive e.1 e.2.1 e.2.2)

/-- What calls of the seeder keep, and what they rely on. -/
def seederSpec : Spec Stored Seed Op Fate where
  inv _ s := Kept derive s
  rely := relies
  cond j c op f _ s := goodStep j c op f s

instance (j : ℕ) (c : Seed) (op : Op) (f : Fate) (calls : List Seed) (s : Stored) :
    Decidable ((seederSpec derive).cond j c op f calls s) :=
  inferInstanceAs (Decidable (goodStep j c op f s))

variable {derive} {j : ℕ} {c : Seed} {s s' : Stored} {path key given : String} {data : Record}

theorem relies_refl (j : ℕ) (c : Seed) (s : Stored) : relies j c s s :=
  fun r hr => ⟨r, hr, fun _ _ _ => rfl⟩

/-- What others may do in two steps they may do in one. -/
theorem relies_trans {s1 s2 s3 : Stored} (h : relies j c s1 s2) (h' : relies j c s2 s3) :
    relies j c s1 s3 := by
  intro r hr
  obtain ⟨r2, hr2, h2⟩ := h r hr
  obtain ⟨r3, hr3, h3⟩ := h' r2 hr2
  refine ⟨r3, hr3, fun key hkey hk => ?_⟩
  have heq := h2 key hkey hk
  exact (h3 key hkey (hk.imp_left (heq ▸ ·))).trans heq

theorem relies.isSome (h : relies j c s s') (hs : (s.vault c.path).isSome) :
    (s'.vault c.path).isSome := by
  obtain ⟨r, hr⟩ := isSome_iff_exists.1 hs
  obtain ⟨r', hr', -⟩ := h r hr
  exact isSome_iff_exists.2 ⟨r', hr'⟩

section

variable (c' : Seed) (reproducible : Bool)

/-- A write that leaves what is there is what others may do. -/
theorem relies_writeOnce (j : ℕ) (c : Seed) (s : Stored) (path : String) (data : Record) :
    relies j c s (s.writeOnce c' path data reproducible) := by
  intro r hr
  refine ⟨r, ?_, fun _ _ _ => rfl⟩
  unfold Stored.writeOnce
  split
  · exact hr
  next hsome =>
    have hne : c.path ≠ path := fun heq => hsome (by rw [← heq, mem_def.1 hr]; rfl)
    simpa [Vault.set, hne] using hr

theorem isSome_writeOnce (s : Stored) (path : String) (data : Record) :
    ((s.writeOnce c' path data reproducible).vault path).isSome := by
  unfold Stored.writeOnce
  split
  next hsome => exact hsome
  · simp [Vault.set]

end

/-- **`PutOnce` makes a record of derived values, or none.** -/
theorem Kept.writeOnce (h : Kept derive s) {reproducible : Bool}
    (hdata : reproducible → ∀ k ∈ c.generated, data k.1 = derive path k.1 k.2) :
    Kept derive (s.writeOnce c path data reproducible) := by
  unfold Stored.writeOnce
  split
  · exact h
  next hsome =>
    refine ⟨h.unreplaced, fun e he => ?_⟩
    rcases mem_append.1 he with hnew | hold
    · split_ifs at hnew with hrep
      · obtain ⟨k, hk, rfl⟩ := List.mem_map.1 hnew
        simpa [Vault.set] using hdata hrep k hk
      · exact absurd hnew not_mem_nil
    · -- nothing was derived at a path without a record
      have hne : e.1 ≠ path := by
        rintro rfl
        have := h.derived e hold
        simp [Option.not_isSome_iff_eq_none.1 hsome] at this
      simpa [Vault.set, hne] using h.derived e hold

/-- **A put leaves what it does not change.** -/
theorem Kept.derived_write (h : Kept derive s) :
    ∀ e ∈ (s.write c path data).derived,
      ((s.write c path data).vault e.1).map (· e.2.1) = some (derive e.1 e.2.1 e.2.2) := by
  intro e he
  obtain ⟨he, hsame⟩ := mem_filter.1 he
  have hold := h.derived e he
  by_cases hpath : e.1 = path
  · simp only [hpath, ne_eq, not_true_eq_false, decide_false, Bool.false_or,
      decide_eq_true_eq] at hsame
    rw [hpath, hsame] at hold
    simpa [Stored.write, Vault.set, hpath] using hold
  · simpa [Stored.write, Vault.set, hpath] using hold

theorem categoryPath_ne (t a t' a' : String) :
    categoryPath t a "oidc" ≠ categoryPath t' a' "cache" := by
  intro h
  rcases GoStrings.hasSuffix_of_append_eq h with h | h <;> cases h

/-- A path is of one kind. -/
theorem refreshed_eq {key' : String} : ∀ {c c' : Seed}, c.refreshed = some key →
    c'.refreshed = some key' → c.path = c'.path → key = key'
  | .oidc .., .oidc .., rfl, rfl, _ | .cache .., .cache .., rfl, rfl, _ => rfl
  | .oidc .., .cache .., _, _, h => absurd h (categoryPath_ne _ _ _ _)
  | .cache .., .oidc .., _, _, h => absurd h.symm (categoryPath_ne _ _ _ _)

/-- A put that keeps the secret, or that fills an empty one by the first caller. -/
theorem relies_write {r : Record} {j' : ℕ} (hkey : c.refreshed = some key)
    (hr : s.vault c.path = some r) (hkept : r key ≠ "" → data key = r key)
    (hempty : r key = "" → j = 0) (c' : Seed) (hne : j' ≠ j) :
    relies j' c' s (s.write c c.path data) := by
  intro r' hr'
  by_cases hpath : c'.path = c.path
  · refine ⟨data, by simp [Stored.write, Vault.set, hpath], fun _ hkey' hk => ?_⟩
    obtain rfl := refreshed_eq hkey hkey' hpath.symm
    rw [hpath, hr] at hr'
    cases hr'
    rcases hk with hk | hk
    · exact hkept hk
    · exact hkept fun h => hne (hk.trans (hempty h).symm)
  · exact ⟨r', by simpa [Stored.write, Vault.set, hpath] using hr', fun _ _ _ => rfl⟩

/-! ### The programs -/

/-- The generated secrets in the result are those at the path. -/
def GotStored (c : Seed) (got : Record) (s : Stored) : Prop :=
  ∀ k ∈ c.generated, (s.vault c.path).map (· k.1) = some (got k.1)

section programs

variable {Q : Record → Stored → Prop}

/-- The rule of an operation. -/
theorem ask_safe {op : Op} {Q : op.Result → Stored → Prop}
    (h : ∀ s1 f r s2, relies j c s s1 → Kept derive s1 → goodStep j c op f s1 →
      exec derive c op f s1 = some (r, s2) →
        Kept derive s2 ∧ (∀ j' c', j' ≠ j → relies j' c' s1 s2) ∧ ∀ a, r = .ok a → Q a s2) :
    SafeE (callers derive) (seederSpec derive) j c Q (fun _ _ => True) (ask op) s := by
  intro _ s1 f r s2 hrely hinv _ hcond he
  obtain ⟨hrep, hothers, hQ⟩ := h s1 f r s2 hrely hinv hcond he
  refine ⟨hrep, hothers, ?_⟩
  cases r with
  | ok a => exact hQ a rfl
  | error e => trivial

/-- The rule of making a value. -/
theorem made_safe {info : String} {n : ℕ} {Q : Generated → Stored → Prop}
    (h : ∀ g s', relies j c s s' →
      (given = "" → g.reproducible → g.value = derive path info n) → Q g s') :
    SafeE (callers derive) (seederSpec derive) j c Q (fun _ _ => True) (made given path info n)
      s := by
  unfold made
  split_ifs with hgiven
  · exact .pure (h _ s (relies_refl j c s) fun hno => absurd hno hgiven)
  · refine ask_safe fun s1 f r _ hrely hinv _ he => ?_
    have hothers := fun j' c' (_ : j' ≠ j) => relies_refl j' c' s1
    cases f with
    | done =>
      cases he
      exact ⟨hinv, hothers, fun g hg => h g s1 hrely fun _ _ => by cases hg; rfl⟩
    | drawn value =>
      cases he
      exact ⟨hinv, hothers, fun g hg => h g s1 hrely fun _ hr => by cases hg; cases hr⟩
    | fails e =>
      cases he
      exact ⟨hinv, hothers, nofun⟩
    | lost e => cases he

/-- The rule of reading back. -/
theorem readBack_safe {offered certain : Bool} (hsome : (s.vault c.path).isSome)
    (hfail : certain → ∀ s', relies j c s s' → (offered → ∀ k ∈ c.generated,
      (s'.vault c.path).map (· k.1) = some (derive c.path k.1 k.2)) → GotStored c data s') :
    SafeE (callers derive) (seederSpec derive) j c (GotStored c) (fun _ _ => True)
      (readBack c.path data offered certain) s := by
  refine .next (R := fun r s' => match r with
    | .ok out => GotStored c out s'
    | .error _ => certain → GotStored c data s') ?_ (.attempt ?_)
  · rintro (e | out) s' h
    · cases certain with
      | false => exact .throw trivial
      | true => exact .pure (h rfl)
    · exact .pure h
  · intro _ s1 f r _ hrely hinv _ hcond he
    have hothers := fun j' c' (_ : j' ≠ j) => relies_refl j' c' s1
    cases f with
    | done =>
      obtain ⟨out, hout⟩ := isSome_iff_exists.1 (hrely.isSome hsome)
      simp only [callers, exec, hout] at he
      cases he
      exact ⟨hinv, hothers, fun k _ => by rw [hout]; rfl⟩
    | fails e =>
      cases he
      refine ⟨hinv, hothers, fun hc => hfail hc s1 hrely fun ho k hk => ?_⟩
      subst hc ho
      exact hinv.derived _ (hcond k hk)
    | lost | drawn => cases he

/-- What is seeded and read back is what is stored. -/
theorem seedAndRead_safe {reproducible : Bool}
    (hdata : reproducible → ∀ k ∈ c.generated, data k.1 = derive c.path k.1 k.2) :
    SafeE (callers derive) (seederSpec derive) j c (GotStored c) (fun _ _ => True)
      (seedAndRead c.path data reproducible) s := by
  refine .next (R := fun _ s' => (s'.vault c.path).isSome) ?_ (ask_safe ?_)
  · intro _ s' h
    refine readBack_safe h fun hrep s1 hrely hderived k hk => ?_
    rw [hdata hrep k hk, hderived rfl k hk]
  · intro s1 f r _ _ hinv _ he
    cases f with
    | done | lost e =>
      cases he
      exact ⟨hinv.writeOnce hdata, fun j' c' _ => relies_writeOnce c _ j' c' s1 c.path data,
        fun _ _ => isSome_writeOnce c _ s1 c.path data⟩
    | fails e =>
      cases he
      exact ⟨hinv, fun j' c' _ => relies_refl j' c' s1, nofun⟩
    | drawn _ => cases he

section

variable (hkey : c.refreshed = some key) (hsecrets : c.secrets = [(key, given, 40)])

include hkey hsecrets

/-- The record was found with this secret; what is put keeps it, or fills it when it is
empty. -/
theorem put_safe {r0 : Record} {s0 : Stored} (hr0 : s0.vault c.path = some r0)
    (hknown : r0 key ≠ "" ∨ j = 0) (hkept : r0 key ≠ "" → data key = r0 key)
    (hrely0 : relies j c s0 s) :
    SafeE (callers derive) (seederSpec derive) j c (GotStored c) (fun _ _ => True) (do
        ask (.put c.path data)
        readBack c.path data false true) s := by
  have hput : ∀ s1, relies j c s s1 → Kept derive s1 →
      Kept derive (s1.write c c.path data) ∧
      (∀ j' c', j' ≠ j → relies j' c' s1 (s1.write c c.path data)) := by
    intro s1 hrely hinv
    obtain ⟨r, hr, hsame⟩ := relies_trans hrely0 hrely r0 hr0
    have heq : r key = r0 key := hsame key hkey hknown
    refine ⟨⟨?_, hinv.derived_write⟩,
      fun j' c' => relies_write hkey hr (fun h => ?_) (fun h => ?_) c'⟩
    · have hold := hinv.unreplaced
      by_cases h : r key = "" <;> simp_all [Stored.write]
    · rw [heq] at h ⊢
      exact hkept h
    · exact hknown.resolve_left fun hne => hne (heq ▸ h)
  refine .next (R := fun _ s' => s'.vault c.path = some data) ?_ (ask_safe ?_)
  · intro _ s' h
    refine readBack_safe (by rw [h]; rfl) fun _ s1 hrely _ k hk => ?_
    obtain ⟨r, hr, hsame⟩ := hrely data h
    have hk' : k.1 = key := by
      rw [Seed.generated] at hk
      by_cases hgiven : given = "" <;> simp_all
    have heq : r key = data key := hsame key hkey (hknown.imp_left fun hne => by rwa [hkept hne])
    rw [mem_def.1 hr, hk', ← heq]
    rfl
  · intro s1 f r _ hrely hinv _ he
    cases f with
    | done | lost e =>
      cases he
      exact ⟨(hput s1 hrely hinv).1, (hput s1 hrely hinv).2, fun _ _ => by
        simp [Stored.write, Vault.set]⟩
    | fails e =>
      cases he
      exact ⟨hinv, fun j' c' _ => relies_refl j' c' s1, nofun⟩
    | drawn _ => cases he

/-- So is what is refreshed. -/
theorem refresh_safe {want : Option Record → String → Record} (hwant : ∀ e x, want e x key = x) :
    SafeE (callers derive) (seederSpec derive) j c (GotStored c) (fun _ _ => True)
      (refresh c.path key given want) s := by
  refine .next (R := fun existing s' => existing = s'.vault c.path ∧
    (j ≠ 0 → ∀ r ∈ existing, r key ≠ "")) ?_ (ask_safe ?_)
  · rintro _ s0 ⟨rfl, hfirst⟩
    refine .next (R := fun g s' => relies j c s0 s' ∧ (given = "" → s0.vault c.path = none →
      g.reproducible → g.value = derive c.path key 40)) ?_ (made_safe fun g s' hrely hg =>
        ⟨hrely, fun hno hnone => hg (by simp [hno, hnone])⟩)
    rintro g s1 ⟨hrely, hg⟩
    cases hr0 : s0.vault c.path with
    | none =>
      refine seedAndRead_safe fun _ k hk => ?_
      rw [Seed.generated] at hk
      by_cases hgiven : given = "" <;> simp_all
    | some r0 =>
      have hknown : r0 key ≠ "" ∨ j = 0 := by
        by_cases hj : j = 0
        · exact .inr hj
        · exact .inl (hfirst hj r0 hr0)
      exact put_safe hkey hsecrets hr0 hknown (fun hne => by simp [hwant, hne]) hrely
  · intro s1 f r _ _ hinv hcond he
    cases f with
    | done =>
      cases he
      refine ⟨hinv, fun j' c' _ => relies_refl j' c' s1, fun existing h => ?_⟩
      cases h
      exact ⟨rfl, fun hj r hr => hcond hj key hkey r hr⟩
    | fails e =>
      cases he
      exact ⟨hinv, fun j' c' _ => relies_refl j' c' s1, nofun⟩
    | lost | drawn => cases he

end

/-- **Each call is safe.** -/
theorem code_safe (c : Seed) : SafeE (callers derive) (seederSpec derive) j c (GotStored c)
    (fun _ _ => True) c.code s := by
  cases c with
  | oidc tenant app _ _ =>
    exact refresh_safe rfl rfl fun _ _ => by simp [oidcRecord, record, lookup]
  | cache tenant app host port user password =>
    exact refresh_safe rfl rfl fun _ _ => by simp [cacheRecord, record, lookup]
  | database tenant app host port name user password =>
    refine .bind (made_safe fun g s' _ hg => seedAndRead_safe fun hrep k hk => ?_)
    simp only [Seed.generated, Seed.secrets, List.mem_map, mem_filter, mem_singleton,
      decide_eq_true_eq] at hk
    obtain ⟨_, ⟨rfl, hgiven⟩, rfl⟩ := hk
    simpa [record, lookup] using hg hgiven hrep
  | s3 _ _ _ _ _ _ =>
    refine .bind (made_safe fun a s' _ ha => .bind (made_safe fun b s'' _ hb =>
      seedAndRead_safe fun hrep k hk => ?_))
    simp only [Seed.generated, Seed.secrets, List.mem_map, mem_filter, mem_cons,
      not_mem_nil, or_false, decide_eq_true_eq] at hk
    rw [Bool.and_eq_true] at hrep
    obtain ⟨_, ⟨rfl | rfl, hgiven⟩, rfl⟩ := hk
    · simpa [record, lookup] using ha hgiven hrep.1
    · simpa [record, lookup] using hb hgiven hrep.2
  | kernelKey _ name key =>
    refine .bind (made_safe fun g s' _ hg => .next ?_ (seedAndRead_safe fun hrep k hk => ?_))
    · intro _ s'' h
      split_ifs
      · exact .throw trivial
      · exact .pure h
    · obtain rfl : k = (key, 48) := by simpa [Seed.generated, Seed.secrets] using hk
      simpa [record] using hg rfl hrep

end programs

/-- **Every call keeps it and returns what is stored.** -/
theorem seeder_sound : Sound (callers derive) (seederSpec derive)
    fun _ c r s => ∀ got, r = .ok got → GotStored c got s where
  refl := relies_refl
  trans _ _ _ _ _ := relies_trans
  env e := e.elim
  begin calls c s hinv := by
    refine ⟨hinv, (code_safe c).safe (fun got s h got' heq => ?_) fun e s _ got' heq => ?_⟩
    · cases heq
      exact h
    · cases heq

/-- A derivation, and a call for a database of which the caller gives no password. -/
def derived (salt info : String) (_ : ℕ) : String := salt ++ "#" ++ info

/-- The wiki's database. -/
def wikiDatabase : Seed := .database "acme" "wiki" "db" "5432" "acme_wiki" "acme_wiki" ""

/-- The wiki's client. -/
def wikiOIDC : Seed := .oidc "acme" "wiki" "https" "wiki"

/-- The vault with one record. -/
def vaultOf (c : Seed) (r : Record) : Vault := Vault.set (fun _ => none) c.path r

/-- A client secret that was set by hand is kept; a call derives a password, one in random mode
offers another and cannot read back, and one derives it again. -/
def seededTwice : List (Move Seed Fate Empty) :=
  [.begin wikiOIDC, .run 0 .done, .run 0 .done, .run 0 (.fails "down"),
    .begin wikiDatabase, .run 1 .done, .run 1 .done, .run 1 .done,
    .begin wikiDatabase, .run 2 (.drawn "x"), .run 2 .done, .run 2 (.fails "down"),
    .begin wikiDatabase, .run 3 .done, .run 3 .done]

end Gentian.Secrets
