/-
# Databases on the shared MariaDB server

`internal/backup/mariadb.go`.  What is an app's is decided by name, and the same names are the
patterns of the rights that the app's account holds:

| pattern | databases | granted |
| --- | --- | --- |
| `MariaDBDatabasePattern` | the provisioned one | always |
| `MariaDBOwnedPattern` | the provisioned name, `_` and whatever follows | to an app that may create its own |

The provisioned name is dropped without asking, also for an app whose setup was refused, and
an app that may no longer create databases loses the rights on those it has created
(`destroy_drops_anothers`).
-/

import Gentian.Backup.Inventory
import Gentian.Base.Like
import Gentian.Base.Runs

namespace Gentian.Backup

open GoStrings GoErrors Like List

/-! ### Names and rights -/

/-- `mariadbName`: what a database's and a user's name may be made of. -/
def mariadbName (name : String) : Bool :=
  name ≠ "" && name.toList.all fun c => Api.isAlnum c || c = '_'

/-- The pattern that one database alone fits. -/
def mariadbDatabasePattern (database : String) : String := escape database

/-- The pattern of the databases an app makes beside its own. -/
def mariadbOwnedPattern (database : String) : String :=
  mariadbDatabasePattern database ++ "\\_%"

/-- Whether a database is an app's own or one it made. -/
def mariadbOwns (provisioned name : String) : Bool :=
  name = provisioned || hasPrefix name (provisioned ++ "_")

/-- What fits the pattern of an app's databases. -/
theorem like_mariadbOwnedPattern {database name : String} :
    like (mariadbOwnedPattern database) name ↔ hasPrefix name (database ++ "_") := by
  have hpattern : mariadbOwnedPattern database = escape (database ++ "_") ++ "%" := by
    refine String.toList_inj.1 ?_
    simp [mariadbOwnedPattern, mariadbDatabasePattern, escape, escapeChar]
  rw [hpattern, like_escape_percent, hasPrefix_iff]

/-- A row of `mysql.db`: the rights of an account on the databases of a pattern. -/
structure Grant where
  user : String
  pattern : String
deriving DecidableEq

/-- The rights a setup gives, one more where the app makes databases. -/
def mariadbGrants (database user : String) (dynamic : Bool) : List Grant :=
  ⟨user, mariadbDatabasePattern database⟩ ::
    if dynamic then [⟨user, mariadbOwnedPattern database⟩] else []

/-- The server: its databases, the rights on them and its accounts. -/
structure Server where
  databases : List String
  grants : List Grant
  users : List String
deriving DecidableEq

/-- Whether the account holds rights that reach the database. -/
def Server.holds (s : Server) (user name : String) : Bool :=
  s.grants.any fun g => g.user = user && like g.pattern name

/-- Whether another user has a right on a database. -/
def mariadbHeldByAnother (s : Server) (name user : String) : Bool :=
  s.grants.any fun g => g.user ≠ user && like g.pattern name

/-- `mariadbOwnedSQL`. -/
def mariadbOwned (s : Server) (database user : String) : List String :=
  s.databases.filter fun name =>
    like (mariadbOwnedPattern database) name && !mariadbHeldByAnother s name user

/-- `mariadbOthersSQL`. -/
def mariadbOthers (s : Server) (database user : String) : List String :=
  s.databases.filter fun name =>
    like (mariadbOwnedPattern database) name && mariadbHeldByAnother s name user

/-- `mariadbStraySQL`, of the rights on databases. -/
def mariadbStray (s : Server) (database user : String) (dynamic : Bool) : Bool :=
  s.grants.any fun g => g.user = user && !(mariadbGrants database user dynamic).contains g

/-! ### The scripts -/

/-- Why a script ends. -/
inductive ScriptError where
  | invalidName (what name : String)
  | noPassword
  | lockNotTaken
  | withinRights (database : String) (other : Grant)
  | overlaps (database other : String)
deriving DecidableEq

/-- What a script says when it ends. -/
def ScriptError.text : ScriptError → String
  | .invalidName what name => "ERROR: invalid MariaDB " ++ what ++ " name \"" ++ name ++ "\""
  | .noPassword => "ERROR: DB_PASS must not be empty"
  | .lockNotTaken => "the provisioning lock could not be taken"
  | .withinRights database other => "refused: database " ++ database ++
      " is within the rights of another account (" ++ other.user ++ "@% on " ++ other.pattern ++ ")"
  | .overlaps database other => "refused: " ++ database ++ " is to create databases named " ++
      database ++ "_..., and " ++ other ++ " is one another account holds rights on"

/-- What every script refuses: a name that MariaDB cannot have. -/
def mariadbRefusal (database user : String) : Except ScriptError Unit :=
  if !mariadbName database then .error (.invalidName "database" database)
  else if !mariadbName user then .error (.invalidName "user" user)
  else .ok ()

/-- What a setup finds: a password, and whether it takes the lock in time. -/
structure SetupEnv where
  password : String
  lockTaken : Bool
deriving DecidableEq

/-- The refusals of `MariaDBSetupScript`. -/
def setupRefusal (s : Server) (database user : String) (dynamic : Bool) : Except ScriptError Unit :=
  match s.grants.find? fun g => g.user ≠ user && like g.pattern database with
  | some other => .error (.withinRights database other)
  | none =>
    match (if dynamic then mariadbOthers s database user else []) with
    | other :: _ => .error (.overlaps database other)
    | [] => .ok ()

/-- The rights once everything the account held has been taken away, when it held anything
else than it is to. -/
def revoked (s : Server) (database user : String) (dynamic : Bool) : List Grant :=
  if mariadbStray s database user dynamic then s.grants.filter fun g => g.user ≠ user
  else s.grants

/-- Where a setup can stop, since each of its statements is committed on its own: after the
database is created, after the account is, or after `REVOKE` and some of the grants. -/
inductive SetupStop where
  | database
  | account
  | granted (grants : ℕ)
deriving DecidableEq

/-- What `MariaDBSetupScript` asks before it creates anything. -/
def setupAllowed (env : SetupEnv) (s : Server) (database user : String) (dynamic : Bool) :
    Except ScriptError Unit := do
  mariadbRefusal database user
  if env.password = "" then throw .noPassword
  if !env.lockTaken then throw .lockNotTaken
  setupRefusal s database user dynamic

/-- `MariaDBSetupScript`, which may stop on the way. -/
def mariadbSetup (env : SetupEnv) (s : Server) (database user : String) (dynamic : Bool)
    (stops : Option SetupStop) : Except ScriptError Server :=
  (setupAllowed env s database user dynamic).map fun _ =>
    match stops with
    | some .database => { s with databases := s.databases.insert database }
    | some .account =>
      { s with databases := s.databases.insert database, users := s.users.insert user }
    | some (.granted n) =>
      { databases := s.databases.insert database
        grants := revoked s database user dynamic ∪ (mariadbGrants database user dynamic).take n
        users := s.users.insert user }
    | none =>
      { databases := s.databases.insert database
        grants := revoked s database user dynamic ∪ mariadbGrants database user dynamic
        users := s.users.insert user }

/-- The databases that `mariadbDestroyScript` drops, in order. -/
def destroyed (s : Server) (database user : String) : List String :=
  mariadbOwned s database user ++ [database]

/-- `mariadbDestroyScript`.  A run that stops after some of the drops leaves the
account. -/
def mariadbDestroy (s : Server) (database user : String) (stops : Option ℕ) :
    Except ScriptError Server :=
  (mariadbRefusal database user).map fun _ =>
    match stops with
    | some drops =>
      { s with
        databases := s.databases.filter fun d => d ∉ (destroyed s database user).take drops }
    | none =>
      { databases := s.databases.filter fun d => d ∉ destroyed s database user
        grants := s.grants.filter fun g => g.user ≠ user
        users := s.users.filter fun u => u ≠ user }

/-! ### Runs -/

/-- An app of a tenant. -/
structure AppOf where
  tenant : String
  name : String
deriving DecidableEq

/-- `MariaDBUser`. -/
def AppOf.user (a : AppOf) : String := mariadbUser a.tenant a.name

/-- The server, and the databases that an app was provisioned with or has created, as
long as it is provisioned. -/
structure Hosting where
  server : Server
  owned : List (AppOf × String)

/-- A server on which nothing has been set up. -/
def Hosting.empty : Hosting := ⟨⟨[], [], []⟩, []⟩

/-- What happens on a server: the platform's scripts, and what an app does itself. -/
inductive HostingMove where
  | setup (app : AppOf) (database : String) (dynamic : Bool) (env : SetupEnv)
      (stops : Option SetupStop)
  | create (app : AppOf) (database : String)
  | destroy (app : AppOf) (database : String) (stops : Option ℕ)
deriving DecidableEq

/-- One script, or one statement of an app's account.  The name of an app's database may
differ from one time to the next, since the tenant states its beginning. -/
def hostingStep (h : Hosting) : HostingMove → Option Hosting
  | .setup app database dynamic env stops =>
    match mariadbSetup env h.server database app.user dynamic stops with
    | .error _ => some h
    | .ok s => some ⟨s, if stops = none then (app, database) :: h.owned else h.owned⟩
  | .create app database =>
    -- `CREATE DATABASE`, which needs rights on the name and that it is free
    if h.server.holds app.user database && !h.server.databases.contains database then
      some ⟨{ h.server with databases := database :: h.server.databases },
        (app, database) :: h.owned⟩
    else none
  | .destroy app database stops =>
    match mariadbDestroy h.server database app.user stops with
    | .error _ => some h
    | .ok s => some ⟨s, h.owned.filter fun e => e.1 ≠ app⟩

/-- **No database of a provisioned app is dropped.** -/
def Hosted (h : Hosting) : Prop := ∀ e ∈ h.owned, e.2 ∈ h.server.databases
deriving Decidable

/-- The account was set up with the database, or there is neither. -/
def setUpWith (s : Server) (database user : String) : Prop :=
  (database ∈ s.databases ∧ ⟨user, mariadbDatabasePattern database⟩ ∈ s.grants ∧
    ∀ g ∈ s.grants, g.user = user → g ∈ mariadbGrants database user true) ∨
  (database ∉ s.databases ∧ ∀ g ∈ s.grants, g.user ≠ user)
deriving Decidable

/-- A setup names every database that the account's rights reach, and does not stop once it has
taken rights away; a destroy is run with the database that the account was set up with, does not
stop between the drop of that and of the account, and is for an app whose account is its own. -/
def keepsRights (h : Hosting) : HostingMove → Prop
  | .setup app database dynamic _ none => ∀ d ∈ h.server.databases,
      h.server.holds app.user d = true → d = database ∨ (dynamic = true ∧ mariadbOwns database d = true)
  | .setup app database dynamic _ (some (.granted _)) =>
      mariadbStray h.server database app.user dynamic = false
  | .setup _ _ _ _ (some _) => True
  | .create _ _ => True
  | .destroy app database stops => setUpWith h.server database app.user ∧
      (∀ drops ∈ stops, drops ≤ (mariadbOwned h.server database app.user).length) ∧
      ∀ e ∈ h.owned, e.1 ≠ app → e.1.user ≠ app.user

instance keepsRights.decidable (h : Hosting) : ∀ m, Decidable (keepsRights h m)
  | .setup _ _ _ _ none => inferInstanceAs (Decidable (∀ d ∈ h.server.databases, _))
  | .setup _ _ _ _ (some (.granted _)) => inferInstanceAs (Decidable (_ = _))
  | .setup _ _ _ _ (some .database) => inferInstanceAs (Decidable True)
  | .setup _ _ _ _ (some .account) => inferInstanceAs (Decidable True)
  | .create _ _ => inferInstanceAs (Decidable True)
  | .destroy _ _ _ => inferInstanceAs (Decidable (_ ∧ _ ∧ _))

variable {s s' : Server} {database user u d : String} {dynamic : Bool} {env : SetupEnv}
  {h h' : Hosting} {m : HostingMove} {stops : Option SetupStop} {g : Grant}

/-! ### Rights that do not meet -/

/-- A user has a right on a database when one of the patterns fits. -/
theorem holds_iff : s.holds u d ↔ ∃ g ∈ s.grants, g.user = u ∧ like g.pattern d := by
  simp [Server.holds]

theorem heldByAnother_of_holds (hne : u ≠ user) (hholds : s.holds u d) :
    mariadbHeldByAnother s d user := by
  obtain ⟨g, hg, rfl, hlike⟩ := holds_iff.1 hholds
  simp only [mariadbHeldByAnother, any_eq_true, Bool.and_eq_true, decide_eq_true_eq]
  exact ⟨g, hg, hne, hlike⟩

/-- A setup gives the rights it is to give. -/
theorem exists_mariadbGrants (hd : d = database ∨ (dynamic ∧ mariadbOwns database d)) :
    ∃ g ∈ mariadbGrants database user dynamic, g.user = user ∧ like g.pattern d := by
  have hexact : d = database → ∃ g ∈ mariadbGrants database user dynamic,
      g.user = user ∧ like g.pattern d := fun heq =>
    ⟨⟨user, mariadbDatabasePattern database⟩, by simp [mariadbGrants], rfl, like_escape.2 heq⟩
  rcases hd with heq | ⟨rfl, howns⟩
  · exact hexact heq
  · rw [mariadbOwns, Bool.or_eq_true, decide_eq_true_eq] at howns
    rcases howns with heq | hunder
    · exact hexact heq
    · exact ⟨⟨user, mariadbOwnedPattern database⟩, by simp [mariadbGrants], rfl,
        like_mariadbOwnedPattern.2 hunder⟩

/-- And no others. -/
theorem like_of_mem_mariadbGrants (hg : g ∈ mariadbGrants database user dynamic) :
    g.user = user ∧ (like g.pattern d → d = database ∨ dynamic ∧ hasPrefix d (database ++ "_")) ∧
      (g = ⟨user, mariadbDatabasePattern database⟩ ∨
        dynamic ∧ g = ⟨user, mariadbOwnedPattern database⟩) := by
  rw [mariadbGrants, mem_cons] at hg
  rcases hg with rfl | hg
  · exact ⟨rfl, fun hlike => .inl (like_escape.1 hlike), .inl rfl⟩
  · cases dynamic with
    | false => exact absurd hg not_mem_nil
    | true =>
      obtain rfl := mem_singleton.1 hg
      exact ⟨rfl, fun hlike => .inr ⟨rfl, like_mariadbOwnedPattern.1 hlike⟩, .inr ⟨rfl, rfl⟩⟩

/-- The rights of an account are those of a setup, whose database is there, and no two accounts
have rights on one name, whether there is a database of it or not. -/
structure Settled (s : Server) : Prop where
  anchored : ∀ g ∈ s.grants, ∃ database ∈ s.databases,
    g ∈ mariadbGrants database g.user true ∧ ⟨g.user, mariadbDatabasePattern database⟩ ∈ s.grants
  apart : ∀ g ∈ s.grants, ∀ g' ∈ s.grants, ∀ d, like g.pattern d → like g'.pattern d →
    g.user = g'.user

/-- Another database settles nothing anew. -/
theorem Settled.grown (h : Settled s) {databases users : List String}
    (hsub : ∀ d ∈ s.databases, d ∈ databases) : Settled ⟨databases, s.grants, users⟩ := by
  refine ⟨fun g hg => ?_, h.apart⟩
  obtain ⟨database, hdatabase, hgrant⟩ := h.anchored g hg
  exact ⟨database, hsub _ hdatabase, hgrant⟩

/-- A setup goes on only where no other account has rights on its names. -/
theorem of_setupRefusal (hok : setupRefusal s database user dynamic = .ok ()) (hg : g ∈ s.grants)
    (huser : g.user ≠ user) : like g.pattern database = false ∧
      (dynamic → ∀ name ∈ s.databases, hasPrefix name (database ++ "_") →
        like g.pattern name = false) := by
  rw [setupRefusal] at hok
  split at hok
  · cases hok
  next hnone =>
    refine ⟨by simpa [huser] using find?_eq_none.1 hnone g hg, ?_⟩
    rintro rfl name hname hunder
    rw [if_pos rfl] at hok
    split at hok
    · cases hok
    next hnil =>
      rw [Bool.eq_false_iff]
      intro hlike
      have hheld : mariadbHeldByAnother s name user :=
        any_eq_true.2 ⟨g, hg, by simp [huser, hlike]⟩
      have hmem : name ∈ mariadbOthers s database user :=
        mem_filter.2 ⟨hname, by simp [like_mariadbOwnedPattern.2 hunder, hheld]⟩
      exact absurd (hnil ▸ hmem) not_mem_nil

/-- **What a setup grants meets no rights of another account**, once it was not refused. -/
theorem Settled.apart_granted (h : Settled s)
    (hok : setupRefusal s database user dynamic = .ok ()) {new : Grant}
    (hnew : new ∈ mariadbGrants database user dynamic) (hg : g ∈ s.grants) (huser : g.user ≠ user)
    (hlike : like new.pattern d) : like g.pattern d = false := by
  obtain ⟨hown, hunder⟩ := of_setupRefusal hok hg huser
  rcases (like_of_mem_mariadbGrants hnew).2.1 hlike with rfl | ⟨hdyn, hd⟩
  · exact hown
  rw [Bool.eq_false_iff]
  intro hlike'
  obtain ⟨other, hother, hgrant, hexact⟩ := h.anchored g hg
  -- the database that the other account was set up with is refused by one of the two questions
  obtain ⟨hown', hunder'⟩ := of_setupRefusal hok hexact huser
  have hreaches : like (mariadbDatabasePattern other) other := like_escape.2 rfl
  rcases (like_of_mem_mariadbGrants hgrant).2.1 hlike' with rfl | ⟨-, hd'⟩
  · simp [hunder' hdyn _ hother hd] at hreaches
  · rcases nested_of_hasPrefix rfl hd hd' with rfl | hnested | hnested
    · simp [hown'] at hreaches
    · have hg' : g = ⟨g.user, mariadbOwnedPattern other⟩ := by
        rcases (like_of_mem_mariadbGrants (d := d) hgrant).2.2 with heq | ⟨-, heq⟩
        · rw [heq] at hlike'
          obtain rfl := like_escape.1 hlike'
          exact absurd (hunder hdyn _ hother hd) (by rw [heq]; simp [hreaches])
        · exact heq
      rw [hg', like_mariadbOwnedPattern.2 hnested] at hown
      cases hown
    · simp [hunder' hdyn _ hother hnested] at hreaches

/-- **A setup leaves the rights apart**, also one that stops. -/
theorem Settled.granted (h : Settled s) (hok : setupRefusal s database user dynamic = .ok ())
    {kept : List Grant} {users : List String} (n : ℕ)
    (hkept : kept = s.grants ∨ kept = s.grants.filter fun g => g.user ≠ user) :
    Settled ⟨s.databases.insert database,
      kept ∪ (mariadbGrants database user dynamic).take n, users⟩ := by
  have hsub : ∀ g ∈ kept, g ∈ s.grants := by
    rcases hkept with rfl | rfl
    · exact fun _ hg => hg
    · exact fun _ hg => mem_of_mem_filter hg
  have hstays : ∀ g ∈ kept, ∀ g' ∈ s.grants, g'.user = g.user → g' ∈ kept := by
    rcases hkept with rfl | rfl
    · exact fun _ _ _ hg' _ => hg'
    · intro g hg g' hg' heq
      exact mem_filter.2 ⟨hg', by rw [heq]; exact (mem_filter.1 hg).2⟩
  have hcross : ∀ g ∈ kept, ∀ new ∈ (mariadbGrants database user dynamic).take n, ∀ d,
      like g.pattern d → like new.pattern d → g.user = new.user := by
    intro g hg new hnew d hlike hlike'
    have hmem := mem_of_mem_take hnew
    rw [(like_of_mem_mariadbGrants (d := d) hmem).1]
    by_contra huser
    simp [h.apart_granted hok hmem (hsub g hg) huser hlike'] at hlike
  constructor
  · intro g hg
    rcases mem_union_iff.1 hg with hold | hnew
    · obtain ⟨other, hother, hgrant, hexact⟩ := h.anchored g (hsub g hold)
      exact ⟨other, mem_insert_of_mem hother, hgrant,
        mem_union_iff.2 (.inl (hstays g hold _ hexact rfl))⟩
    · have huser := (like_of_mem_mariadbGrants (d := database) (mem_of_mem_take hnew)).1
      have hform := (like_of_mem_mariadbGrants (d := database) (mem_of_mem_take hnew)).2.2
      refine ⟨database, mem_insert_self, ?_, mem_union_iff.2 (.inr ?_)⟩
      · rcases hform with heq | ⟨-, heq⟩ <;> simp [heq, mariadbGrants]
      · -- the right on the database itself is granted first
        rw [huser]
        cases n with
        | zero => exact absurd hnew (by simp)
        | succ n => exact mem_cons_self
  · intro g hg g' hg' d hlike hlike'
    rcases mem_union_iff.1 hg with hold | hnew <;> rcases mem_union_iff.1 hg' with hold' | hnew'
    · exact h.apart g (hsub g hold) g' (hsub g' hold') d hlike hlike'
    · exact hcross g hold g' hnew' d hlike hlike'
    · exact (hcross g' hold' g hnew d hlike' hlike).symm
    · rw [(like_of_mem_mariadbGrants (d := d) (mem_of_mem_take hnew)).1,
        (like_of_mem_mariadbGrants (d := d) (mem_of_mem_take hnew')).1]

/-! ### A setup -/

theorem setupRefusal_of_setupAllowed (h : setupAllowed env s database user dynamic = .ok ()) :
    setupRefusal s database user dynamic = .ok () := by
  rw [setupAllowed] at h
  obtain ⟨_, -, h⟩ := bind_eq_ok.1 h
  split_ifs at h
  · cases h
  · cases h
  · cases h
  · exact h

/-- A setup revokes all rights of its account, or none. -/
theorem revoked_cases : revoked s database user dynamic = s.grants ∨
    revoked s database user dynamic = s.grants.filter fun g => g.user ≠ user := by
  rw [revoked]
  split_ifs
  · exact .inr rfl
  · exact .inl rfl

section

variable (hok : mariadbSetup env s database user dynamic stops = .ok s')

include hok

theorem databases_mariadbSetup : s'.databases = s.databases.insert database := by
  obtain ⟨_, -, rfl⟩ := map_eq_ok.1 hok
  cases stops with
  | none => rfl
  | some stop => cases stop <;> rfl

/-- A setup keeps the rights of accounts apart. -/
theorem Settled.setup (h : Settled s) : Settled s' := by
  obtain ⟨_, hallowed, rfl⟩ := map_eq_ok.1 hok
  have hrefusal := setupRefusal_of_setupAllowed hallowed
  have hall : (mariadbGrants database user dynamic).take 2 = mariadbGrants database user dynamic :=
    take_of_length_le (by cases dynamic <;> simp [mariadbGrants])
  cases stops with
  | none => simpa [hall] using h.granted hrefusal 2 revoked_cases
  | some stop =>
    cases stop with
    | database | account => exact h.grown fun _ => mem_insert_of_mem
    | granted n => exact h.granted hrefusal n revoked_cases

/-- It takes no right from another account. -/
theorem holds_of_mariadbSetup (hne : u ≠ user) (hholds : s.holds u d) : s'.holds u d := by
  obtain ⟨g, hg, rfl, hlike⟩ := holds_iff.1 hholds
  have hkept : g ∈ revoked s database user dynamic := by
    have hcases : revoked s database user dynamic = s.grants ∨
        revoked s database user dynamic = s.grants.filter fun g => g.user ≠ user := revoked_cases
    rcases hcases with heq | heq
    · rwa [heq]
    · rw [heq]
      exact mem_filter.2 ⟨hg, by simpa using hne⟩
  obtain ⟨_, -, rfl⟩ := map_eq_ok.1 hok
  refine holds_iff.2 ⟨g, ?_, rfl, hlike⟩
  cases stops with
  | none => exact mem_union_iff.2 (.inl hkept)
  | some stop =>
    cases stop with
    | database | account => exact hg
    | granted n => exact mem_union_iff.2 (.inl hkept)

end

/-- **A setup that ends gives an account the rights on the databases that it names.** -/
theorem holds_named_of_mariadbSetup (hok : mariadbSetup env s database user dynamic none = .ok s')
    (hd : d = database ∨ (dynamic ∧ mariadbOwns database d)) : s'.holds user d := by
  obtain ⟨_, -, rfl⟩ := map_eq_ok.1 hok
  obtain ⟨g, hg, huser, hlike⟩ := exists_mariadbGrants hd
  exact holds_iff.2 ⟨g, mem_union_iff.2 (.inr hg), huser, hlike⟩

/-- **A setup that stops keeps the rights of its account**, unless it has taken them away. -/
theorem holds_of_stopped {stop : SetupStop}
    (hok : mariadbSetup env s database user dynamic (some stop) = .ok s')
    (hstray : ∀ n, stop = .granted n → mariadbStray s database user dynamic = false)
    (hholds : s.holds u d) : s'.holds u d := by
  obtain ⟨g, hg, rfl, hlike⟩ := holds_iff.1 hholds
  obtain ⟨_, -, rfl⟩ := map_eq_ok.1 hok
  refine holds_iff.2 ⟨g, ?_, rfl, hlike⟩
  cases stop with
  | database | account => exact hg
  | granted n =>
    refine mem_union_iff.2 (.inl ?_)
    rwa [revoked, hstray n rfl, if_neg (by simp)]

/-! ### A destroy -/

/-- A database that another has rights on is not dropped. -/
theorem not_mem_mariadbOwned (hne : u ≠ user) (hholds : s.holds u d) :
    d ∉ mariadbOwned s database user := by
  intro howned
  have := (mem_filter.1 howned).2
  simp [heldByAnother_of_holds hne hholds] at this

/-- **The database of another account is not the one that a destroy names.** -/
theorem Settled.ne_of_setUpWith (h : Settled s) (hset : setUpWith s database user) (hne : u ≠ user)
    (hd : d ∈ s.databases) (hholds : s.holds u d) : d ≠ database := by
  rintro rfl
  rcases hset with ⟨-, hgrant, -⟩ | ⟨hnone, -⟩
  · obtain ⟨g, hg, rfl, hlike⟩ := holds_iff.1 hholds
    exact hne (h.apart g hg _ hgrant d hlike (like_escape.2 rfl))
  · exact hnone hd

/-- **A destroy leaves the databases that the rights of another account reach**, and those
rights, and leaves the rights apart. -/
theorem Settled.destroy (h : Settled s) {drops : Option ℕ}
    (hok : mariadbDestroy s database user drops = .ok s') (hset : setUpWith s database user)
    (hdrops : ∀ n ∈ drops, n ≤ (mariadbOwned s database user).length) :
    Settled s' ∧ ∀ u d, u ≠ user → d ∈ s.databases → s.holds u d →
      d ∈ s'.databases ∧ s'.holds u d := by
  have hkept : ∀ u d, u ≠ user → d ∈ s.databases → s.holds u d →
      d ∉ destroyed s database user := by
    intro u d hne hd hholds
    rw [destroyed, mem_append, mem_singleton]
    exact not_or.2 ⟨not_mem_mariadbOwned hne hholds, h.ne_of_setUpWith hset hne hd hholds⟩
  have hexact : ∀ {v : String} {name : String}, ⟨v, mariadbDatabasePattern name⟩ ∈ s.grants →
      s.holds v name := fun hg => holds_iff.2 ⟨_, hg, rfl, like_escape.2 rfl⟩
  obtain ⟨_, -, rfl⟩ := map_eq_ok.1 hok
  cases drops with
  | some n =>
    have htake : ∀ d, d ∈ (destroyed s database user).take n → d ∈ mariadbOwned s database user := by
      intro d hd
      rw [destroyed, take_append_of_le_length (hdrops n rfl)] at hd
      exact mem_of_mem_take hd
    refine ⟨⟨fun g hg => ?_, h.apart⟩, fun u d hne hd hholds => ⟨mem_filter.2 ⟨hd, ?_⟩, hholds⟩⟩
    · obtain ⟨other, hother, hgrant, hother'⟩ := h.anchored g hg
      by_cases huser : g.user = user
      · -- the account that is being removed is still that of the database
        rcases hset with ⟨hthere, hmine, hall⟩ | ⟨-, hnone⟩
        · refine ⟨database, mem_filter.2 ⟨hthere, ?_⟩, huser ▸ hall g hg huser, huser ▸ hmine⟩
          have hself : hasPrefix database (database ++ "_") = false := by
            rw [Bool.eq_false_iff]
            intro hp
            obtain ⟨t, ht⟩ := hasPrefix_iff.1 hp
            have hlen := congrArg (fun x : String => x.toList.length) ht
            simp at hlen
          simp only [decide_eq_true_eq]
          intro hdrop
          have hlike := (Bool.and_eq_true_iff.1 (mem_filter.1 (htake _ hdrop)).2).1
          simp [like_mariadbOwnedPattern.1 hlike] at hself
        · exact absurd huser (hnone g hg)
      · refine ⟨other, mem_filter.2 ⟨hother, ?_⟩, hgrant, hother'⟩
        simpa using fun hdrop => not_mem_mariadbOwned huser (hexact hother') (htake _ hdrop)
    · simpa using fun hdrop => not_mem_mariadbOwned hne hholds (htake _ hdrop)
  | none =>
    refine ⟨⟨fun g hg => ?_, fun g hg g' hg' => h.apart g (mem_of_mem_filter hg) g'
      (mem_of_mem_filter hg')⟩, fun u d hne hd hholds =>
        ⟨mem_filter.2 ⟨hd, by simpa using hkept u d hne hd hholds⟩, ?_⟩⟩
    · obtain ⟨hg, huser⟩ := mem_filter.1 hg
      have huser : g.user ≠ user := by simpa using huser
      obtain ⟨other, hother, hgrant, hother'⟩ := h.anchored g hg
      refine ⟨other, mem_filter.2 ⟨hother, ?_⟩, hgrant, mem_filter.2 ⟨hother', by simpa using huser⟩⟩
      simpa using hkept _ other huser hother (hexact hother')
    · obtain ⟨g, hg, rfl, hlike⟩ := holds_iff.1 hholds
      exact holds_iff.2 ⟨g, mem_filter.2 ⟨hg, by simpa using hne⟩, rfl, hlike⟩

/-! ### Every run -/

/-- The databases of the provisioned apps are there, and the rights of their accounts
reach them, which are apart. -/
structure Reached (h : Hosting) : Prop where
  settled : Settled h.server
  owned : ∀ e ∈ h.owned, e.2 ∈ h.server.databases ∧ h.server.holds e.1.user e.2 = true

theorem reached_setup {app : AppOf} (hinv : Reached h)
    (hkeeps : keepsRights h (.setup app database dynamic env stops))
    (hok : mariadbSetup env h.server database app.user dynamic stops = .ok s') :
    Reached ⟨s', if stops = none then (app, database) :: h.owned else h.owned⟩ := by
  have hdatabases := databases_mariadbSetup hok
  have hold : ∀ e ∈ h.owned, e.2 ∈ s'.databases ∧ s'.holds e.1.user e.2 := by
    intro e he
    obtain ⟨hd, hholds⟩ := hinv.owned e he
    refine ⟨by rw [hdatabases]; exact mem_insert_of_mem hd, ?_⟩
    by_cases huser : e.1.user = app.user
    · rw [huser] at hholds ⊢
      cases stops with
      | none => exact holds_named_of_mariadbSetup hok (hkeeps e.2 hd hholds)
      | some stop =>
        refine holds_of_stopped hok ?_ hholds
        rintro n rfl
        exact hkeeps
    · exact holds_of_mariadbSetup hok huser hholds
  refine ⟨hinv.settled.setup hok, fun e he => ?_⟩
  split_ifs at he with hends
  · subst hends
    rcases mem_cons.1 he with rfl | he
    · exact ⟨by rw [hdatabases]; exact mem_insert_self,
        holds_named_of_mariadbSetup hok (.inl rfl)⟩
    · exact hold e he
  · exact hold e he

/-- **One script keeps the databases of the apps.** -/
theorem reached_hostingStep (hinv : Reached h) (hkeeps : keepsRights h m)
    (hstep : hostingStep h m = some h') : Reached h' := by
  cases m with
  | setup app database dynamic env stops =>
    rw [hostingStep] at hstep
    split at hstep
    · cases hstep
      exact hinv
    next s hok =>
      cases hstep
      exact reached_setup hinv hkeeps hok
  | create app database =>
    rw [hostingStep] at hstep
    split_ifs at hstep with hfree
    cases hstep
    rw [Bool.and_eq_true] at hfree
    refine ⟨hinv.settled.grown fun _ => mem_cons_of_mem _, fun e he => ?_⟩
    rcases mem_cons.1 he with rfl | he
    · exact ⟨mem_cons_self, hfree.1⟩
    · exact ⟨mem_cons_of_mem _ (hinv.owned e he).1, (hinv.owned e he).2⟩
  | destroy app database _ =>
    rw [hostingStep] at hstep
    split at hstep
    · cases hstep
      exact hinv
    next s hok =>
      cases hstep
      obtain ⟨hsettled, hkept⟩ := hinv.settled.destroy hok hkeeps.1 hkeeps.2.1
      refine ⟨hsettled, fun e he => ?_⟩
      obtain ⟨he, hne⟩ := mem_filter.1 he
      obtain ⟨hd, hholds⟩ := hinv.owned e he
      exact hkept _ _ (hkeeps.2.2 e he (by simpa using hne)) hd hholds

/-- **A destroy of one app never drops a database of another one**, in a run whose setups
take no rights on a database away and whose destroys are of what the account was set up with. -/
theorem databases_kept {ms : List HostingMove} (hm : Runs.Meets hostingStep keepsRights .empty ms)
    (hr : Runs.run hostingStep .empty ms = some h) : Hosted h := by
  have h0 : Reached .empty := ⟨⟨nofun, nofun⟩, nofun⟩
  have hreached := Runs.invariant (fun _ _ _ hinv hk hs => reached_hostingStep hinv hk hs) h0 hm hr
  exact fun e he => (hreached.owned e he).1

/-- The setup of an app of tenant `demo` under the platform's names. -/
def demoSetup (app database : String) (dynamic : Bool) : HostingMove :=
  .setup ⟨"demo", app⟩ database dynamic ⟨"secret", true⟩ none

/-- An app that creates its own databases beside one that does not, whose first setup stops, and
which is destroyed in two runs; a third app is refused. -/
def demoRun : List HostingMove :=
  [demoSetup "crm" "demo_crm" true, .create ⟨"demo", "crm"⟩ "demo_crm_extra",
    .setup ⟨"demo", "crm2"⟩ "demo_crm2" true ⟨"secret", true⟩ (some (.granted 1)),
    demoSetup "crm2" "demo_crm2" true, .create ⟨"demo", "crm2"⟩ "demo_crm2_x",
    demoSetup "crm-extra" "demo_crm_extra" false, demoSetup "crm" "demo_crm" true,
    .destroy ⟨"demo", "crm2"⟩ "demo_crm2" (some 1), .destroy ⟨"demo", "crm2"⟩ "demo_crm2" none]

theorem demo_databases_kept : ∃ h, Runs.run hostingStep .empty demoRun = some h ∧
    Hosted h ∧ h.server.databases = ["demo_crm_extra", "demo_crm"] := by
  have hr : Runs.run hostingStep .empty demoRun = some _ :=
    (Option.some_get (by decide +kernel)).symm
  exact ⟨_, hr, databases_kept (by decide +kernel) hr, by decide +kernel⟩

/-- **A destroy drops a database of another app.**  An app has created a database that
bears the provisioned name of another one, whose setup is refused; destroying that one
drops it.  And an app that may no longer create databases has no rights on those that it
has created; destroying the app under whose prefix they lie drops them. -/
theorem destroy_drops_anothers : (∃ h, Runs.run hostingStep .empty
        [demoSetup "crm" "demo_crm" true, .create ⟨"demo", "crm"⟩ "demo_crm_extra",
          demoSetup "crm-extra" "demo_crm_extra" false,
          .destroy ⟨"demo", "crm-extra"⟩ "demo_crm_extra" none] = some h ∧ ¬Hosted h) ∧
    ∃ h, Runs.run hostingStep .empty
        [demoSetup "crm" "demo_crm" false, demoSetup "crm-extra" "demo_crm_extra" true,
          .create ⟨"demo", "crm-extra"⟩ "demo_crm_extra_x",
          demoSetup "crm-extra" "demo_crm_extra" false,
          .destroy ⟨"demo", "crm"⟩ "demo_crm" none] = some h ∧ ¬Hosted h :=
  ⟨⟨_, (Option.some_get (by decide +kernel)).symm, by decide +kernel⟩,
    ⟨_, (Option.some_get (by decide +kernel)).symm, by decide +kernel⟩⟩

end Gentian.Backup
