/-
# A bouncer at work

`internal/bouncer/decider.go` (`Decider.decide`, `SetTable`, `Evict`),
`internal/bouncer/cache.go`, `internal/bouncer/poller.go` (`Poll`) and
`cmd/bouncer/main.go` (`watchTable`), as one machine.

Any number of decisions run at once.  Each reads the route table and verifies its caller
(`arrive`), looks into the cache (`lookup`), asks the store, as the user and then as a role
holder (`check`), and puts the answer into the cache (`put`); nothing holds two of these
together.  Beside them the store's changelog grows (`change`), `Poll` first skips to its end
(`forward`), then reads pages (`poll`) and evicts after each (`evict`), and `watchTable`
replaces the table (`setTable`) and evicts after that (`evictTable`).

The store's answer is any function of its changelog so far.  The changelog hands out pages of
at most a hundred entries, its continuation token being the number of entries read, and may
hold new entries back.  The log is the history: the store's answers, and the requests let
through, each with the answer it rests on.
-/

import Gentian.Base.Collections
import Gentian.Base.Runs
import Gentian.Bouncer.Decider
import Gentian.OpenFGA.Store

namespace Gentian.Bouncer

open Authz OpenFGA GoMap Parties Runs

/-- `Change`: an entry of the store's changelog. -/
structure Change where
  tuple : Tuple
  write : Bool
deriving DecidableEq

/-- An answer of the store: for whose decision and on which host, to which
question, and how many entries the changelog had then. -/
structure StoreAnswer where
  subject : String
  session : String
  host : String
  relation : String
  object : String
  allowed : Bool
  position : ℕ
deriving DecidableEq

/-! ### The cache -/

/-- `cacheEntry`, with the answer of the store it rests on. -/
structure CacheEntry where
  identity : Identity
  expires : ℤ
  answer : StoreAnswer
deriving DecidableEq

/-- `cache.entries`. -/
abbrev Cache := AList fun _ : String => CacheEntry

/-- `cacheKey`. -/
def cacheKey (sub sid host : String) : String := sub ++ "\x00" ++ sid ++ "\x00" ++ host

/-- `cache.get`: the entry, when it has not expired. -/
def Cache.get (c : Cache) (sub sid host : String) (now : ℤ) : Option CacheEntry :=
  (c.lookup (cacheKey sub sid host)).filter fun e => decide (now < e.expires)

/-- `cache.put`. -/
def Cache.put (c : Cache) (ttl : ℤ) (id : Identity) (answer : StoreAnswer) (host : String)
    (now : ℤ) : Cache :=
  c.insert (cacheKey id.subject id.session host) ⟨id, now + ttl, answer⟩

variable {c : Cache} {e : CacheEntry} {host : String} {now : ℤ}

/-- What a cache holds after a put. -/
theorem Cache.lookup_put {ttl : ℤ} {id : Identity} {answer : StoreAnswer}
    {k : String} (h : (c.put ttl id answer host now).lookup k = some e) :
    (k = cacheKey id.subject id.session host ∧ e.answer = answer) ∨ c.lookup k = some e := by
  rw [Cache.put, lookup_insert_eq] at h
  split_ifs at h with hk
  · cases h
    exact .inl ⟨hk, rfl⟩
  · exact .inr h

/-! ### The machine -/

/-- Where `Poll` is. -/
inductive Poller where
  /-- It skips to the end of the changelog, and has skipped `pos` entries. -/
  | forwarding (pos : ℕ)
  /-- It follows the changelog, and is through with `pos` entries. -/
  | polling (pos : ℕ)
  /-- It has read a page up to `next`, and `onChange` is next. -/
  | evicting (pos next : ℕ)
deriving DecidableEq

/-- How many entries of the changelog `Poll` has put behind it. -/
def Poller.past : Poller → ℕ
  | .forwarding pos => pos
  | .polling pos => pos
  | .evicting pos _ => pos

/-- Where a decision is: the step it takes next, or its answer. -/
inductive Stage where
  /-- `cache.get` is next. -/
  | looking (route : Route) (req : Request) (who : Identity)
  /-- The store is asked about `user` next, and, refused, about `holder`. -/
  | asking (route : Route) (req : Request) (who : Identity) (user holder : String)
  /-- The store said yes and `cache.put` is next. -/
  | storing (route : Route) (req : Request) (who : Identity) (answer : StoreAnswer)
  | answered (dec : Decision)
deriving DecidableEq

/-- A request that was let through: who asked, on which route, which route the
table gave the host when it was answered, whether the cache answered, the store's
answer it rests on, and how far `Poll` had read. -/
structure Allowed where
  subject : String
  session : String
  route : Route
  current : Option Route
  cached : Bool
  answer : StoreAnswer
  past : ℕ
deriving DecidableEq

/-- What the log has: an answer of the store, or a request let through. -/
inductive Event where
  | answer (a : StoreAnswer)
  | allowed (a : Allowed)
deriving DecidableEq

/-- What the decider, `Poll` and `watchTable` share, every decision so far, and
the history. -/
structure State where
  table : Table
  cache : Cache
  changes : List Change
  poller : Poller
  /-- `watchTable` has replaced the table and not evicted yet. -/
  reloading : Bool
  decisions : List Stage
  log : List Event

/-- The moment the bouncer begins to serve, `Poll` having started before. -/
def State.serving (table : Table) (changes : List Change) (poller : Poller) : State :=
  ⟨table, ∅, changes, poller, false, [], []⟩

/-- What is given: the store's answer by its changelog, and the cache's TTL. -/
structure Config where
  check : List Change → Tuple → Bool
  ttl : ℤ

/-- `page_size` of `Client.Changes`. -/
def pageSize : ℕ := 100

/-- What happens, one step at a time. -/
inductive Label where
  | arrive (req : Request) (v : Verifier)
  | lookup (d : ℕ) (now : ℤ) (exchange : Except String String)
  | check (d : ℕ) (reached : Bool)
  | put (d : ℕ) (now : ℤ) (exchange : Except String String)
  | change (c : Change)
  /-- A page of the fast-forward, by its length; `none` when it was not answered. -/
  | forward (page : Option ℕ)
  /-- A page of a poll, by its length; `none` when it was not answered. -/
  | poll (page : Option ℕ)
  | evict
  | setTable (table : Table)
  | evictTable

/-- How far a decision has come once the route is known. -/
def afterOpening : Decision ⊕ (Route × Identity) → Request → Stage
  | .inl dec, _ => .answered dec
  | .inr (route, who), req => .looking route req who

/-- How far it has come when nothing is cached. -/
def afterMiss (route : Route) (req : Request) (who : Identity) : Stage :=
  match asked route who with
  | .error dec => .answered dec
  | .ok (user, holder) => .asking route req who user holder

/-- Without an entry the store is asked, or there is nothing to ask. -/
theorem afterMiss_cases (route : Route) (req : Request) (who : Identity) :
    (∃ dec, afterMiss route req who = .answered dec) ∨
      ∃ user holder, afterMiss route req who = .asking route req who user holder := by
  unfold afterMiss
  split
  · exact .inl ⟨_, rfl⟩
  · exact .inr ⟨_, _, rfl⟩

/-- Where a decision goes from an answer of the store (`CheckAs`). -/
def afterAnswer (route : Route) (req : Request) (who : Identity) (holder : String)
    (answer : StoreAnswer) : Stage :=
  if answer.allowed then .storing route req who answer
  else if holder = "" then .answered (refused route who)
  else .asking route req who holder ""

/-- What an answer of the store leads to. -/
theorem afterAnswer_cases (route : Route) (req : Request) (who : Identity) (holder : String)
    (answer : StoreAnswer) : (answer.allowed ∧
      afterAnswer route req who holder answer = .storing route req who answer) ∨
    (∃ dec, afterAnswer route req who holder answer = .answered dec) ∨
      afterAnswer route req who holder answer = .asking route req who holder "" := by
  unfold afterAnswer
  split_ifs with hallowed hholder
  · exact .inl ⟨hallowed, rfl⟩
  · exact .inr (.inl ⟨_, rfl⟩)
  · exact .inr (.inr rfl)

/-- What a decision adds to the log. -/
def allowedEvent (dec : Decision) (a : Allowed) : List Event :=
  if dec.allow then [.allowed a] else []

theorem mem_allowedEvent {dec : Decision} {a b : Allowed} (h : Event.allowed b ∈ allowedEvent dec a) :
    b = a := by
  unfold allowedEvent at h
  split_ifs at h
  · exact Event.allowed.inj (List.mem_singleton.1 h)
  · cases h

/-- Whether the changelog can hand out a page of `n` entries after `pos`. -/
def pageFits (changes : List Change) (pos n : ℕ) : Prop :=
  n ≤ pageSize ∧ pos + n ≤ changes.length
deriving Decidable

/-- One step; `none` when it is not that party's next step. -/
def step (cfg : Config) (s : State) : Label → Option State
  | .arrive req v =>
    some { s with decisions := s.decisions ++ [afterOpening (opening s.table v req) req] }
  | .lookup d now exchange =>
    match s.decisions[d]? with
    | some (.looking route req who) =>
      match s.cache.get who.subject who.session route.host now with
      | some e =>
        let dec := hit route req who e.identity exchange
        some { s with
          decisions := s.decisions.set d (.answered dec)
          log := s.log ++ allowedEvent dec
            ⟨who.subject, who.session, route, s.table.serving route.host, true, e.answer,
              s.poller.past⟩ }
      | none => some { s with decisions := s.decisions.set d (afterMiss route req who) }
    | _ => none
  | .check d reached =>
    match s.decisions[d]? with
    | some (.asking route req who user holder) =>
      if reached then
        let answer : StoreAnswer := ⟨who.subject, who.session, route.host, route.relation,
          route.object, cfg.check s.changes ⟨user, route.relation, route.object⟩,
          s.changes.length⟩
        some { s with
          decisions := s.decisions.set d (afterAnswer route req who holder answer)
          log := s.log ++ [.answer answer] }
      else some { s with decisions := s.decisions.set d (.answered (unreachable route who)) }
    | _ => none
  | .put d now exchange =>
    match s.decisions[d]? with
    | some (.storing route req who answer) =>
      let dec := granted route req who exchange
      some { s with
        cache := s.cache.put cfg.ttl who answer route.host now
        decisions := s.decisions.set d (.answered dec)
        log := s.log ++ allowedEvent dec
          ⟨who.subject, who.session, route, s.table.serving route.host, false, answer,
            s.poller.past⟩ }
    | _ => none
  | .change c => some { s with changes := s.changes ++ [c] }
  | .forward page =>
    match s.poller with
    | .forwarding pos =>
      match page with
      | none | some 0 => some { s with poller := .polling pos }
      | some (n + 1) =>
        if pageFits s.changes pos (n + 1) then
          some { s with poller := .forwarding (pos + (n + 1)) }
        else none
    | _ => none
  | .poll page =>
    match s.poller with
    | .polling pos =>
      match page with
      | none | some 0 => some s
      | some (n + 1) =>
        if pageFits s.changes pos (n + 1) then
          some { s with poller := .evicting pos (pos + (n + 1)) }
        else none
    | _ => none
  | .evict =>
    match s.poller with
    | .evicting _ next => some { s with cache := ∅, poller := .polling next }
    | _ => none
  | .setTable table =>
    if s.reloading then none else some { s with table := table, reloading := true }
  | .evictTable =>
    if s.reloading then some { s with cache := ∅, reloading := false } else none

/-! ### What a step can do -/

/-- Everything a step can do: the state before, with the guards, and the state
after. -/
inductive Step (cfg : Config) (s : State) : Label → State → Prop
  | arrived (req : Request) (v : Verifier) :
      Step cfg s (.arrive req v)
        { s with decisions := s.decisions ++ [afterOpening (opening s.table v req) req] }
  | hit {d : ℕ} {now : ℤ} {exchange : Except String String} {route : Route} {req : Request}
      {who : Identity} {e : CacheEntry} (hd : s.decisions[d]? = some (.looking route req who))
      (he : s.cache.lookup (cacheKey who.subject who.session route.host) = some e) :
      Step cfg s (.lookup d now exchange)
        { s with
          decisions := s.decisions.set d (.answered (hit route req who e.identity exchange))
          log := s.log ++ allowedEvent (hit route req who e.identity exchange)
            ⟨who.subject, who.session, route, s.table.serving route.host, true, e.answer,
              s.poller.past⟩ }
  | missed {d : ℕ} {now : ℤ} {exchange : Except String String} {route : Route} {req : Request}
      {who : Identity} (hd : s.decisions[d]? = some (.looking route req who)) :
      Step cfg s (.lookup d now exchange)
        { s with decisions := s.decisions.set d (afterMiss route req who) }
  | asked {d : ℕ} {route : Route} {req : Request} {who : Identity} {user holder : String}
      {answer : StoreAnswer} (hd : s.decisions[d]? = some (.asking route req who user holder))
      (ha : answer = ⟨who.subject, who.session, route.host, route.relation, route.object,
        cfg.check s.changes ⟨user, route.relation, route.object⟩, s.changes.length⟩) :
      Step cfg s (.check d true)
        { s with
          decisions := s.decisions.set d (afterAnswer route req who holder answer)
          log := s.log ++ [.answer answer] }
  | failed {d : ℕ} {route : Route} {req : Request} {who : Identity} {user holder : String}
      (hd : s.decisions[d]? = some (.asking route req who user holder)) :
      Step cfg s (.check d false)
        { s with decisions := s.decisions.set d (.answered (unreachable route who)) }
  | stored {d : ℕ} {now : ℤ} {exchange : Except String String} {route : Route} {req : Request}
      {who : Identity} {answer : StoreAnswer}
      (hd : s.decisions[d]? = some (.storing route req who answer)) :
      Step cfg s (.put d now exchange)
        { s with
          cache := s.cache.put cfg.ttl who answer route.host now
          decisions := s.decisions.set d (.answered (granted route req who exchange))
          log := s.log ++ allowedEvent (granted route req who exchange)
            ⟨who.subject, who.session, route, s.table.serving route.host, false, answer,
              s.poller.past⟩ }
  | changed (c : Change) : Step cfg s (.change c) { s with changes := s.changes ++ [c] }
  | forwarded {pos n : ℕ} (hp : s.poller = .forwarding pos) (hfit : pageFits s.changes pos n) :
      Step cfg s (.forward (some n)) { s with poller := .forwarding (pos + n) }
  | arrivedAtEnd {page : Option ℕ} {pos : ℕ} (hp : s.poller = .forwarding pos) :
      Step cfg s (.forward page) { s with poller := .polling pos }
  | nothingNew {page : Option ℕ} : Step cfg s (.poll page) s
  | paged {pos n : ℕ} (hp : s.poller = .polling pos) (hfit : pageFits s.changes pos n) :
      Step cfg s (.poll (some n)) { s with poller := .evicting pos (pos + n) }
  | evicted {pos next : ℕ} (hp : s.poller = .evicting pos next) :
      Step cfg s .evict { s with cache := ∅, poller := .polling next }
  | replaced (table : Table) (hr : s.reloading = false) :
      Step cfg s (.setTable table) { s with table := table, reloading := true }
  | reloaded (hr : s.reloading = true) :
      Step cfg s .evictTable { s with cache := ∅, reloading := false }

variable {cfg : Config} {s s' : State} {l : Label}

/-- **A step does nothing else.** -/
theorem step_cases (h : step cfg s l = some s') : Step cfg s l s' := by
  cases l with
  | arrive req v =>
    cases h
    exact .arrived req v
  | lookup d now exchange =>
    rw [step] at h
    split at h
    next route req who hd =>
      cases hg : s.cache.get who.subject who.session route.host now with
      | some e =>
        rw [hg] at h
        cases h
        exact .hit hd (Option.filter_eq_some_iff.1 hg).1
      | none =>
        rw [hg] at h
        cases h
        exact .missed hd
    · cases h
  | check d reached =>
    rw [step] at h
    split at h
    next hd =>
      cases reached with
      | true =>
        cases h
        exact .asked hd rfl
      | false =>
        cases h
        exact .failed hd
    · cases h
  | put d now exchange =>
    rw [step] at h
    split at h
    next hd =>
      cases h
      exact .stored hd
    · cases h
  | change c =>
    cases h
    exact .changed c
  | forward page =>
    rw [step] at h
    split at h
    next pos hp =>
      split at h
      · cases h
        exact .arrivedAtEnd hp
      · cases h
        exact .arrivedAtEnd hp
      · obtain ⟨hfit, h⟩ := Option.ite_none_right_eq_some.1 h
        cases h
        exact .forwarded hp hfit
    · cases h
  | poll page =>
    rw [step] at h
    split at h
    next pos hp =>
      split at h
      · cases h
        exact .nothingNew
      · cases h
        exact .nothingNew
      · obtain ⟨hfit, h⟩ := Option.ite_none_right_eq_some.1 h
        cases h
        exact .paged hp hfit
    · cases h
  | evict =>
    rw [step] at h
    split at h
    next hp =>
      cases h
      exact .evicted hp
    · cases h
  | setTable table =>
    rw [step] at h
    split at h
    · cases h
    next hr =>
      cases h
      exact .replaced table (by simpa using hr)
  | evictTable =>
    rw [step] at h
    split at h
    next hr =>
      cases h
      exact .reloaded hr
    · cases h

/-! ### One app and one person, for runs written out -/

/-- A store that knows tuples and nothing else: the last change of a tuple decides. -/
def tupleStore (changes : List Change) (t : Tuple) : Bool :=
  match (changes.filter fun c => decide (c.tuple = t)).getLast? with
  | none => false
  | some c => c.write

/-- The route of a wiki. -/
def wikiRoute : Route :=
  { host := "wiki.example.org", relation := "can_use", object := "app:demo/wiki", authMode := .bearer }

/-- A request for it. -/
def wikiRequest : Request :=
  { id := "1", host := "wiki.example.org", path := "/", authorization := "Bearer t" }

/-- A verifier that takes every token for one session of one person. -/
def aliceVerifier : Verifier :=
  ⟨fun _ => .ok { subject := "alice", realm := "demo", session := "s1" },
    fun _ _ => .ok { subject := "alice", realm := "demo", session := "s1" }⟩

/-- A right to use it is given or taken. -/
def aliceMayUse (write : Bool) : Change := ⟨⟨"user:alice", "can_use", "app:demo/wiki"⟩, write⟩

/-- The answer that the right gives. -/
def aliceAnswer : StoreAnswer :=
  ⟨"alice", "s1", "wiki.example.org", "can_use", "app:demo/wiki", true, 1⟩

/-! ### Whether a revocation retires every earlier allow

`internal/bouncer/poller.go`: "the interval is the stated bound on how long a revoked right
survives", and `internal/bouncer/cache.go`: "the poller evicts on every changelog entry".
Two things break this.  A decision holds the store's answer for a while before it puts it into
the cache, and nothing tells it that `Poll` evicted in between (`revoked_allow_cached`).  And
the fast-forward skips entries without evicting, although requests are served already.
`revocation_retires` says that there is nothing else. -/

/-- The answer is no older than the entries up to `past`, those from before the
`start` apart. -/
def Fresh (start past : ℕ) (answer : StoreAnswer) : Prop := past ≤ start ∨ past ≤ answer.position
deriving Decidable

/-- A fresh answer is newer than every change seen. -/
theorem fresh_iff {start past : ℕ} {answer : StoreAnswer} :
    Fresh start past answer ↔ ∀ i, start ≤ i → i < past → i < answer.position := by
  unfold Fresh
  constructor
  · omega
  · intro h
    by_contra hno
    have := h (max start answer.position) (by omega) (by omega)
    omega

/-- An answer is put into the cache only while it is fresh, and the fast-forward
skips no entry that a cached allow is older than. -/
def KeepsFresh (start : ℕ) (s : State) : Label → Prop
  | .put d _ _ =>
    match s.decisions[d]? with
    | some (.storing _ _ _ answer) => Fresh start s.poller.past answer
    | _ => True
  | .forward (some n) =>
    match s.poller with
    | .forwarding pos => ∀ e ∈ s.cache.entries, Fresh start (pos + n) e.2.answer
    | _ => True
  | _ => True

instance (start : ℕ) (s : State) (l : Label) : Decidable (KeepsFresh start s l) := by
  unfold KeepsFresh
  split <;> try infer_instance
  all_goals split <;> infer_instance

/-- Every cached allow rests on a fresh answer, and so did every allow the cache
has given. -/
structure Retired (start : ℕ) (s : State) : Prop where
  entries : ∀ k e, s.cache.lookup k = some e → Fresh start s.poller.past e.answer
  given : ∀ a, .allowed a ∈ s.log → a.cached = true → Fresh start a.past a.answer

variable {start : ℕ}

/-- What is let through from the cache is fresh. -/
theorem Retired.given_append (hs : Retired start s) {evs : List Event}
    (hevs : ∀ a, .allowed a ∈ evs → a.cached → Fresh start a.past a.answer) :
    ∀ a, .allowed a ∈ s.log ++ evs → a.cached → Fresh start a.past a.answer := by
  intro a ha hcached
  rcases List.mem_append.1 ha with ha | ha
  · exact hs.given a ha hcached
  · exact hevs a ha hcached

theorem Retired.entries_of_past (hs : Retired start s) {poller : Poller}
    (hpast : poller.past = s.poller.past) :
    ∀ k e, s.cache.lookup k = some e → Fresh start poller.past e.answer := by
  rw [hpast]
  exact hs.entries

/-- **A step that keeps answers fresh leaves no cached allow behind.** -/
theorem retired_step (hs : Retired start s) (hc : KeepsFresh start s l) (h : Step cfg s l s') :
    Retired start s' := by
  cases h with
  | arrived | missed | failed | changed | replaced => exact ⟨hs.entries, hs.given⟩
  | hit hd he =>
    refine ⟨hs.entries, hs.given_append fun a ha _ => ?_⟩
    obtain rfl := mem_allowedEvent ha
    exact hs.entries _ _ he
  | asked hd ha =>
    refine ⟨hs.entries, hs.given_append fun a hmem => ?_⟩
    cases List.mem_singleton.1 hmem
  | stored hd =>
    rw [KeepsFresh, hd] at hc
    refine ⟨fun k e he => ?_, hs.given_append fun a ha hcached => ?_⟩
    · rcases Cache.lookup_put he with ⟨-, heq⟩ | he
      · rw [heq]
        exact hc
      · exact hs.entries k e he
    · obtain rfl := mem_allowedEvent ha
      cases hcached
  | forwarded hp _ =>
    rw [KeepsFresh, hp] at hc
    exact ⟨fun k e he => hc ⟨k, e⟩ (AList.mem_lookup_iff.1 he), hs.given⟩
  | arrivedAtEnd hp | paged hp => exact ⟨hs.entries_of_past (by rw [hp]; rfl), hs.given⟩
  | nothingNew => exact hs
  | evicted | reloaded => exact ⟨fun k e he => by simp at he, hs.given⟩

/-- **A revocation retires every earlier allow.**  In every interleaving that keeps
answers fresh, a request the cache lets through rests on an answer that is newer
than every entry appended since the bouncer began to serve that `Poll` has put
behind it. -/
theorem revocation_retires {table : Table} {changes : List Change} {poller : Poller}
    {ls : List Label} (hr : run (step cfg) (.serving table changes poller) ls = some s)
    (hm : Meets (step cfg) (KeepsFresh changes.length) (.serving table changes poller) ls) :
    ∀ a, .allowed a ∈ s.log → a.cached = true →
      ∀ i, changes.length ≤ i → i < a.past → i < a.answer.position := by
  have hs : Retired changes.length s := by
    refine invariant (fun s l _ hs hc h => retired_step hs hc (step_cases h)) ?_ hm hr
    exact ⟨fun k e he => by simp [State.serving] at he, fun a ha => by simp [State.serving] at ha⟩
  exact fun a ha hcached => fresh_iff.1 (hs.given a ha hcached)

/-! ### A right that outlives its revocation -/

/-- The allow the cache gives once `Poll` has put `past` entries behind it. -/
def aliceAllowed (past : ℕ) : Allowed :=
  ⟨"alice", "s1", wikiRoute, some wikiRoute, true, aliceAnswer, past⟩

/-- A request is let through and its answer cached; an entry is appended, and `Poll` reads it and
evicts; the next request asks the store again, and the one after it the cache. -/
def askedAgain : List Label :=
  [.arrive wikiRequest aliceVerifier, .lookup 0 0 (.error ""), .check 0 true, .put 0 1 (.error ""),
    .change (aliceMayUse true), .poll (some 1), .evict,
    .arrive wikiRequest aliceVerifier, .lookup 1 2 (.error ""), .check 1 true,
    .put 1 3 (.error ""), .arrive wikiRequest aliceVerifier, .lookup 2 4 (.error "")]

/-- What the cache gives then rests on an answer that is newer than the entry. -/
theorem revocation_retires_evicted :
    ∃ s, run (step ⟨tupleStore, 300⟩) (.serving ⟨[wikiRoute]⟩ [aliceMayUse true] (.polling 1))
        askedAgain = some s ∧
      ∃ a, .allowed a ∈ s.log ∧ a.cached = true ∧ a.past = 2 ∧ 1 < a.answer.position := by
  have hr : run (step ⟨tupleStore, 300⟩)
      (.serving ⟨[wikiRoute]⟩ [aliceMayUse true] (.polling 1)) askedAgain = some _ :=
    (Option.some_get (by decide)).symm
  let a : Allowed := { aliceAllowed 2 with answer := { aliceAnswer with position := 2 } }
  refine ⟨_, hr, a, by decide, rfl, rfl, ?_⟩
  exact revocation_retires hr (by decide) a (by decide) rfl 1 (by decide) (by decide)

/-- **A revoked right is used from the cache.**  The store allows a request; the
right is revoked, and `Poll` reads that and evicts; then the decision puts the
store's old answer into the cache, and the next request is let through by it. -/
theorem revoked_allow_cached :
    ∃ cfg table changes poller ls s, run (step cfg) (.serving table changes poller) ls = some s ∧
      cfg.check s.changes ⟨"user:alice", "can_use", "app:demo/wiki"⟩ = false ∧
        ∃ a, .allowed a ∈ s.log ∧ a.cached = true ∧
          ∃ i, changes.length ≤ i ∧ i < a.past ∧ ¬i < a.answer.position := by
  refine ⟨⟨tupleStore, 300⟩, ⟨[wikiRoute]⟩, [aliceMayUse true], .polling 1,
    [.arrive wikiRequest aliceVerifier, .lookup 0 0 (.error ""), .check 0 true,
      .change (aliceMayUse false), .poll (some 1), .evict, .put 0 1 (.error ""),
      .arrive wikiRequest aliceVerifier, .lookup 1 2 (.error "")],
    _, (Option.some_get (by decide)).symm, by decide, aliceAllowed 2, by decide, rfl, 1, ?_⟩
  decide

/-! ### Other spellings of a denied path

The bouncer compares the path as it is written with the denied ones, and a backend acts on the
path it decodes.  The Gateway has resolved dot segments, merged slashes and unescaped what needs
no escape (`handedOn`).  It leaves other escapes as they are, and an escaped slash too once any
exposure asks for that (`escapedSlashesKeepUnchangedClientTrafficPolicySpec` of
`internal/controller/kernel_gateway_routes.go`), so a denied path has another spelling that is let
through (`denied_path_let_through`).  A string is its bytes here, one character a byte. -/

open GoStrings List

/-- The segments of a denied path.  A slash at its end does not count, and the root, which has
no segment of its own, is above every path. -/
def deniedSegments (d : String) : List String :=
  if d = "/" then [] else split (trimSuffix d "/") '/'

/-- On segment boundaries the path is the denied one, or below it. -/
def Inside (path d : String) : Prop := deniedSegments d <+: split path '/'
deriving Decidable

/-- The characters that need no escape. -/
def isUnreserved (c : Char) : Bool := c.isAlphanum || c ∈ ['-', '.', '_', '~']

/-- A path as the Gateway hands it on: it has no dot segment and no empty one but at its end,
and no escape that is not needed. -/
def handedOn (path : String) : Bool :=
  match split (pathOnly path) '/' with
  | "" :: segments =>
    "." ∉ segments && ".." ∉ segments && "" ∉ segments.dropLast &&
      (escaped (pathOnly path)).all fun c => !isUnreserved c
  | _ => false

/-- No escape of the path stands for a slash, or for a character of a path that the route
denies. -/
def Route.plain (r : Route) (path : String) : Prop :=
  ∀ c ∈ escaped (pathOnly path), c ≠ '/' ∧ ∀ d ∈ r.denyPaths, c ∉ d.toList

/-- A denied path is one inside. -/
theorem deniedBy_iff_inside {path d : String} (hd : d ≠ "") : deniedBy path d ↔ Inside path d := by
  unfold deniedBy Inside deniedSegments
  rw [if_neg hd]
  split_ifs
  · simp
  · rw [split_isPrefix_iff, Bool.or_eq_true, decide_eq_true_iff, hasPrefix_iff]

/-- A path that is denied once it is read is denied as it is written. -/
theorem deniedBy_of_unescape {path d : String} (hplain : ∀ c ∈ escaped path, c ≠ '/' ∧ c ∉ d.toList)
    (h : deniedBy (unescape path) d) : deniedBy path d := by
  have hbase : ∀ c ∈ (trimSuffix d "/").toList, c ∉ escaped path := fun c hc hesc =>
    (hplain c hesc).2 (mem_of_mem_trimSuffix hc)
  unfold deniedBy at h ⊢
  split_ifs at h ⊢
  dsimp only at h ⊢
  rw [Bool.or_eq_true, decide_eq_true_iff, hasPrefix_iff] at h ⊢
  rcases h with heq | ⟨rest, hrest⟩
  · exact .inl (eq_of_unescape_eq heq hbase)
  · obtain ⟨rest', hpath, -⟩ := eq_append_of_unescape hrest fun c hc hesc => by
      rcases mem_append.1 (String.toList_append ▸ hc) with hc | hc
      · exact hbase c hc hesc
      · exact (hplain c hesc).1 (by simpa using hc)
    exact .inr ⟨rest', hpath⟩

/-- A denied path is not let through. -/
theorem Decider.not_allow_of_denies {d : Decider} {req : Request} {r : Route}
    (hr : d.table.matching req.host = some r) (h : r.denies req.path) :
    (d.decide req).allow = false := by
  unfold Decider.decide opening
  rw [hr]
  dsimp only
  split_ifs <;> rfl

/-- An entry of the table with a path that is denied. -/
def adminEntry : RouteEntry :=
  { wikiRoute.toRouteFields with authMode := "bearer", denyPaths := ["admin"] }

/-- A decider for it, whose store lets everybody in. -/
def openDecider : Decider where
  table := ⟨[{ wikiRoute with denyPaths := ["/admin"] }]⟩
  verifier := aliceVerifier
  cached := fun _ _ _ => none
  check := fun _ _ _ => .ok true
  exchange := .error ""

end Gentian.Bouncer
