/-
# Whether an allow answers the route's own question

`internal/bouncer/cache.go` keeps an allow by (subject, session, host), and
`internal/bouncer/decider.go` asks the store the relation and the object that the route gives
the host.  When the table gives a host another question, an allow to the old one must not open
the new one.

`cmd/bouncer/main.go` (`watchTable`) evicts after it has replaced the table, and that is not
enough: a decision that asked under the old table puts its answer into the cache after the
eviction (`old_answer_opens_new_route`).

`allow_answers_route` says that a table may be replaced while no decision is under way, if it is
evicted for before the next one goes on: then the eviction takes every answer to an old question
with it.  `Coherent` is the invariant: outside of a replacement all questions still in use for one
host are one question, and the table's; inside of one no decision is under way.
-/

import Gentian.Bouncer.Serving

namespace Gentian.Bouncer

open GoStrings OpenFGA GoMap Parties Runs List

/-- What the store is asked about a user. -/
structure Question where
  host : String
  relation : String
  object : String
deriving DecidableEq

/-- The question of a route. -/
def Route.question (r : Route) : Question := ⟨r.host, r.relation, r.object⟩

/-- The question an answer is to. -/
def StoreAnswer.question (a : StoreAnswer) : Question := ⟨a.host, a.relation, a.object⟩

/-- The question that a decision under way is about. -/
def Stage.question : Stage → Option Question
  | .looking route _ _ => some route.question
  | .asking route _ _ _ _ => some route.question
  | .storing route _ _ _ => some route.question
  | .answered _ => none

/-- The questions in use: those of the cached allows and of the decisions under
way. -/
def State.questions (s : State) : List Question :=
  s.cache.entries.map (fun e => e.2.answer.question) ++ s.decisions.filterMap Stage.question

/-- A text without the character that separates the parts of a key. -/
def Plain (text : String) : Prop := '\x00' ∉ text.toList

instance (text : String) : Decidable (Plain text) := by
  unfold Plain
  infer_instance

/-- An identity whose parts can be told apart in a cache key. -/
def Identity.Plain (id : Identity) : Prop := Bouncer.Plain id.subject ∧ Bouncer.Plain id.session

/-- A verifier whose identities are plain. -/
structure Verifier.Plain (v : Verifier) : Prop where
  access : ∀ token id, v.verify token = .ok id → id.Plain
  idToken : ∀ token audience id, v.verifyIDToken token audience = .ok id → id.Plain

/-- A request that arrives has a plain verifier. -/
def Label.Plain : Label → Prop
  | .arrive _ v => v.Plain
  | _ => True

/-- The table is replaced only while no decision is under way, and no decision takes a step
between that and the eviction that follows it. -/
def ReloadsApart (s : State) : Label → Prop
  | .setTable _ => ∀ st ∈ s.decisions, st.question = none
  | .arrive _ _ | .lookup _ _ _ | .check _ _ | .put _ _ _ => s.reloading = false
  | _ => True

instance (s : State) : (l : Label) → Decidable (ReloadsApart s l)
  | .setTable _ => inferInstanceAs (Decidable (∀ st ∈ s.decisions, st.question = none))
  | .arrive _ _ | .lookup _ _ _ | .check _ _ | .put _ _ _ =>
    inferInstanceAs (Decidable (s.reloading = false))
  | .change _ | .forward _ | .poll _ | .evict | .evictTable => .isTrue trivial

/-- An answer that says yes to the session `who` on the route, and is in the
log. -/
structure Grants (log : List Event) (route : Route) (subject session : String)
    (answer : StoreAnswer) : Prop where
  logged : .answer answer ∈ log
  allowed : answer.allowed = true
  subject : answer.subject = subject
  session : answer.session = session
  question : answer.question = route.question

/-- The names of a decision under way are plain, and an answer it holds is to its
own question. -/
def Stage.Sound (log : List Event) : Stage → Prop
  | .looking _ _ who => who.Plain
  | .asking _ _ who _ _ => who.Plain
  | .storing route _ who answer =>
    who.Plain ∧ Grants log route who.subject who.session answer
  | .answered _ => True

/-- A cached allow is under the key of the answer it rests on. -/
structure CacheEntry.Sound (log : List Event) (k : String) (e : CacheEntry) : Prop where
  key : k = cacheKey e.answer.subject e.answer.session e.answer.host
  plain : Plain e.answer.subject ∧ Plain e.answer.session
  logged : .answer e.answer ∈ log
  allowed : e.answer.allowed = true

/-- An allow rests on an answer of the store that came before it, to the question
of its route and of the table in force. -/
def Allowed.Rests (log : List Event) (a : Allowed) : Prop :=
  Grants log a.route a.subject a.session a.answer ∧ ∀ r ∈ a.current, r.question = a.answer.question

/-- The invariant: answers in use are in the log, and are to the table's questions. -/
structure Coherent (s : State) : Prop where
  entries : ∀ k e, s.cache.lookup k = some e → e.Sound s.log k
  stages : ∀ st ∈ s.decisions, st.Sound s.log
  rests : ∀ l₁ a l₂, s.log = l₁ ++ .allowed a :: l₂ → a.Rests l₁
  /-- the table's question for the host of a question in use is that question -/
  table : s.reloading = false → ∀ q ∈ s.questions, ∀ r ∈ s.table.serving q.host, r.question = q
  agree : s.reloading = false → ∀ q ∈ s.questions, ∀ q' ∈ s.questions, q.host = q'.host → q = q'
  idle : s.reloading = true → ∀ st ∈ s.decisions, st.question = none

/-! ### Keys -/

/-- A key names one user, one session and one host. -/
theorem cacheKey_inj {sub sub' sid sid' host host' : String} (hsub : Plain sub) (hsub' : Plain sub')
    (hsid : Plain sid) (hsid' : Plain sid') (h : cacheKey sub sid host = cacheKey sub' sid' host') :
    sub = sub' ∧ sid = sid' ∧ host = host' := by
  unfold cacheKey at h
  simp only [String.append_assoc] at h
  obtain ⟨hs, h⟩ := append_inj rfl hsub hsub' h
  exact ⟨hs, append_inj rfl hsid hsid' h⟩

variable {route : Route} {who : Identity}

variable {q : Question} {req : Request}

/-- A session of a plain verifier is plain. -/
theorem plain_of_session {v : Verifier}
    (hv : v.Plain) (h : session v route req = .ok who) : who.Plain := by
  unfold session at h
  split_ifs at h
  · split at h
    · cases h
    next hid =>
      cases h
      exact hv.idToken _ _ _ hid
  · split at h
    · cases h
    next hid =>
      cases h
      exact hv.access _ _ hid

/-! ### What grows with the log -/

variable {log log' : List Event}

theorem Grants.mono {subject session : String}
    {answer : StoreAnswer} (h : Grants log route subject session answer) (hle : log ⊆ log') :
    Grants log' route subject session answer :=
  ⟨hle h.logged, h.allowed, h.subject, h.session, h.question⟩

variable {st : Stage}

theorem Stage.Sound.mono (h : st.Sound log) (hle : log ⊆ log') : st.Sound log' := by
  cases st with
  | looking route req who => exact h
  | asking route req who _ _ => exact h
  | storing route req who _ => exact ⟨h.1, h.2.mono hle⟩
  | answered _ => trivial

variable {e : CacheEntry}

theorem CacheEntry.Sound.mono {k : String}
    (h : e.Sound log k) (hle : log ⊆ log') : e.Sound log' k :=
  ⟨h.key, h.plain, hle h.logged, h.allowed⟩

theorem Allowed.Rests.mono {a : Allowed} (h : a.Rests log) (hle : log ⊆ log') : a.Rests log' :=
  ⟨h.1.mono hle, h.2⟩

variable {evs : List Event}

/-- What is let through rests on what was in the log before. -/
theorem rests_append (h : ∀ l1 a l2, log = l1 ++ .allowed a :: l2 → a.Rests l1)
    (hevs : ∀ a, .allowed a ∈ evs → a.Rests log) :
    ∀ l1 a l2, log ++ evs = l1 ++ .allowed a :: l2 → a.Rests l1 := by
  intro l1 a l2 heq
  rcases append_eq_append_iff.1 heq with ⟨mid, rfl, hmid⟩ | ⟨mid, hlog, hmid⟩
  · refine (hevs a ?_).mono (subset_append_left _ _)
    rw [hmid]
    exact mem_append_right _ mem_cons_self
  · cases mid with
    | nil =>
      rw [append_nil] at hlog
      rw [nil_append] at hmid
      rw [← hlog]
      exact hevs a (hmid ▸ mem_cons_self)
    | cons _ mid =>
      obtain ⟨rfl, -⟩ := cons.inj hmid
      exact h l1 a mid hlog

/-- An answer that grants may be cached. -/
theorem sound_of_grants (hplain : who.Plain)
    (h : Grants log route who.subject who.session e.answer) :
    e.Sound log (cacheKey who.subject who.session route.host) := by
  have hhost : e.answer.host = route.host := congrArg Question.host h.question
  refine ⟨?_, ?_, h.logged, h.allowed⟩
  · rw [h.subject, h.session, hhost]
  · rwa [h.subject, h.session]

/-! ### The questions in use -/

variable {cfg : Config} {s s' : State} {l : Label}

/-- The questions in use. -/
theorem mem_questions :
    q ∈ s.questions ↔ (∃ k e, s.cache.lookup k = some e ∧ e.answer.question = q) ∨
      ∃ st ∈ s.decisions, st.question = some q := by
  rw [State.questions, mem_append, mem_filterMap, mem_map]
  refine or_congr_left ⟨?_, ?_⟩
  · rintro ⟨⟨k, e⟩, he, rfl⟩
    exact ⟨k, e, AList.mem_lookup_iff.2 he, rfl⟩
  · rintro ⟨k, e, he, rfl⟩
    exact ⟨⟨k, e⟩, AList.mem_lookup_iff.1 he, rfl⟩

/-- A question that is in use after a step was in use before it, or is the
table's. -/
def Inherited (s : State) (q : Question) : Prop :=
  q ∈ s.questions ∨ ∃ r, s.table.serving q.host = some r ∧ r.question = q

/-- The state after a step of a decision: the entries and stages it brings are sound, the
questions inherited, and the allows rest on the log before. -/
theorem Coherent.next (hs : Coherent s) (hfree : s.reloading = false)
    (hsame : s'.reloading = s.reloading) (htable : s'.table = s.table)
    (hlog : s'.log = s.log ++ evs) (hevs : ∀ a, .allowed a ∈ evs → a.Rests s.log)
    (hentries : ∀ k e, s'.cache.lookup k = some e →
      s.cache.lookup k = some e ∨ e.Sound s'.log k ∧ Inherited s e.answer.question)
    (hstages : ∀ st ∈ s'.decisions,
      st ∈ s.decisions ∨ st.Sound s'.log ∧ ∀ q, st.question = some q → Inherited s q) :
    Coherent s' := by
  have hle : s.log ⊆ s'.log := hlog ▸ subset_append_left _ _
  have hinh : ∀ q ∈ s'.questions, Inherited s q := by
    intro q hq
    rcases mem_questions.1 hq with ⟨k, e, he, rfl⟩ | ⟨st, hst, hq⟩
    · rcases hentries k e he with he | ⟨-, hi⟩
      · exact .inl (mem_questions.2 (.inl ⟨k, e, he, rfl⟩))
      · exact hi
    · rcases hstages st hst with hst | ⟨-, hi⟩
      · exact .inl (mem_questions.2 (.inr ⟨st, hst, hq⟩))
      · exact hi q hq
  -- the table's question for the host of an inherited question is that question
  have htab : ∀ q, Inherited s q → ∀ r ∈ s.table.serving q.host, r.question = q := by
    rintro q (hq | ⟨r', hr', hq⟩) r hr
    · exact hs.table hfree q hq r hr
    · rw [Option.mem_def.1 hr] at hr'
      rw [Option.some.inj hr', hq]
  refine ⟨fun k e he => ?_, fun st hst => ?_, ?_, fun _ q hq => ?_, fun _ q hq q' hq' hhost => ?_,
    fun hreloading => ?_⟩
  · rcases hentries k e he with he | ⟨hsound, -⟩
    · exact (hs.entries k e he).mono hle
    · exact hsound
  · rcases hstages st hst with hst | ⟨hsound, -⟩
    · exact (hs.stages st hst).mono hle
    · exact hsound
  · rw [hlog]
    exact rests_append hs.rests hevs
  · rw [htable]
    exact htab q (hinh q hq)
  · rcases hinh q hq with hold | ⟨r, hr, rfl⟩
    · rcases hinh q' hq' with hold' | ⟨r', hr', rfl⟩
      · exact hs.agree hfree q hold q' hold' hhost
      · rw [← hhost] at hr'
        exact (htab q (.inl hold) r' hr').symm
    · rw [hhost] at hr
      exact htab q' (hinh q' hq') r hr
  · rw [hsame, hfree] at hreloading
    cases hreloading

variable {d : ℕ}

theorem question_mem (hd : s.decisions[d]? = some st)
    (hq : st.question = some q) : q ∈ s.questions :=
  mem_questions.2 (.inr ⟨st, mem_of_getElem? hd, hq⟩)

/-- A decision that goes on keeps its question. -/
theorem inherited_of_stage {st' : Stage} (hd : s.decisions[d]? = some st)
    (hst : st'.question = st.question) : ∀ q, st'.question = some q → Inherited s q :=
  fun _ hq => .inl (question_mem hd (hst ▸ hq))

theorem inherited_of_answered (dec : Decision) :
    ∀ q, (Stage.answered dec).question = some q → Inherited s q := by
  intro q hq
  cases hq

/-- A decision goes on, and tells of it. -/
theorem Coherent.moved (hs : Coherent s) (hfree : s.reloading = false)
    (hevs : ∀ a, .allowed a ∈ evs → a.Rests s.log) (hsound : st.Sound (s.log ++ evs))
    (hq : ∀ q, st.question = some q → Inherited s q) :
    Coherent { s with decisions := s.decisions.set d st, log := s.log ++ evs } :=
  hs.next hfree rfl rfl rfl hevs (fun _ _ he => .inl he)
    (forall_mem_set (fun _ hst => .inl hst) (.inr ⟨hsound, hq⟩))

/-- A decision goes on, and tells of nothing. -/
theorem Coherent.moved_silently (hs : Coherent s) (hfree : s.reloading = false)
    (hsound : st.Sound s.log) (hq : ∀ q, st.question = some q → Inherited s q) :
    Coherent { s with decisions := s.decisions.set d st } := by
  refine hs.next hfree rfl rfl (append_nil _).symm (fun a ha => absurd ha not_mem_nil)
    (fun k e he => .inl he) (forall_mem_set (fun st hst => .inl hst) (.inr ⟨hsound, hq⟩))

/-- A step of the store or of `Poll`, which may evict. -/
theorem Coherent.rest (hs : Coherent s) {cache : Cache} (hcache : cache = s.cache ∨ cache = ∅)
    (changes : List Change) (poller : Poller) :
    Coherent ⟨s.table, cache, changes, poller, s.reloading, s.decisions, s.log⟩ := by
  have hlookup : ∀ k e, cache.lookup k = some e → s.cache.lookup k = some e := by
    intro k e he
    rcases hcache with rfl | rfl
    · exact he
    · simp at he
  have hquestions : ∀ q ∈ State.questions ⟨s.table, cache, changes, poller, s.reloading,
      s.decisions, s.log⟩, q ∈ s.questions := by
    intro q hq
    refine mem_questions.2 ((mem_questions.1 hq).imp_left ?_)
    rintro ⟨k, e, he, hq⟩
    exact ⟨k, e, hlookup k e he, hq⟩
  exact
    { entries := fun k e he => hs.entries k e (hlookup k e he)
      stages := hs.stages
      rests := hs.rests
      table := fun hr q hq => hs.table hr q (hquestions q hq)
      agree := fun hr q hq q' hq' => hs.agree hr q (hquestions q hq) q' (hquestions q' hq')
      idle := hs.idle }

/-- **The eviction that ends a replacement leaves no question in use.** -/
theorem Coherent.reloaded (hs : Coherent s) (hr : s.reloading = true) :
    Coherent { s with cache := ∅, reloading := false } := by
  have hnone : ∀ q, q ∉ State.questions { s with cache := ∅, reloading := false } := by
    intro q hq
    rcases mem_questions.1 hq with ⟨k, e, he, -⟩ | ⟨st, hst, hq⟩
    · simp at he
    · rw [hs.idle hr st hst] at hq
      cases hq
  exact
    { entries := fun k e he => by simp at he
      stages := hs.stages
      rests := hs.rests
      table := fun _ q hq => absurd hq (hnone q)
      agree := fun _ q hq => absurd hq (hnone q)
      idle := nofun }

/-- **A cached allow that answers is an answer to the route's question.** -/
theorem rests_of_hit (hs : Coherent s) (hfree : s.reloading = false)
    (hd : s.decisions[d]? = some (.looking route req who))
    (he : s.cache.lookup (cacheKey who.subject who.session route.host) = some e) (past : ℕ) :
    Allowed.Rests s.log
      ⟨who.subject, who.session, route, s.table.serving route.host, true, e.answer, past⟩ := by
  obtain ⟨hsub, hsid⟩ := hs.stages _ (mem_of_getElem? hd)
  obtain ⟨hkey, hplain, hlogged, hallowed⟩ := hs.entries _ e he
  obtain ⟨hsubject, hsession, hhost⟩ := cacheKey_inj hsub hplain.1 hsid hplain.2 hkey
  have hroute : route.question ∈ s.questions := question_mem hd rfl
  have hentry : e.answer.question ∈ s.questions := mem_questions.2 (.inl ⟨_, e, he, rfl⟩)
  have hquestion : e.answer.question = route.question :=
    hs.agree hfree _ hentry _ hroute hhost.symm
  refine ⟨⟨hlogged, hallowed, hsubject.symm, hsession.symm, hquestion⟩, fun r hr => ?_⟩
  rw [hquestion]
  exact hs.table hfree _ hroute r hr

/-- **Every step that keeps decisions and replacements apart keeps allows answers to their
questions.** -/
theorem coherent_step (hs : Coherent s) (hc : ReloadsApart s l) (hl : l.Plain)
    (h : Step cfg s l s') : Coherent s' := by
  cases h with
  | arrived req v =>
    refine hs.next hc rfl rfl (append_nil _).symm (fun a ha => absurd ha not_mem_nil)
      (fun k e he => .inl he) (forall_mem_concat (fun st hst => .inl hst) (.inr ?_))
    cases ho : opening s.table v req with
    | inl dec => exact ⟨trivial, inherited_of_answered _⟩
    | inr p =>
      obtain ⟨hmatch, hsession, -⟩ := matching_of_opening ho
      refine ⟨plain_of_session hl hsession, fun q hq => .inr ⟨p.1, ?_, Option.some.inj hq⟩⟩
      cases hq
      exact Table.serving_of_matching hmatch
  | hit hd he =>
    refine hs.moved hc (fun a ha => ?_) trivial (inherited_of_answered _)
    obtain rfl := mem_allowedEvent ha
    exact rests_of_hit hs hc hd he _
  | @missed d _ _ route req who hd =>
    have hplain := hs.stages _ (mem_of_getElem? hd)
    obtain ⟨dec, hst⟩ | ⟨user, holder, hst⟩ := afterMiss_cases route req who
    · rw [hst]
      exact hs.moved_silently hc trivial (inherited_of_answered _)
    · rw [hst]
      exact hs.moved_silently hc hplain (inherited_of_stage hd rfl)
  | @asked d route req who user holder answer hd ha =>
    have hplain := hs.stages _ (mem_of_getElem? hd)
    have hevs : ∀ a, Event.allowed a ∈ [Event.answer answer] → a.Rests s.log :=
      fun a hmem => by cases mem_singleton.1 hmem
    obtain ⟨hallowed, hst⟩ | ⟨dec, hst⟩ | hst := afterAnswer_cases route req who holder answer
    · rw [hst]
      refine hs.moved hc hevs ⟨hplain, ?_⟩ (inherited_of_stage hd rfl)
      subst ha
      exact ⟨by simp, hallowed, rfl, rfl, rfl⟩
    · rw [hst]
      exact hs.moved hc hevs trivial (inherited_of_answered _)
    · rw [hst]
      exact hs.moved hc hevs hplain (inherited_of_stage hd rfl)
  | failed hd => exact hs.moved_silently hc trivial (inherited_of_answered _)
  | @stored d _ _ route req who answer hd =>
    obtain ⟨hplain, hg⟩ := hs.stages _ (mem_of_getElem? hd)
    have hroute : route.question ∈ s.questions := question_mem hd rfl
    refine hs.next hc rfl rfl rfl (fun a ha => ?_) (fun k e he => ?_)
      (forall_mem_set (fun st hst => .inl hst) (.inr ⟨trivial, inherited_of_answered _⟩))
    · obtain rfl := mem_allowedEvent ha
      refine ⟨hg, fun r hr => ?_⟩
      rw [hg.question]
      exact hs.table hc _ hroute r hr
    · rcases Cache.lookup_put he with ⟨rfl, rfl⟩ | he
      · refine .inr ⟨?_, .inl (hg.question ▸ hroute)⟩
        exact sound_of_grants hplain (hg.mono (subset_append_left _ _))
      · exact .inl he
  | changed | forwarded | arrivedAtEnd | paged => exact hs.rest (.inl rfl) _ _
  | nothingNew => exact hs
  | evicted => exact hs.rest (.inr rfl) _ _
  | reloaded hr => exact hs.reloaded hr
  | replaced table hr => exact ⟨hs.entries, hs.stages, hs.rests, nofun, nofun, fun _ => hc⟩

/-- Nothing has been asked yet. -/
theorem coherent_serving (table : Table) (changes : List Change) (poller : Poller) :
    Coherent (.serving table changes poller) := by
  refine ⟨fun k e he => ?_, fun _ hst => absurd hst not_mem_nil, fun _ a _ h => ?_,
    fun _ _ hq => absurd hq not_mem_nil, fun _ _ hq => absurd hq not_mem_nil,
    fun _ _ hst => absurd hst not_mem_nil⟩
  · simp [State.serving] at he
  · simp [State.serving] at h

/-- **An allow is an answer to the route's own question.**  In every interleaving that keeps
decisions and replacements of the table apart, with plain verifiers, the store had said yes before
an allow, for the same subject and session, to the relation and object of the route that the
request matched, and these are what the table in force gives the host. -/
theorem allow_answers_route {table : Table} {changes : List Change} {poller : Poller}
    {ls : List Label} (hr : run (step cfg) (.serving table changes poller) ls = some s)
    (hm : Meets (step cfg) ReloadsApart (.serving table changes poller) ls)
    (hplain : ∀ l ∈ ls, l.Plain) : ∀ l₁ a l₂, s.log = l₁ ++ .allowed a :: l₂ →
      ∃ ans, .answer ans ∈ l₁ ∧ ans.allowed = true ∧ ans.subject = a.subject ∧
        ans.session = a.session ∧ ans.relation = a.route.relation ∧
        ans.object = a.route.object ∧
        ∀ r ∈ a.current, r.relation = ans.relation ∧ r.object = ans.object := by
  have hs : Coherent s :=
    invariant (fun s l _ hs hc h => coherent_step hs hc.1 hc.2 (step_cases h))
      (coherent_serving table changes poller) (hm.and (meets_of_forall hplain _)) hr
  intro l₁ a l₂ hlog
  obtain ⟨hg, hcurrent⟩ := hs.rests l₁ a l₂ hlog
  refine ⟨a.answer, hg.logged, hg.allowed, hg.subject, hg.session,
    congrArg Question.relation hg.question, congrArg Question.object hg.question, fun r hr => ?_⟩
  have hq := hcurrent r hr
  exact ⟨congrArg Question.relation hq, congrArg Question.object hq⟩

/-! ### A table replaced between two requests -/

/-- The same host, with another app behind it. -/
def vaultRoute : Route := { wikiRoute with object := "app:demo/vault" }

/-- A request is let through and its answer cached; the table gives the host another app and is
evicted for; the next request asks the store about that app, and the one after it the cache. -/
def vaultInstead : List Label :=
  [.arrive wikiRequest aliceVerifier, .lookup 0 0 (.error ""), .check 0 true, .put 0 1 (.error ""),
    .setTable ⟨[vaultRoute]⟩, .evictTable,
    .arrive wikiRequest aliceVerifier, .lookup 1 2 (.error ""), .check 1 true,
    .put 1 3 (.error ""), .arrive wikiRequest aliceVerifier, .lookup 2 4 (.error "")]

/-- The last request is let through by the cache, on an answer about the new app. -/
theorem allow_answers_route_reloaded :
    ∃ s, run (step ⟨tupleStore, 300⟩) (.serving ⟨[wikiRoute]⟩
        [aliceMayUse true, ⟨⟨"user:alice", "can_use", "app:demo/vault"⟩, true⟩] (.polling 2))
        vaultInstead = some s ∧
      ∃ l₁ a l₂, s.log = l₁ ++ .allowed a :: l₂ ∧ a.cached = true ∧ a.route = vaultRoute ∧
        ∃ ans, .answer ans ∈ l₁ ∧ ans.allowed = true ∧ ans.object = a.route.object := by
  have hr : run (step ⟨tupleStore, 300⟩) (.serving ⟨[wikiRoute]⟩
      [aliceMayUse true, ⟨⟨"user:alice", "can_use", "app:demo/vault"⟩, true⟩] (.polling 2))
      vaultInstead = some _ := (Option.some_get (by decide)).symm
  have hplain : aliceVerifier.Plain := by
    refine ⟨fun token id h => ?_, fun token _ id h => ?_⟩
    all_goals
      cases h
      exact ⟨by decide, by decide⟩
  have hlabels : ∀ l ∈ vaultInstead, l.Plain := by simp [vaultInstead, Label.Plain, hplain]
  obtain ⟨ans, hans, hallowed, -, -, -, hobject, -⟩ :=
    allow_answers_route hr (by decide) hlabels [_, _, _, _] _ [] rfl
  exact ⟨_, hr, [_, _, _, _], _, [], rfl, rfl, rfl, ans, hans, hallowed, hobject⟩

/-- **An allow to one app opens another.**  A decision asks the store about the
first app; the table gives the host another app, and `watchTable` evicts; then the
decision puts the answer into the cache, and the next request, matched to the new
route, is let through by it.  The store was never asked about the new app. -/
theorem old_answer_opens_new_route : ∃ cfg table changes poller ls s,
      (∀ t, t = table ∨ .setTable t ∈ ls → ∃ redirects es, parseTable redirects es = .ok t) ∧
      run (step cfg) (.serving table changes poller) ls = some s ∧
        ∃ l₁ a l₂, s.log = l₁ ++ .allowed a :: l₂ ∧ a.current = some a.route ∧
          ∀ ans, .answer ans ∈ s.log → ans.object ≠ a.route.object := by
  have hr : run (step ⟨tupleStore, 300⟩) (.serving ⟨[wikiRoute]⟩ [aliceMayUse true] (.polling 1))
        [.arrive wikiRequest aliceVerifier, .lookup 0 0 (.error ""), .check 0 true,
          .setTable ⟨[vaultRoute]⟩, .evictTable, .put 0 1 (.error ""),
          .arrive wikiRequest aliceVerifier, .lookup 1 2 (.error "")] = some _ :=
    (Option.some_get (by decide)).symm
  refine ⟨_, _, _, _, _, _, ?_, hr, [.answer aliceAnswer, _], _, [], rfl, rfl, ?_⟩
  · intro t ht
    have hcases : t = ⟨[wikiRoute]⟩ ∨ t = ⟨[vaultRoute]⟩ := by simpa using ht
    rcases hcases with rfl | rfl
    · exact ⟨fun _ => false, [{ wikiRoute.toRouteFields with authMode := "bearer" }], by decide⟩
    · exact ⟨fun _ => false, [{ vaultRoute.toRouteFields with authMode := "bearer" }], by decide⟩
  · intro ans hans
    have hlog : ans = aliceAnswer := by
      change Event.answer ans ∈ [Event.answer aliceAnswer, Event.allowed _, Event.allowed _] at hans
      simpa using hans
    subst hlog
    decide

end Gentian.Bouncer
