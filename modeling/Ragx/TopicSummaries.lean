import Ragx.EventRuns
import Ragx.GraphFiles
import Ragx.Topics

/-!
# What topic summaries are made of

A summary is kept under the names of its members alone, for every store of the process, until
the cache is cleared. What a build returns is what it would write now exactly if the first
topic with the same key was asked about in the same words.
-/
namespace Ragx

open AnswerTables

/-- One call of `build_topics`. -/
structure TopicBuild where
  store : GraphAttributes
  kbId : String
  newId : ℕ → String
  asksLlm : Bool

inductive TopicEvent where
  | build (call : TopicBuild)
  | invalidate

/-- A topic that a summary is looked up for. -/
structure TopicQuestion where
  members : List Entity
  asksLlm : Bool

def TopicQuestion.llm (q : TopicQuestion) (chat : TopicLlm) : Option TopicLlm :=
  if q.asksLlm then some chat else none

namespace TopicEnv

variable (env : TopicEnv)

def key (q : TopicQuestion) : String := env.cacheKey q.members

def answer (chat : TopicLlm) (q : TopicQuestion) : String := env.freshSummary (q.llm chat) q.members

def questions (call : TopicBuild) : List TopicQuestion :=
  (env.groups call.store).map fun group => ⟨group.members, call.asksLlm⟩

def run (chat : TopicLlm) (call : TopicBuild) (cache : SummaryCache) :
    SummaryCache × Except Exc (List TopicSummary) :=
  env.buildTopics (if call.asksLlm then some chat else none) call.kbId call.newId call.store cache

/-- The cache after a history of the process. -/
def cacheAfter (chat : TopicLlm) (history : List TopicEvent) : SummaryCache :=
  history.foldl (fun cache e =>
    match e with
    | .build call => (env.run chat call cache).1
    | .invalidate => .empty) .empty

/-- In every build that returns, the summaries are those of the members that the topics have
in the store of the build. -/
def SummariesCurrent (chat : TopicLlm) (history : List TopicEvent) : Prop :=
  ∀ before call after, history = before ++ .build call :: after →
    ∀ topics, (env.run chat call (env.cacheAfter chat before)).2 = .ok topics →
      topics.map (·.summary) = (env.questions call).map (env.answer chat)

/-! ## The condition -/

/-- Each group has a centroid, so that the build returns. -/
def Returns (call : TopicBuild) : Prop :=
  ∀ q ∈ env.questions call, (computeCentroid q.members).isOk = true

instance (call : TopicBuild) : Decidable (env.Returns call) := List.decidableBAll _ _

/-- What is asked up to the first group without a centroid. -/
def reached : List TopicQuestion → List TopicQuestion
  | [] => []
  | q :: qs => if (computeCentroid q.members).isOk then q :: reached qs else [q]

/-- What has been asked since the cache was last cleared. -/
def askedSince (history : List TopicEvent) : List TopicQuestion :=
  history.foldl (fun asked e =>
    match e with
    | .build call => asked ++ reached (env.questions call)
    | .invalidate => []) []

/-- Two topics that are asked about in the same words. -/
def SameWords (q q' : TopicQuestion) : Prop :=
  env.summaryText q.members = env.summaryText q'.members ∧ q.asksLlm = q'.asksLlm ∧
    (q.asksLlm = true → fallbackText q.members = fallbackText q'.members)

instance (q q' : TopicQuestion) : Decidable (env.SameWords q q') :=
  inferInstanceAs (Decidable (_ ∧ _ ∧ (_ → _)))

/-- In every build that returns, each topic is asked about like the first with its key. -/
def KeysIdentify (history : List TopicEvent) : Prop :=
  ∀ before call after, history = before ++ .build call :: after → env.Returns call →
    ∀ earlier q later, env.questions call = earlier ++ q :: later →
      env.SameWords (firstAlike env.key (env.askedSince before ++ earlier) q) q

/-! ## Words and answers -/

theorem ten_le_length_summaryText (members : List Entity) :
    10 ≤ (env.summaryText members).length := by
  have hentities : ("实体群: " : String).length = 5 := by decide
  have hdescriptions : ("\n描述: " : String).length = 5 := by decide
  rw [summaryText, String.length_append, String.length_append, String.length_append, hentities,
    hdescriptions]
  omega

theorem topicRequest_injective : Function.Injective topicRequest := by
  intro text text' h
  have hmessages := congrArg (fun r => r.messages.map (·.content)) h
  simpa [topicRequest] using hmessages

/-- Without a model the text that would be sent is the summary. -/
theorem freshSummary_none (members : List Entity) :
    env.freshSummary none members = env.summaryText members := by
  have hlong := env.ten_le_length_summaryText members
  simp only [freshSummary, Nat.not_lt.mpr hlong, if_false]

/-- A reply that is long enough is the summary. -/
theorem freshSummary_reply (chat : TopicLlm) (members : List Entity) (resp : ChatResponse)
    (h : chat (topicRequest (env.summaryText members)) = .ok resp) (hlong : 10 ≤ resp.text.length) :
    env.freshSummary (some chat) members = resp.text := by
  simp only [freshSummary, h, Nat.not_lt.mpr hlong, if_false]

theorem answer_of_sameWords (chat : TopicLlm) {q q' : TopicQuestion} (h : env.SameWords q q') :
    env.answer chat q = env.answer chat q' := by
  obtain ⟨members, asks⟩ := q
  obtain ⟨members', asks'⟩ := q'
  obtain ⟨htext, hasks, hfallback⟩ := h
  cases hasks
  cases asks with
  | false =>
    exact (env.freshSummary_none members).trans (htext.trans (env.freshSummary_none _).symm)
  | true => simp only [answer, TopicQuestion.llm, if_true, freshSummary, htext, hfallback rfl]

/-- A model can answer differently to a topic that is not asked about with a model. -/
theorem exists_answer_ne (members members' : List Entity) :
    ∃ chat, env.answer chat ⟨members, true⟩ ≠ env.answer chat ⟨members', false⟩ := by
  let longer : ChatResponse := { text := env.summaryText members' ++ "." }
  refine ⟨fun _ => .ok longer, fun h => ?_⟩
  have hlong : 10 ≤ longer.text.length :=
    (env.ten_le_length_summaryText members').trans (by simp [longer])
  have hreply := env.freshSummary_reply (fun _ => .ok longer) members longer rfl hlong
  have hsame : longer.text = env.summaryText members' :=
    hreply.symm.trans (h.trans (env.freshSummary_none members'))
  simpa [longer] using congrArg String.length hsame

/-- A model that knows one request from all others gives away in which words it is asked. -/
theorem summaryText_eq_of_answer_eq {members members' : List Entity}
    (h : ∀ chat, env.answer chat ⟨members, true⟩ = env.answer chat ⟨members', true⟩) :
    env.summaryText members = env.summaryText members' := by
  classical
  by_contra hne
  have hreq : topicRequest (env.summaryText members') ≠ topicRequest (env.summaryText members) :=
    fun he => hne (topicRequest_injective he).symm
  let chat : TopicLlm := fun req => .ok {
    text := if req = topicRequest (env.summaryText members) then "0000000000" else "1111111111" }
  have hown : env.answer chat ⟨members, true⟩ = "0000000000" :=
    env.freshSummary_reply chat members { text := "0000000000" } (by simp [chat]) (by decide)
  have hother : env.answer chat ⟨members', true⟩ = "1111111111" :=
    env.freshSummary_reply chat members' { text := "1111111111" } (by simp [chat, hreq]) (by decide)
  exact absurd (hown.symm.trans ((h chat).trans hother)) (by decide)

/-- The topics that every model answers alike are those asked about in the same words. -/
theorem forall_answer_eq_iff (q q' : TopicQuestion) :
    (∀ chat, env.answer chat q = env.answer chat q') ↔ env.SameWords q q' := by
  refine ⟨fun h => ?_, fun h chat => env.answer_of_sameWords chat h⟩
  obtain ⟨members, asks⟩ := q
  obtain ⟨members', asks'⟩ := q'
  cases asks <;> cases asks'
  · have htext := h fun _ => .ok { text := "" }
    exact ⟨(env.freshSummary_none members).symm.trans (htext.trans (env.freshSummary_none _)), rfl,
      fun hasks => absurd hasks Bool.false_ne_true⟩
  · obtain ⟨chat, hne⟩ := env.exists_answer_ne members' members
    exact absurd (h chat).symm hne
  · obtain ⟨chat, hne⟩ := env.exists_answer_ne members members'
    exact absurd (h chat) hne
  · exact ⟨env.summaryText_eq_of_answer_eq h, rfl, fun _ => h fun _ => .ok { text := "" }⟩

/-! ## The cache as a table of answers -/

theorem generateSummary_eq_ask (chat : TopicLlm) (q : TopicQuestion) (cache : SummaryCache) :
    env.generateSummary (q.llm chat) q.members cache = ask env.key (env.answer chat) cache q := by
  cases h : cache.get? (env.cacheKey q.members) <;>
    simp only [generateSummary, ask, key, answer, h]

/-- The loop asks up to the first group without a centroid. -/
theorem summarizeGroups_fst (chat : TopicLlm) (asks : Bool) (kbId : String) (newId : ℕ → String)
    (n : ℕ) (groups : List TopicGroup) (cache : SummaryCache) :
    (env.summarizeGroups (if asks then some chat else none) kbId newId n groups cache).1 =
      fillTable env.key (env.answer chat) cache
        (reached (groups.map fun group => ⟨group.members, asks⟩)) := by
  induction groups generalizing n cache with
  | nil => rfl
  | cons group groups ih =>
    have hask := env.generateSummary_eq_ask chat ⟨group.members, asks⟩ cache
    rw [TopicQuestion.llm] at hask
    rw [summarizeGroups, hask, List.map_cons, reached]
    cases hcentroid : computeCentroid group.members with
    | error e => rfl
    | ok centroid => exact ih (n + 1) _

/-- Without a group that has no centroid the loop returns the replies. -/
theorem summarizeGroups_snd (chat : TopicLlm) (asks : Bool) (kbId : String) (newId : ℕ → String)
    (n : ℕ) (groups : List TopicGroup) (cache : SummaryCache) :
    (env.summarizeGroups (if asks then some chat else none) kbId newId n groups
        cache).2.toOption.map (·.map (·.summary)) =
      if ∀ group ∈ groups, (computeCentroid group.members).isOk = true then
        some (replies env.key (env.answer chat) cache
          (groups.map fun group => ⟨group.members, asks⟩))
      else none := by
  induction groups generalizing n cache with
  | nil => rfl
  | cons group groups ih =>
    have hask := env.generateSummary_eq_ask chat ⟨group.members, asks⟩ cache
    rw [TopicQuestion.llm] at hask
    rw [summarizeGroups, hask, List.map_cons, replies]
    simp only [List.forall_mem_cons]
    cases hcentroid : computeCentroid group.members with
    | error e => exact (if_neg fun h => Bool.false_ne_true h.1).symm
    | ok centroid =>
      have hrest := ih (n + 1) (ask env.key (env.answer chat) cache ⟨group.members, asks⟩).1
      have hcons (topic : TopicSummary) (r : Except Exc (List TopicSummary)) :
          (r.map (topic :: ·)).toOption.map (·.map (·.summary)) =
            (r.toOption.map (·.map (·.summary))).map (topic.summary :: ·) := by
        cases r <;> rfl
      rw [hcons, hrest]
      have hok : (Except.ok centroid : Except Exc (List ℚ)).isOk = true := rfl
      by_cases hall : ∀ g ∈ groups, (computeCentroid g.members).isOk = true
      · rw [if_pos hall, if_pos ⟨hok, hall⟩]
        rfl
      · rw [if_neg hall, if_neg fun h => hall h.2]
        rfl

/-- The cache holds the answers to what was asked since it was cleared. -/
theorem cacheAfter_eq_fillTable (chat : TopicLlm) (history : List TopicEvent) :
    env.cacheAfter chat history =
      fillTable env.key (env.answer chat) .empty (env.askedSince history) := by
  induction history using List.reverseRecOn with
  | nil => rfl
  | append_singleton history e ih =>
    rw [cacheAfter, askedSince, List.foldl_append, List.foldl_append]
    cases e with
    | build call =>
      have hcall := env.summarizeGroups_fst chat call.asksLlm call.kbId call.newId 0
        (env.groups call.store) (env.cacheAfter chat history)
      refine hcall.trans ?_
      rw [ih]
      exact (fillTable_append _ _ _ _ _).symm
    | invalidate => rfl

/-- A build returns if every group has a centroid, and then the summaries are the replies. -/
theorem summaries_run (chat : TopicLlm) (call : TopicBuild) (cache : SummaryCache) :
    (env.run chat call cache).2.toOption.map (·.map (·.summary)) =
      if env.Returns call then some (replies env.key (env.answer chat) cache (env.questions call))
      else none := by
  refine (env.summarizeGroups_snd chat call.asksLlm call.kbId call.newId 0
    (env.groups call.store) cache).trans (if_congr ?_ rfl rfl)
  rw [Returns, questions, List.forall_mem_map]

/-- What one build returns is current exactly if each of its topics has the answer of the
first one with its key. -/
theorem current_iff (chat : TopicLlm) (call : TopicBuild) (asked : List TopicQuestion) :
    (∀ topics,
      (env.run chat call (fillTable env.key (env.answer chat) .empty asked)).2 = .ok topics →
      topics.map (·.summary) = (env.questions call).map (env.answer chat)) ↔
      (env.Returns call → ∀ earlier q later, env.questions call = earlier ++ q :: later →
        env.answer chat (firstAlike env.key (asked ++ earlier) q) = env.answer chat q) := by
  have hrun := env.summaries_run chat call (fillTable env.key (env.answer chat) .empty asked)
  rw [← replies_eq_map_iff]
  cases hresult : (env.run chat call (fillTable env.key (env.answer chat) .empty asked)).2 with
  | error e =>
    rw [hresult] at hrun
    have hfails : ¬ env.Returns call := fun h => by
      rw [if_pos h] at hrun
      cases hrun
    exact iff_of_true (fun topics h => nomatch h) fun h => absurd h hfails
  | ok topics =>
    rw [hresult] at hrun
    have hreturns : env.Returns call := by
      by_contra h
      rw [if_neg h] at hrun
      cases hrun
    rw [if_pos hreturns] at hrun
    have hsummaries := Option.some.inj hrun
    constructor
    · exact fun h _ => hsummaries.symm.trans (h topics rfl)
    · rintro h _ ⟨⟩
      exact hsummaries.trans (h hreturns)

/-- In a history every model's summaries are current exactly if each topic that a build returns
is asked about in the same words as the first one with its key since the cache was cleared. -/
theorem summariesCurrent_iff (history : List TopicEvent) :
    (∀ chat, env.SummariesCurrent chat history) ↔ env.KeysIdentify history := by
  have hcall (chat : TopicLlm) : env.SummariesCurrent chat history ↔
      ∀ before call after, history = before ++ .build call :: after → env.Returns call →
        ∀ earlier q later, env.questions call = earlier ++ q :: later →
          env.answer chat (firstAlike env.key (env.askedSince before ++ earlier) q) =
            env.answer chat q := by
    refine forall₃_congr fun before call after => forall_congr' fun _ => ?_
    rw [env.cacheAfter_eq_fillTable]
    exact env.current_iff chat call _
  constructor
  · intro h before call after hhistory hreturns earlier q later hq
    refine (env.forall_answer_eq_iff _ _).mp fun chat => ?_
    exact (hcall chat).mp (h chat) before call after hhistory hreturns earlier q later hq
  · intro h chat
    refine (hcall chat).mpr fun before call after hhistory hreturns earlier q later hq => ?_
    exact env.answer_of_sameWords chat (h before call after hhistory hreturns earlier q later hq)

end TopicEnv

/-! ## Two knowledge bases -/

def sampleTopicEnv : TopicEnv where
  sha256 := id
  isPrintable := fun _ => true
  setOrder := id
  greedyModularity := fun _ _ => none

/-- A build of a knowledge base of one company, without a model. -/
def companyBuild (kbId description : String) : TopicBuild where
  store := (NetworkXGraphStore.upsertEntities
    [{ entityId := "ent_1", kbId, name := "Apex", nameNorm := "apex", type := "ORG", description,
       sourceDocIds := ["doc_1"], confidence := 1 }]
    (NetworkXGraphStore.fresh kbId : PlainGraphStore)).1.attributes
  kbId := kbId
  newId := fun _ => "tpc_1"
  asksLlm := false

/-- The second knowledge base is given the description of the first. -/
theorem not_summariesCurrent_twoKbs :
    ¬∀ chat, sampleTopicEnv.SummariesCurrent chat
      [.build (companyBuild "kb_1" "makes drills"), .build (companyBuild "kb_2" "sells tea")] := by
  intro h
  have hcurrent := h (fun _ => .ok { text := "" }) [.build (companyBuild "kb_1" "makes drills")]
    (companyBuild "kb_2" "sells tea") [] rfl
  rw [sampleTopicEnv.cacheAfter_eq_fillTable] at hcurrent
  have hanswer := (sampleTopicEnv.current_iff _ _ _).mp hcurrent (by decide +kernel) [] _ [] rfl
  rw [TopicEnv.answer, TopicEnv.answer, TopicQuestion.llm, TopicQuestion.llm] at hanswer
  exact absurd hanswer (by decide +kernel)

/-! ## When topics are rebuilt

The trigger reads a count that the last build is to leave at the store, and no operation
writes it. A run therefore never rebuilds by itself, and keeps to the rule as long as nobody
asks when a rebuild is due. -/

inductive TopicCall where
  | write (write : GraphWrite)
  | invalidate
  | buildTopics (llm : Option TopicLlm) (kbId : String) (newId : ℕ → String)
  | maybeRebuildTopics (llm : Option TopicLlm) (kbId : String) (newId : ℕ → String) (manual : Bool)

/-- A store in its process. `lastBuilt` is how many entities the last build that returned
found; no code reads it. -/
structure TopicWorld where
  store : PlainGraphStore
  lastTopicBuildCount : Option ℕ := none
  cache : SummaryCache := .empty
  lastBuilt : Option ℕ := none

namespace TopicWorld

def attributes (w : TopicWorld) : GraphAttributes :=
  { w.store.attributes with lastTopicBuildCount := w.lastTopicBuildCount }

def entityCount (w : TopicWorld) : ℕ := w.store.entities.values.length

/-- What a build leaves, whether it returns or not. -/
def built (w : TopicWorld) (done : SummaryCache × Except Exc (List TopicSummary)) : TopicWorld :=
  { w with
    cache := done.1
    lastBuilt := if done.2.isOk then some w.entityCount else w.lastBuilt }

variable (env : TopicEnv)

def step (w : TopicWorld) : TopicCall → Option TopicWorld
  | .write write => some { w with store := (write.run w.store).1 }
  | .invalidate => some { w with cache := .empty }
  | .buildTopics llm kbId newId =>
    some (w.built (env.buildTopics llm kbId newId w.attributes w.cache))
  | .maybeRebuildTopics llm kbId newId manual =>
    let done := env.maybeRebuildTopics llm kbId newId manual w.attributes w.cache
    match done.2 with
    | none => some { w with cache := done.1 }
    | some topics => some (w.built (done.1, topics))

/-- There are more than 20 percent more entities than at the last build that returned. -/
def Due (w : TopicWorld) : Prop :=
  ∃ n ∈ w.lastBuilt, (1 / 5 : ℚ) * n < (w.entityCount : ℚ) - n

instance (w : TopicWorld) : Decidable w.Due := inferInstanceAs (Decidable (∃ n ∈ _, _))

/-- An automatic call rebuilds exactly if a rebuild is due. -/
def RebuildsWhenDue (w : TopicWorld) (call : TopicCall) (_ : TopicWorld) : Prop :=
  match call with
  | .maybeRebuildTopics llm kbId newId false =>
    (env.maybeRebuildTopics llm kbId newId false w.attributes w.cache).2.isSome = true ↔ w.Due
  | _ => True

instance (w : TopicWorld) (call : TopicCall) (w' : TopicWorld) :
    Decidable (RebuildsWhenDue env w call w') :=
  match call with
  | .maybeRebuildTopics _ _ _ false => inferInstanceAs (Decidable (_ ↔ _))
  | .maybeRebuildTopics _ _ _ true | .write _ | .invalidate | .buildTopics _ _ _ => isTrue trivial

/-- An automatic call comes when no rebuild is due. -/
def NotDue (w : TopicWorld) (call : TopicCall) (_ : TopicWorld) : Prop :=
  match call with
  | .maybeRebuildTopics _ _ _ false => ¬ w.Due
  | _ => True

/-- No operation writes the count. -/
theorem lastTopicBuildCount_step {w w' : TopicWorld} {call : TopicCall}
    (h : step env w call = some w') : w'.lastTopicBuildCount = w.lastTopicBuildCount := by
  cases call with
  | write | invalidate | buildTopics =>
    cases h
    rfl
  | maybeRebuildTopics llm kbId newId manual =>
    simp only [step] at h
    split at h <;>
    · cases h
      rfl

/-- Without a count there is no growth. -/
theorem not_grown {w : TopicWorld} (h : w.lastTopicBuildCount = none) :
    ¬ w.attributes.getKbStats.Grown := by
  intro hgrown
  have hpos : 0 < w.lastTopicBuildCount.getD 0 := hgrown.1
  rw [h] at hpos
  exact absurd hpos (lt_irrefl 0)

/-- Without a count an automatic call does nothing. -/
theorem maybeRebuildTopics_automatic {w : TopicWorld} (h : w.lastTopicBuildCount = none)
    (llm : Option TopicLlm) (kbId : String) (newId : ℕ → String) :
    env.maybeRebuildTopics llm kbId newId false w.attributes w.cache = (w.cache, none) := by
  rw [TopicEnv.maybeRebuildTopics, if_neg]
  rintro (hmanual | hgrown)
  · exact Bool.false_ne_true hmanual
  · exact not_grown h hgrown

/-- Without a count an automatic call keeps to the rule exactly if no rebuild is due. -/
theorem rebuildsWhenDue_iff {w : TopicWorld} (h : w.lastTopicBuildCount = none)
    (call : TopicCall) (w' : TopicWorld) : RebuildsWhenDue env w call w' ↔ NotDue w call w' := by
  match call with
  | .maybeRebuildTopics llm kbId newId false =>
    rw [RebuildsWhenDue, NotDue, maybeRebuildTopics_automatic env h]
    simp only [Option.isSome_none, Bool.false_eq_true, false_iff]
  | .maybeRebuildTopics _ _ _ true | .write _ | .invalidate | .buildTopics _ _ _ => rfl

/-- A run from a store that was just opened keeps to the rule exactly if no automatic call comes
when a rebuild is due. -/
theorem everyStep_rebuildsWhenDue_iff (store : PlainGraphStore) (cache : SummaryCache)
    (calls : List TopicCall) :
    EveryStep (step env) (RebuildsWhenDue env) { store, cache } calls ↔
      EveryStep (step env) NotDue { store, cache } calls := by
  refine everyStep_congr (I := fun w => w.lastTopicBuildCount = none) (fun w call w' hw h => ?_) rfl
  exact ⟨rebuildsWhenDue_iff env hw call w', fun _ => (lastTopicBuildCount_step env h).trans hw⟩

/-! ## A knowledge base that doubles -/

def namedEntity (name : String) : Entity where
  entityId := name
  kbId := "kb_1"
  name := name
  nameNorm := name
  type := "ORG"
  description := name
  sourceDocIds := ["doc_1"]
  confidence := 1

/-- The second entity makes a rebuild due, and the automatic call does not rebuild. -/
theorem doubled_not_rebuildsWhenDue :
    ¬ EveryStep (step sampleTopicEnv) (RebuildsWhenDue sampleTopicEnv)
      { store := NetworkXGraphStore.fresh "kb_1" }
      [.write (.upsertEntities [namedEntity "apex"]), .buildTopics none "kb_1" fun _ => "tpc_1",
       .write (.upsertEntities [namedEntity "zenith"]),
       .maybeRebuildTopics none "kb_1" (fun _ => "tpc_2") false] := by
  decide +kernel

end TopicWorld

end Ragx
