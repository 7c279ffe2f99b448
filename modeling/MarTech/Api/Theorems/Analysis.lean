import MarTech.AI.Theorems.Fallback
import MarTech.AI.Theorems.Service
import MarTech.Api.Analysis
import MarTech.Library.Latest
import MarTech.Library.Simulation

namespace MarTech

section Latest

variable {R : Type}

-- No metric of the campaign has the same name and was computed later.
def isLatest (metrics : Table (CampaignMetric R)) (campaignId : String) (metric : CampaignMetric R) :
    Bool :=
  metric.campaignId = campaignId && metrics.rows.all fun m =>
    m.campaignId = campaignId → m.metricName = metric.metricName → m.computed ≤ metric.computed

def latestMetrics (metrics : Table (CampaignMetric R)) (campaignId : String) :
    List (CampaignMetric R) :=
  metrics.rows.filter (isLatest metrics campaignId)

variable {metrics : Table (CampaignMetric R)} {campaignId : String} {metric : CampaignMetric R}

theorem mem_latestMetrics : metric ∈ latestMetrics metrics campaignId ↔
    metric ∈ metrics ∧ metric.campaignId = campaignId ∧ ∀ m ∈ metrics, m.campaignId = campaignId →
      m.metricName = metric.metricName → m.computed ≤ metric.computed := by
  simp only [latestMetrics, isLatest, List.mem_filter, Bool.and_eq_true, decide_eq_true_eq,
    List.all_eq_true, Table.mem_rows]

theorem computed_injOn {m m' : CampaignMetric R} (h : m ∈ metrics) (h' : m' ∈ metrics)
    (he : m.computed = m'.computed) : m = m' :=
  Table.key_injective h h' (congrArg (fun key => (ofLex key).2) he)

theorem mem_metrics : metric ∈ CampaignRepo.metrics metrics campaignId ↔
    metric ∈ metrics ∧ metric.campaignId = campaignId := by
  simp [CampaignRepo.metrics, Table.mem_rows]

-- The rows come in the order in which they were computed.
theorem metrics_sorted (metrics : Table (CampaignMetric R)) (campaignId : String) :
    (CampaignRepo.metrics metrics campaignId).Pairwise (·.computed < ·.computed) := by
  have hsorted : (CampaignRepo.metrics metrics campaignId).Pairwise (·.computed ≤ ·.computed) := by
    simpa [CampaignRepo.metrics] using @List.pairwise_mergeSort _
      (fun m m' : CampaignMetric R => decide (m.computed ≤ m'.computed))
      (by simpa using fun _ _ _ => le_trans) (by simpa using fun _ _ => le_total _ _) _
  have hnodup : (CampaignRepo.metrics metrics campaignId).Nodup :=
    (List.mergeSort_perm ..).nodup_iff.mpr <| metrics.nodup_rows.filter _
  refine (hsorted.and hnodup).imp_of_mem fun {m m'} hm hm' ⟨hle, hne⟩ => lt_of_le_of_ne hle fun he => ?_
  exact hne <| computed_injOn (mem_metrics.mp hm).left (mem_metrics.mp hm').left he

theorem latest_eq {m m' : CampaignMetric R} (h : m ∈ latestMetrics metrics campaignId)
    (h' : m' ∈ latestMetrics metrics campaignId) (hname : m.metricName = m'.metricName) : m = m' := by
  obtain ⟨hm, hid, hmax⟩    := mem_latestMetrics.mp h
  obtain ⟨hm', hid', hmax'⟩ := mem_latestMetrics.mp h'
  exact computed_injOn hm hm' <| le_antisymm (hmax' m hm hid hname) (hmax m' hm' hid' hname.symm)

def CampaignMetric.toMetric (metric : CampaignMetric R) : Metric R :=
  ⟨metric.metricName, .float metric.value⟩

-- Of the metrics with one name the context keeps the latest.
theorem upserts_latest (metrics : Table (CampaignMetric R)) (campaignId : String) :
    (((CampaignRepo.metrics metrics campaignId).map CampaignMetric.toMetric).foldl Table.upsert
      ∅).rows.Perm ((latestMetrics metrics campaignId).map CampaignMetric.toMetric) := by
  have hnodup : ((latestMetrics metrics campaignId).map CampaignMetric.toMetric).Nodup := by
    refine List.Nodup.map_on (fun m h m' h' he => ?_) (metrics.nodup_rows.filter _)
    exact latest_eq h h' (congrArg Metric.metricName he)
  refine (List.perm_ext_iff_of_nodup (Table.nodup_rows _) hnodup).mpr fun row => ?_
  rw [Table.mem_rows, Table.mem_iff_get, Table.get_upserts, Table.get_empty, Option.or_none,
    ← List.map_reverse, List.find?_map, Option.map_eq_some_iff, List.mem_map]
  refine exists_congr fun m => and_congr_left fun he => ?_
  subst he
  rw [find?_reverse_eq_some_iff (metrics_sorted metrics campaignId), mem_latestMetrics, mem_metrics]
  simp only [Function.comp_apply, decide_eq_true_eq, mem_metrics]
  constructor
  case mp  => exact fun ⟨⟨hm, hid⟩, _, hmax⟩ => ⟨hm, hid, fun m' h h' => hmax m' ⟨h, h'⟩⟩
  case mpr => exact fun ⟨hm, hid, hmax⟩ => ⟨⟨hm, hid⟩, trivial, fun m' h => hmax m' h.left h.right⟩

end Latest

section Facts

variable {R : Type} [Field R] [LinearOrder R] [FloorRing R] [FloatRepr R]

def CampaignMetric.fact (metric : CampaignMetric R) : String :=
  metric.metricName ++ ": " ++ FloatRepr.repr metric.value

-- The facts are the campaign's own fields and its latest metrics, each of them once.
theorem contextFacts_campaign (campaign : CampaignRow) (metrics : Table (CampaignMetric R)) :
    ∃ lines, lines.Perm ((latestMetrics metrics campaign.id).map CampaignMetric.fact) ∧
      contextFacts (campaignContext campaign <| CampaignRepo.metrics metrics campaign.id) = [
        "Campaign objective: " ++ campaign.objective,
        "Primary channel: " ++ campaign.channel,
        "Configured audience size: " ++ toString campaign.audienceSize
      ] ++ lines := by
  refine ⟨_, ?_, List.append_nil _⟩
  have h := (upserts_latest metrics campaign.id).map fun m => m.metricName ++ ": " ++ m.value.format
  rwa [List.map_map] at h

theorem ruleBasedSummary_spec [MathLog R] {context : CampaignContext R} {response : AIResponse R}
    (h : ruleBasedSummary context = some response) :
    response.facts = contextFacts context ∧ (dataSupport context).isSome := by
  simp only [ruleBasedSummary, Option.bind_eq_bind, Option.bind_eq_some_iff] at h
  obtain ⟨_, _, _, _, confidence, hc, h⟩ := h
  split at h
  case isFalse => cases h
  case isTrue  =>
    cases h
    refine ⟨rfl, ?_⟩
    cases hs : dataSupport context
    case none   => simp [computeConfidence, hs] at hc
    case some _ => rfl

-- What is read of the database can always be summed up.
theorem summary_isSome [IsStrictOrderedRing R] [MathLog R] (campaign : CampaignRow)
    (metrics : List (CampaignMetric R)) :
    (ruleBasedSummary <| campaignContext campaign metrics).isSome := by
  refine ruleBasedSummary_isSome (by simp) fun m hm => ?_
  obtain ⟨_, -, rfl⟩ := List.mem_map.mp hm
  simp

end Facts

section Turns

variable {T R : Type} [Field R] [LinearOrder R]

-- The request for a campaign found it, and then these metrics.
def AnalyzeTurn.Finds (turn : AnalyzeTurn T R) (campaignId : String) (campaign : CampaignRow)
    (metrics : Table (CampaignMetric R)) : Prop :=
  ∃ campaigns headers now, turn = .request campaigns metrics campaignId headers now ∧
    CampaignRepo.get campaigns campaignId = some campaign

-- The response that the model has stated, if it has.
def Generated.stated [Decoding] [FloatOf R] : Generated → Option (AIResponse R)
  | .content text         => parseAiResponse text
  | .failure | .cancelled => none

variable [FloorRing R] [MathLog R] [FloatRepr R] [Unicode] [Runtime]

-- What an answer says of a campaign: the facts are in the database, and the rest is either made of them
-- or what the model has stated, with the verdict on it.
structure Analysed (campaign : CampaignRow) (metrics : Table (CampaignMetric R))
    (stated : Option (AIResponse R)) (analysis : Analysis R) : Prop where
  facts      : ∃ lines, lines.Perm ((latestMetrics metrics campaign.id).map CampaignMetric.fact) ∧
    analysis.facts = [
      "Campaign objective: " ++ campaign.objective,
      "Primary channel: " ++ campaign.channel,
      "Configured audience size: " ++ toString campaign.audienceSize
    ] ++ lines
  confidence : 0 ≤ analysis.confidence ∧ analysis.confidence ≤ 1
  origin     :
    let context := campaignContext campaign <| CampaignRepo.metrics metrics campaign.id
    match stated with
    | none          => ∃ fallback, ruleBasedSummary context = some fallback ∧ analysis = fallback.copy
    | some response =>
      analysis.source = "llm" ∧ analysis.recommendations = response.recommendations ∧
      (analysis.groundingVerified, analysis.groundingNotes) =
        verifyGrounding response.recommendations context.toContext ∧
      computeConfidence context (some response.confidence) = some analysis.confidence

-- The campaign was found by one of the requests, and the local variables were computed of it.
structure AnalyzeCall.Founded (turns : List (AnalyzeTurn T R)) (call : AnalyzeCall R)
    (campaign : CampaignRow) (metrics : Table (CampaignMetric R)) : Prop where
  found    : ∃ turn ∈ turns, turn.Finds call.campaignId campaign metrics
  context  : call.context = campaignContext campaign (CampaignRepo.metrics metrics campaign.id)
  fallback : ruleBasedSummary call.context = some call.fallback

variable {campaign : CampaignRow} {metrics : Table (CampaignMetric R)} {fallback : AIResponse R}

-- The summary is an analysis for which nothing has been stated.
theorem analysed_fallback (h : ruleBasedSummary (campaignContext campaign <|
    CampaignRepo.metrics metrics campaign.id) = some fallback) :
    Analysed campaign metrics none fallback.copy where
  facts := by
    obtain ⟨lines, hp, hf⟩ := contextFacts_campaign campaign metrics
    exact ⟨lines, hp, (ruleBasedSummary_spec h).left.trans hf⟩
  confidence := fallback.confidence_bound
  origin     := ⟨fallback, h, rfl⟩

end Turns

section Runs

variable {T : Type} [AddGroup T] [LinearOrder T] [FloatRepr ℝ] [Unicode] [Runtime] [Decoding]
         [FloatOf ℝ]

omit [Decoding] [FloatOf ℝ] in
-- What a model has stated is never a failure in itself.
theorem analysed_assess {campaign : CampaignRow} {metrics : Table (CampaignMetric ℝ)}
    {fallback : AIResponse ℝ} (h : ruleBasedSummary (campaignContext campaign <|
      CampaignRepo.metrics metrics campaign.id) = some fallback) (response : AIResponse ℝ) :
    ∃ analysis, assess (campaignContext campaign <| CampaignRepo.metrics metrics campaign.id) fallback
      response.copy = some analysis ∧ Analysed campaign metrics (some response) analysis := by
  obtain ⟨lines, hp, hf⟩ := contextFacts_campaign campaign metrics
  obtain ⟨hfacts, hsome⟩ := ruleBasedSummary_spec h
  obtain ⟨support, hs⟩   := Option.isSome_iff_exists.mp hsome
  obtain ⟨h₀, h₁⟩        := dataSupport_bound hs
  have hc := computeConfidence_eq hs (some response.confidence)
  refine ⟨_, by simp only [assess, AIResponse.copy, hc]; rfl, ?_⟩
  exact ⟨⟨lines, hp, hfacts.trans hf⟩, blended_bound h₀ h₁ (some response.confidence), rfl, rfl, rfl, hc⟩

omit [AddGroup T] [LinearOrder T] in
-- A call that goes on is answered, with the summary unless the model has stated a response.
theorem AnalyzeCall.Founded.answer {turns : List (AnalyzeTurn T ℝ)} {call : AnalyzeCall ℝ}
    {campaign : CampaignRow} {metrics : Table (CampaignMetric ℝ)}
    (h : call.Founded turns campaign metrics) {generated : Generated} (hg : generated ≠ .cancelled) :
    ∃ analysis, call.answer (call.inFlight.answer <|
        call.inFlight.assessment.awaited generated.awaited) = .response call.campaignId analysis ∧
      Analysed campaign metrics generated.stated analysis := by
  have hfallback := h.fallback
  rw [h.context] at hfallback
  have hsummary := analysed_fallback hfallback
  cases generated
  case cancelled    => exact absurd rfl hg
  case failure      => exact ⟨call.fallback.copy, rfl, hsummary⟩
  case content text =>
    simp only [Generated.awaited, Generated.stated]
    cases parseAiResponse (R := ℝ) text
    case none          => exact ⟨call.fallback.copy, rfl, hsummary⟩
    case some response =>
      obtain ⟨analysis, he, hanalysed⟩ := analysed_assess hfallback response
      refine ⟨analysis, ?_, hanalysed⟩
      simp [AnalyzeCall.inFlight, Assessment.awaited, h.context, he, InFlight.answer,
        AnalyzeCall.answer]

variable (breaker : BreakerSettings T) (settings : LLMSettings) (llm : Option LLMProvider)

-- How the app answers its next turn after the given ones.
inductive Answered (turns : List (AnalyzeTurn T ℝ)) (app : App T ℝ) :
    AnalyzeTurn T ℝ → Option (AnalyzeAnswer ℝ) → Prop
  | notFound {campaigns metrics campaignId headers now}
    (missing : CampaignRepo.get campaigns campaignId = none) :
    Answered turns app (.request campaigns metrics campaignId headers now)
      (some <| .error campaignNotFound)
  | suspended {campaigns metrics campaignId headers now campaign}
    (found : CampaignRepo.get campaigns campaignId = some campaign)
    (provided : (getEffectiveLLM settings llm headers).isSome) :
    Answered turns app (.request campaigns metrics campaignId headers now) none
  | atOnce {campaigns metrics campaignId headers now campaign analysis}
    (found : CampaignRepo.get campaigns campaignId = some campaign)
    (analysed : Analysed campaign metrics none analysis) :
    Answered turns app (.request campaigns metrics campaignId headers now)
      (some <| .response campaignId analysis)
  | absent {position generated now} (absent : app.calls[position]? = none) :
    Answered turns app (.resume position generated now) none
  | cancelled {position now call} (suspended : app.calls[position]? = some call) :
    Answered turns app (.resume position .cancelled now) (some .cancelled)
  | resumed {position generated now call campaign metrics analysis}
    (suspended : app.calls[position]? = some call)
    (found : ∃ turn ∈ turns, turn.Finds call.campaignId campaign metrics)
    (goes_on : generated ≠ .cancelled)
    (analysed : Analysed campaign metrics generated.stated analysis) :
    Answered turns app (.resume position generated now)
      (some <| .response call.campaignId analysis)

namespace App

variable {turns : List (AnalyzeTurn T ℝ)} {app : App T ℝ}

-- The suspended calls are those of earlier requests.
def Founded (turns : List (AnalyzeTurn T ℝ)) (app : App T ℝ) : Prop :=
  ∀ call ∈ app.calls, ∃ campaign metrics, call.Founded turns campaign metrics

omit [AddGroup T] [LinearOrder T] [Unicode] [Runtime] [Decoding] [FloatOf ℝ] in
theorem Founded.mono {turns' : List (AnalyzeTurn T ℝ)} (h : Founded turns app) (hs : turns ⊆ turns') :
    Founded turns' app := by
  intro call hm
  obtain ⟨campaign, metrics, ⟨turn, ht, hf⟩, hcontext, hfallback⟩ := h call hm
  exact ⟨campaign, metrics, ⟨turn, hs ht, hf⟩, hcontext, hfallback⟩

theorem Founded.turn (h : Founded turns app) (turn : AnalyzeTurn T ℝ) :
    Founded (turns ++ [turn]) (app.turn breaker settings llm turn).1 ∧
      Answered settings llm turns app turn (app.turn breaker settings llm turn).2 := by
  have hkept : Founded (turns ++ [turn]) app := h.mono (List.subset_append_left ..)
  cases turn
  case request campaigns metrics campaignId headers now =>
    simp only [App.turn, analyze]
    cases hfound : CampaignRepo.get campaigns campaignId
    case none          => exact ⟨hkept, .notFound hfound⟩
    case some campaign =>
      have hid : campaign.id = campaignId := Table.key_of_get hfound
      obtain ⟨fallback, hs⟩ := Option.isSome_iff_exists.mp <|
        summary_isSome campaign (CampaignRepo.metrics metrics campaignId)
      have hanalysed := analysed_fallback (hid ▸ hs)
      simp only [hs]
      split
      case isTrue        => exact ⟨hkept, .atOnce hfound hanalysed⟩
      case isFalse hsome =>
        split
        case h_1 => exact ⟨hkept, .atOnce hfound hanalysed⟩
        case h_2 =>
          have hprovided : (getEffectiveLLM settings llm headers).isSome :=
            Option.isSome_iff_ne_none.mpr (by simpa using hsome)
          refine ⟨fun call hm => ?_, .suspended hfound hprovided⟩
          obtain hm | hm := List.mem_append.mp hm
          · exact hkept call hm
          · cases List.mem_singleton.mp hm
            exact ⟨campaign, metrics, ⟨_, List.mem_concat_self, campaigns, headers, now, rfl, hfound⟩,
              by rw [hid], hs⟩
  case resume position generated now =>
    simp only [App.turn, App.resume]
    cases hcall : app.calls[position]?
    case none      => exact ⟨hkept, .absent hcall⟩
    case some call =>
      refine ⟨fun call hm => hkept call (List.mem_of_mem_eraseIdx hm), ?_⟩
      obtain ⟨campaign, metrics, hfounded⟩ := h call (List.mem_of_getElem? hcall)
      by_cases hgenerated : generated = .cancelled
      case pos =>
        subst hgenerated
        exact .cancelled hcall
      case neg =>
        obtain ⟨analysis, he, hanalysed⟩ := hfounded.answer hgenerated
        simp only [he]
        exact .resumed hcall hfounded.found hgenerated hanalysed

theorem Founded.run (turns : List (AnalyzeTurn T ℝ)) :
    Founded turns (App.run breaker settings llm turns) := by
  induction turns using List.reverseRec
  case nil => exact fun _ h => nomatch h
  case append_singleton turns turn hi =>
    rw [App.run, List.foldl_append]
    exact (hi.turn breaker settings llm turn).left

end App

-- Whatever requests are under way and whatever the models come up with: an answer keeps to what the
-- database has on its own campaign, and there is one unless the client has gone.
theorem analysis_grounded (turns : List (AnalyzeTurn T ℝ)) (turn : AnalyzeTurn T ℝ) :
    let app := App.run breaker settings llm turns
    Answered settings llm turns app turn (app.turn breaker settings llm turn).2 :=
  ((App.Founded.run breaker settings llm turns).turn breaker settings llm turn).right

end Runs

section Breaker

namespace App

variable {T R : Type} [AddGroup T] [LinearOrder T] [Field R] [LinearOrder R] [FloorRing R] [MathLog R]
         [FloatRepr R] [Unicode] [Runtime] [Decoding] [FloatOf R]
         {breaker : BreakerSettings T} {settings : LLMSettings} {llm : Option LLMProvider} {app : App T R}

-- What the breaker sees of the app.
def process (app : App T R) : Process T (Analysis R) where
  service  := app.aiService
  inFlight := app.calls.map AnalyzeCall.inFlight

end App
end Breaker

end MarTech
