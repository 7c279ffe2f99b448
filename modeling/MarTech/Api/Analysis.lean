import MarTech.AI.Adapters
import MarTech.AI.Service
import MarTech.Core.Exceptions
import MarTech.Database.Campaigns

namespace MarTech

-- An `AIResponse` as `model_copy` leaves it, which validates nothing.
structure Analysis (R : Type) where
  facts             : List String
  recommendations   : List String
  confidence        : R
  source            : String
  groundingVerified : Bool
  groundingNotes    : List String

section Copy

variable {R : Type} [Field R] [LinearOrder R]

def AIResponse.copy (response : AIResponse R) : Analysis R where
  facts             := response.facts
  recommendations   := response.recommendations
  confidence        := response.confidence
  source            := response.source
  groundingVerified := response.groundingVerified
  groundingNotes    := response.groundingNotes

end Copy

-- What awaiting `provider.generate` comes to. Whatever the transport raises is a failure, and so is a
-- timeout or an answer that has no text.
inductive Generated
  | content (text : String)
  | failure
  | cancelled

structure AIHeaders where
  aiKey      : String := ""
  aiProvider : String := ""

def campaignNotFound : AppError :=
  notFoundError "Campaign not found" "campaign_not_found"

def getEffectiveLLM [Unicode] [Runtime] (settings : LLMSettings) (llm : Option LLMProvider)
    (headers : AIHeaders) : Option LLMProvider :=
  let aiKey := stripped headers.aiKey
  let aiProvider := lower <| stripped headers.aiProvider
  if aiKey ≠ "" ∧ aiProvider ≠ "" then
    (buildProvider settings aiProvider aiKey).or llm
  else
    llm

inductive AnalyzeAnswer (R : Type)
  | response (campaignId : String) (analysis : Analysis R)
  | error (error : AppError)
  | internalError
  | cancelled

section Analyze

variable {R : Type} [Field R] [LinearOrder R] [FloorRing R] [MathLog R] [FloatRepr R]

-- The context that `analyze` builds of what it reads in the database.
def campaignContext (campaign : CampaignRow) (metrics : List (CampaignMetric R)) : CampaignContext R :=
  buildCampaignContext {
    id           := some (.str campaign.id)
    objective    := some (.str campaign.objective)
    channel      := some (.str campaign.channel)
    status       := some (.str campaign.status)
    audienceSize := some (.int campaign.audienceSize)
  } <| metrics.map fun m => ⟨m.metricName, .float m.value⟩

variable [Unicode] [Runtime]

-- The copy of a model's response that is returned.
def assess (context : CampaignContext R) (fallback : AIResponse R) (analysis : Analysis R) :
    Option (Analysis R) := do
  let (isGrounded, notes) := verifyGrounding analysis.recommendations context.toContext
  let confidence ← computeConfidence context (some analysis.confidence)
  return { analysis with
    facts             := fallback.facts
    source            := "llm"
    confidence        := confidence
    groundingVerified := isGrounded
    groundingNotes    := notes
  }

-- A request that is suspended at `provider.generate`, with its local variables.
structure AnalyzeCall (R : Type) [Zero R] [One R] [LE R] where
  campaignId : String
  context    : CampaignContext R
  fallback   : AIResponse R
  probe      : Bool

def AnalyzeCall.inFlight (call : AnalyzeCall R) : InFlight (Analysis R) where
  assessment := ⟨call.fallback.copy, assess call.context call.fallback⟩
  probe      := call.probe

def AnalyzeCall.answer (call : AnalyzeCall R) : Answer (Analysis R) → AnalyzeAnswer R
  | .response analysis => .response call.campaignId analysis
  | .cancelled         => .cancelled

variable [Decoding] [FloatOf R]

def Generated.awaited : Generated → Awaited (Analysis R)
  | .content text => (parseAiResponse text).elim .failure fun response => .success response.copy
  | .failure      => .failure
  | .cancelled    => .cancelled

end Analyze

-- The app: the service that all requests share, and those that are suspended.
structure App (T R : Type) [Zero R] [One R] [LE R] where
  aiService : AnalysisService T
  calls     : List (AnalyzeCall R)

-- A request is answered at once or suspended, and in the latter case it goes on when the model has been
-- awaited. Each of the two queries sees what has been committed by then.
inductive AnalyzeTurn (T R : Type)
  | request (campaigns : Table CampaignRow) (metrics : Table (CampaignMetric R)) (campaignId : String)
    (headers : AIHeaders) (now : T)
  | resume (position : Nat) (generated : Generated) (now : T)

namespace App

variable {T R : Type} [AddGroup T] [LinearOrder T] [Field R] [LinearOrder R] [FloorRing R] [MathLog R]
         [FloatRepr R] [Unicode] [Runtime] [Decoding] [FloatOf R]

def init : App T R where
  aiService := .init
  calls     := []

-- `POST /campaigns/{campaign_id}/analyze` and `/recommend`, which differ only in the prompt.
def analyze (breaker : BreakerSettings T) (settings : LLMSettings) (llm : Option LLMProvider)
    (app : App T R) (campaigns : Table CampaignRow) (metrics : Table (CampaignMetric R))
    (campaignId : String) (headers : AIHeaders) (now : T) : App T R × Option (AnalyzeAnswer R) :=
  match CampaignRepo.get campaigns campaignId with
  | none          => (app, some <| .error campaignNotFound)
  | some campaign =>
    let context := campaignContext campaign <| CampaignRepo.metrics metrics campaignId
    match ruleBasedSummary context with
    | none          => (app, some .internalError)
    | some fallback =>
      if (getEffectiveLLM settings llm headers).isNone then
        (app, some <| .response campaignId fallback.copy)
      else
        match app.aiService.gate breaker now with
        | (aiService, none) =>
          ({ app with aiService }, some <| .response campaignId fallback.copy)
        | (aiService, some probe) =>
          ({ aiService, calls := app.calls ++ [⟨campaignId, context, fallback, probe⟩] }, none)

def resume (breaker : BreakerSettings T) (app : App T R) (position : Nat) (generated : Generated)
    (now : T) : App T R × Option (AnalyzeAnswer R) :=
  match app.calls[position]? with
  | none      => (app, none)
  | some call =>
    let outcome := call.inFlight.assessment.awaited generated.awaited
    let aiService := app.aiService.record breaker call.probe outcome now
    ({ aiService := aiService.release call.probe
       calls     := app.calls.eraseIdx position }, some <| call.answer <| call.inFlight.answer outcome)

def turn (breaker : BreakerSettings T) (settings : LLMSettings) (llm : Option LLMProvider)
    (app : App T R) : AnalyzeTurn T R → App T R × Option (AnalyzeAnswer R)
  | .request campaigns metrics campaignId headers now =>
    app.analyze breaker settings llm campaigns metrics campaignId headers now
  | .resume position generated now => app.resume breaker position generated now

def run (breaker : BreakerSettings T) (settings : LLMSettings) (llm : Option LLMProvider)
    (turns : List (AnalyzeTurn T R)) : App T R :=
  turns.foldl (fun app turn => (app.turn breaker settings llm turn).1) init

end App
end MarTech
