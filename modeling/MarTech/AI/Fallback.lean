import MarTech.AI.Confidence

namespace MarTech

-- The shape that is validated when a response is built.
structure AIResponse (R : Type) [Zero R] [One R] [LE R] where
  facts             : List String := []
  recommendations   : List String := []
  confidence        : R
  source            : String := "llm"
  groundingVerified : Bool := true
  groundingNotes    : List String := []
  confidence_bound  : 0 ≤ confidence ∧ confidence ≤ 1

def lowOpenRate : String :=
  "Open rate is below 15% — consider subject-line A/B tests or send-time optimization."

def healthyOpenRate : String :=
  "Open rate is healthy; focus budget on click-to-conversion steps."

def lowClickRate : String :=
  "Click-through rate is low — review creative and CTA placement."

def insufficientHistory : String :=
  "Insufficient metric history for specific recommendations; continue collecting data."

variable {R : Type} [Field R] [LinearOrder R] [FloorRing R] [MathLog R] [FloatRepr R]

-- `metrics.get(name)`, where nothing and `None` are the same, compared with a threshold. This raises
-- for a value that is not a number.
def isBelow (context : CampaignContext R) (name : String) (threshold : R) : Option (Option Bool) :=
  match (context.metrics.get name).elim .none (·.value) with
  | .none => some none
  | value => value.number?.map fun x => some (decide (x < threshold))

def sampleFact (sample : EngagementSample R) : String :=
  "Engagement sample (n=" ++ sample.count.format ++ "): mean=" ++ sample.mean.format ++
    ", min=" ++ sample.min.format ++ ", max=" ++ sample.max.format

def contextFacts (context : CampaignContext R) : List String := [
    "Campaign objective: " ++ context.objective.format,
    "Primary channel: " ++ context.channel.format,
    "Configured audience size: " ++ context.audienceSize.format
  ] ++ context.metrics.rows.map (fun m => m.metricName ++ ": " ++ m.value.format) ++
    context.engagementScoreSample.toList.map sampleFact

def ruleBasedSummary (context : CampaignContext R) : Option (AIResponse R) := do
  let openRate ← isBelow context "open_rate" 0.15
  let clickRate ← isBelow context "click_rate" 0.02
  let recommendations :=
    (match openRate with
      | none       => []
      | some true  => [lowOpenRate]
      | some false => [healthyOpenRate]) ++
    (if clickRate = some true then [lowClickRate] else [])
  let confidence ← computeConfidence context
  if h : 0 ≤ confidence ∧ confidence ≤ 1 then
    return {
      facts            := contextFacts context
      recommendations  := if recommendations.isEmpty then [insufficientHistory] else recommendations
      confidence       := confidence
      source           := "fallback"
      confidence_bound := h
    }
  else
    none

end MarTech
