import MarTech.AI.GroundingGuard

namespace MarTech

-- A value of a dictionary that is computed with or written out.
inductive Scalar (R : Type)
  | none
  | bool (b : Bool)
  | int (n : Int)
  | float (x : R)
  | str (s : String)
deriving DecidableEq

structure Metric (R : Type) where
  metricName : String
  value      : Scalar R
deriving DecidableEq

instance {R : Type} : Keyed (Metric R) String where
  key := Metric.metricName

-- The keys that are read of a campaign's dictionary.
structure Campaign (R : Type) where
  id           : Option (Scalar R)
  objective    : Option (Scalar R)
  channel      : Option (Scalar R)
  status       : Option (Scalar R)
  audienceSize : Option (Scalar R)

structure EngagementSample (R : Type) where
  count : Scalar R
  mean  : Scalar R
  max   : Scalar R
  min   : Scalar R

structure CampaignContext (R : Type) where
  campaignId            : Scalar R
  objective             : Scalar R
  channel               : Scalar R
  status                : Scalar R
  audienceSize          : Scalar R
  metrics               : Table (Metric R)
  engagementScoreSample : Option (EngagementSample R)

variable {R : Type}

namespace Scalar

-- How an f-string writes a value.
def format [FloatRepr R] : Scalar R → String
  | none       => "None"
  | bool true  => "True"
  | bool false => "False"
  | int n      => toString n
  | float x    => FloatRepr.repr x
  | str s      => s

-- The number that a value is in arithmetic and in comparisons, which raise for anything else.
def number? [Field R] : Scalar R → Option R
  | bool b  => some (if b then 1 else 0)
  | int n   => some n
  | float x => some x
  | _       => Option.none

-- The value as the grounding guard tells it apart.
def toValue : Scalar R → Value R
  | int n   => .int n
  | float x => .float x
  | _       => .other

end Scalar

def EngagementSample.toList (sample : EngagementSample R) : List (String × Value R) := [
  ("count", sample.count.toValue), ("mean", sample.mean.toValue), ("max", sample.max.toValue),
  ("min", sample.min.toValue)
]

-- What the grounding guard reads of a context.
def CampaignContext.toContext (context : CampaignContext R) : Context R where
  metrics               := context.metrics.rows.map fun m => (m.metricName, m.value.toValue)
  audienceSize          := context.audienceSize.toValue
  engagementScoreSample := context.engagementScoreSample.elim [] EngagementSample.toList

variable [Field R] [LinearOrder R] [FloorRing R]

def buildCampaignContext (campaign : Campaign R) (metrics : List (Metric R))
    (sampleScores : Option (List R) := none) : CampaignContext R where
  campaignId            := campaign.id.getD .none
  objective             := campaign.objective.getD .none
  channel               := campaign.channel.getD .none
  status                := campaign.status.getD .none
  audienceSize          := campaign.audienceSize.getD (.int 0)
  metrics               := metrics.foldl Table.upsert ∅
  engagementScoreSample :=
    match sampleScores.getD [] with
    | []      => none
    | x :: xs => some {
      count := .int (x :: xs).length
      mean  := .float <| roundTo 3 ((x :: xs).sum / (x :: xs).length)
      max   := .float <| roundTo 3 (xs.foldl max x)
      min   := .float <| roundTo 3 (xs.foldl min x)
    }

end MarTech
