import MarTech.Domain.Audience
import MarTech.Database.Repositories

namespace MarTech

inductive Objective
  | conversion
  | retention
  | winback
  | awareness
  | upsell
deriving DecidableEq, Repr

def Objective.value : Objective → String
  | conversion => "conversion"
  | retention  => "retention"
  | winback    => "winback"
  | awareness  => "awareness"
  | upsell     => "upsell"

structure RecommendRequest (R : Type) [Field R] [LinearOrder R] where
  objective    : Objective
  channel      : Channel
  conditions   : AudienceConditions R := {}
  audienceSize : Nat := 100
  audienceSize_bounds : 1 ≤ audienceSize ∧ audienceSize ≤ 10000 := by decide

structure RankedCustomer (R : Type) where
  customerId : String
  score      : R
  reason     : String

def complexityNotes : List (String × String) := [
  ("filter", "SQL eligibility and recent-send exclusion; inspect query plans for your data"),
  ("freq_cap", "Confirmed sends in the previous 24 hours; preview has no side effects"),
  ("top_k", "O(M log K)"),
  ("space", "O(K + batch size)")
]

structure RecommendResponse (R : Type) where
  objective       : String
  channel         : String
  requestedSize   : Nat
  returnedSize    : Nat
  customers       : List (RankedCustomer R)
  complexityNotes : List (String × String) := MarTech.complexityNotes
  preview         : Bool := true

variable {R : Type} [Field R] [LinearOrder R] [MathExp R]

-- The entry that a streamed row contributes, unless its score is filtered out.
def scoredCustomer (settings : Settings R) (filters : Filters R) (now : Timestamp)
    (row : Candidate R) : Option (ScoredCustomer R) :=
  let score := scoreAt settings row.score row.lastUpdated now
  if filters.minScore.any (score < ·) then
    none
  else
    some { score, customerId := row.customerId, attributes := row.attributes }

-- One turn of the loop over a batch. Since `audience_size` is positive a heap that is not filled up
-- has a root whenever the code looks at it.
def considerRow (settings : Settings R) (heapq : MinHeap (ScoredCustomer.order (R := R)))
    (filters : Filters R) (size : Nat) (now : Timestamp) (heap : List (ScoredCustomer R))
    (row : Candidate R) : List (ScoredCustomer R) :=
  match scoredCustomer settings filters now row with
  | some entry => heapq.offer size heap entry
  | none       => heap

variable [FloorRing R] [Runtime]

def rankedCustomer (body : RecommendRequest R) (entry : ScoredCustomer R) : RankedCustomer R where
  customerId := entry.customerId
  score      := roundTo 4 entry.score
  reason     := buildReason entry.score entry.attributes body.channel.value body.objective.value

-- The clock is read twice: `now` is the reference time of the scores, and `parse_conditions` reads
-- it again for the cutoff of the last activity.
def recommendAudience (settings : Settings R)
    (heapq : MinHeap (ScoredCustomer.order (R := R))) (result : AsyncResult (Candidate R)) (db : Db R)
    (body : RecommendRequest R) (now parsedAt : Timestamp) : RecommendResponse R :=
  let filters := parseConditions body.conditions parsedAt
  let batches := result.batches <|
    candidates db body.channel now filters.minLastActive filters.hasConverted
  let heap := batches.foldl (fun heap batch =>
    batch.foldl (considerRow settings heapq filters body.audienceSize now) heap) []
  let top := MinHeap.descending ScoredCustomer.order heap
  { objective     := body.objective.value
    channel       := body.channel.value
    requestedSize := body.audienceSize
    returnedSize  := top.length
    customers     := top.map (rankedCustomer body) }

end MarTech
