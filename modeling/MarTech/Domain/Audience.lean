import MarTech.Domain.Scoring
import MarTech.Library.TopK

namespace MarTech

variable {R : Type}

structure AudienceConditions (R : Type) [Field R] [LinearOrder R] where
  minScore        : Option R := none
  maxDaysInactive : Option Nat := none
  hasConverted    : Option Bool := none
  minScore_bounds        : ∀ s ∈ minScore, -50 ≤ s ∧ s ≤ 200 := by simp
  maxDaysInactive_bounds : ∀ d ∈ maxDaysInactive, d ≤ 3650 := by simp

-- The keys of `parse_conditions`' result.
structure Filters (R : Type) where
  minScore      : Option R
  minLastActive : Option Timestamp
  hasConverted  : Option Bool

def parseConditions [Field R] [LinearOrder R] (conditions : AudienceConditions R)
    (now : Timestamp) : Filters R where
  minScore      := conditions.minScore
  minLastActive := conditions.maxDaysInactive.map fun days => now - days * Timestamp.day
  hasConverted  := conditions.hasConverted

-- Python's truth value of what `json.loads` returns.
def Json.truthy : Json → Bool
  | .null          => false
  | .bool b        => b
  | .int n         => n ≠ 0
  | .float repr    => repr ∉ ["0.0", "-0.0"]
  | .str s         => s ≠ ""
  | .array items   => !items.isEmpty
  | .object fields => !fields.isEmpty

def buildReason [OfNat R 5] [OfNat R 10] [OfNat R 20] [LE R] [LT R] [DecidableLE R] [DecidableLT R]
    [Runtime] (score : R) (attributes : Json.Object) (channel objective : String) : String :=
  let engagement :=
    if 20 ≤ score then "very high engagement"
    else if 10 ≤ score then "high engagement"
    else if 5 ≤ score then "moderate engagement"
    else "emerging engagement"
  let parts := [engagement, "on " ++ channel]
  let parts := if (attributes.get "recent_purchase").any Json.truthy then
    parts ++ ["converted recently"] else parts
  let parts := if (attributes.get "vip").any Json.truthy then
    parts ++ ["VIP segment"] else parts
  let parts := if lower objective ∈ ["retention", "winback"] ∧ score < 5 then
    parts ++ ["at-risk / win-back candidate"] else parts
  ", ".intercalate parts

structure ScoredCustomer (R : Type) where
  score      : R
  customerId : String
  attributes : Json.Object

-- What the dataclass compares: the attributes are left out.
def ScoredCustomer.order (entry : ScoredCustomer R) : R ×ₗ String :=
  toLex (entry.score, entry.customerId)

def selectTopK [LinearOrder R] (heapq : HeapQueue (ScoredCustomer.order (R := R)))
    (candidates : List (String × R × Json.Object)) (k : Int) : List (ScoredCustomer R) :=
  if k ≤ 0 then
    []
  else
    let heap := candidates.foldl (fun heap (customerId, score, attributes) =>
      heapq.offer k.toNat heap { score, customerId, attributes }) []
    MinHeap.descending ScoredCustomer.order heap

end MarTech
