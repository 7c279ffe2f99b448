import MarTech.AI.ContextBuilder

namespace MarTech

-- `math.log10` on the numbers that stand for floats.
class MathLog (R : Type) where
  log10 : R → R

def canonicalMetrics : List String :=
  ["open_rate", "click_rate", "conversion_rate", "unsubscribe_rate"]

def audienceFullMark : Nat := 10000
def sampleTarget : Nat := 100

variable {R : Type} [Field R]

def wCompleteness : R := 0.5
def wAudience : R := 0.3
def wSample : R := 0.2
def modelTrustWeight : R := 0.3

variable [LinearOrder R] [FloorRing R] [MathLog R]

open MathLog (log10)

def audienceReliability (audience : R) : R :=
  min 1 (log10 (1 + max 0 audience) / log10 (1 + (audienceFullMark : R)))

omit [FloorRing R] [MathLog R] in
def sampleSufficiency (count : R) : R :=
  min 1 (max 0 count / sampleTarget)

-- A component for a value that may be missing. This raises for a value that is not a number.
def component (weight : R) (f : R → R) : Scalar R → Option (List (R × R))
  | .none => some []
  | value => value.number?.map fun x => [(weight, f x)]

def dataSupport (context : CampaignContext R) : Option R := do
  let present := canonicalMetrics.countP fun name => (context.metrics.get name).isSome
  let completeness : R × R := (wCompleteness, present / canonicalMetrics.length)
  let audience ← component wAudience audienceReliability context.audienceSize
  let sample ←
    component wSample sampleSufficiency (context.engagementScoreSample.elim .none (·.count))
  let components := completeness :: audience ++ sample
  let totalWeight := (components.map fun (w, _) => w).sum
  let score := (components.map fun (w, s) => w * s).sum / totalWeight
  return roundTo 3 (min 1 (max 0 score))

def computeConfidence (context : CampaignContext R) (modelConfidence : Option R := none) :
    Option R := do
  let support ← dataSupport context
  match modelConfidence with
  | none   => return support
  | some m =>
    let stated := min 1 (max 0 m)
    return roundTo 3 ((1 - modelTrustWeight) * support + modelTrustWeight * stated)

end MarTech
