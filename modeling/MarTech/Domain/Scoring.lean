import Mathlib
import MarTech.Domain.Events
import MarTech.Library.Table

namespace MarTech

-- The numerals that the functions on floats of several modules share.
instance atLeastTwo_five : Nat.AtLeastTwo 5 := ⟨by decide⟩
instance atLeastTwo_ten : Nat.AtLeastTwo 10 := ⟨by decide⟩
instance atLeastTwo_twelve : Nat.AtLeastTwo 12 := ⟨by decide⟩
instance atLeastTwo_twenty : Nat.AtLeastTwo 20 := ⟨by decide⟩
instance atLeastTwo_fifty : Nat.AtLeastTwo 50 := ⟨by decide⟩
instance atLeastTwo_hundred : Nat.AtLeastTwo 100 := ⟨by decide⟩
instance atLeastTwo_twoHundred : Nat.AtLeastTwo 200 := ⟨by decide⟩
instance atLeastTwo_secondsOfDay : Nat.AtLeastTwo 86400 := ⟨by decide⟩

-- `math.exp` on the numbers that stand for floats.
class MathExp (R : Type) where
  exp : R → R

-- The settings which the modelled functions read.
structure Settings (R : Type) where
  scoreDecayLambda    : R
  outboxBatchSize     : Nat := 500
  outboxRetentionDays : Nat := 7
  workerMaxRetries    : Nat := 3

section Rounding

variable {R : Type} [Field R] [LinearOrder R] [FloorRing R]

def roundHalfEven (x : R) : Int :=
  let below := x - ⌊x⌋
  if below < 1 / 2 then ⌊x⌋
  else if 1 / 2 < below then ⌊x⌋ + 1
  else if ⌊x⌋ % 2 = 0 then ⌊x⌋ else ⌊x⌋ + 1

-- Python's `round(x, digits)`.
def roundTo (digits : Nat) (x : R) : R :=
  roundHalfEven (x * 10 ^ digits) / 10 ^ digits

end Rounding

structure BreakdownEntry (R : Type) where
  channel     : String
  count       : Nat
  totalWeight : R
deriving DecidableEq

instance {R : Type} : Keyed (BreakdownEntry R) String where
  key := BreakdownEntry.channel

-- The JSON object in `channel_breakdown`, whose keys are the channels.
abbrev Breakdown (R : Type) := Table (BreakdownEntry R)

-- The second component of `compute_new_score`'s result.
structure ScoreDebug (R : Type) where
  daysSince     : R
  decayFactor   : R
  baseWeight    : R
  channelWeight : R
  eventWeight   : R
  previousScore : R
  newScore      : R

variable {R : Type} [Field R]

def baseWeights : List (String × R) := [
  ("purchase", 5.0), ("click", 2.0), ("open", 1.0), ("view", 0.8), ("delivered", 0.3),
  ("send", 0.1), ("bounce", -1.0), ("unsubscribe", -3.0), ("complaint", -5.0)
]

def channelWeights : List (String × R) :=
  [("email", 1.0), ("sms", 1.2), ("whatsapp", 1.3), ("push", 0.9), ("web", 1.1)]

def totalSeconds (delta : Int) : R :=
  delta / 1000000

variable [LinearOrder R] [MathExp R]

open MathExp (exp)

def daysBetween (a b : Timestamp) : R :=
  |totalSeconds (b - a)| / 86400

def scoreAt (settings : Settings R) (score : R) (lastUpdated : Option Timestamp)
    (now : Timestamp) : R :=
  let days := match lastUpdated with
    | some t => max 0 (totalSeconds (now - t) / 86400)
    | none   => 0
  let value := score * exp (-settings.scoreDecayLambda * days)
  max (-50) (min 200 value)

variable [Runtime]

def baseWeight (eventType : String) : R :=
  (baseWeights.lookup (lower eventType)).getD 0.5

def channelWeight (channel : String) : R :=
  (channelWeights.lookup (lower channel)).getD 1.0

def eventWeight (eventType channel : String) : R :=
  baseWeight eventType * channelWeight channel

variable [FloorRing R]

def computeNewScore (settings : Settings R) (currentScore : R) (lastUpdated : Option Timestamp)
    (eventType channel : String) (eventTs : Timestamp) (lambda : Option R := none) :
    R × ScoreDebug R :=
  let rate   := lambda.getD settings.scoreDecayLambda
  let weight := eventWeight eventType channel
  let days   := match lastUpdated with
    | some t => daysBetween t eventTs
    | none   => 0
  let decay  := exp (-rate * days)
  let newScore := match lastUpdated with
    | none   => weight
    | some t => if eventTs < t then currentScore + weight * decay else currentScore * decay + weight
  (newScore, {
    daysSince     := roundTo 4 days
    decayFactor   := roundTo 6 decay
    baseWeight    := baseWeight eventType
    channelWeight := channelWeight channel
    eventWeight   := weight
    previousScore := currentScore
    newScore      := newScore
  })

omit [MathExp R] in
-- The event type is an argument of the source function too, which does not read it either.
def updateChannelBreakdown (breakdown : Option (Breakdown R)) (channel _eventType : String)
    (weight : R) : Breakdown R :=
  let breakdown := breakdown.getD ∅
  let entry := (breakdown.get (lower channel)).getD ⟨lower channel, 0, 0⟩
  breakdown.upsert {
    channel     := lower channel
    count       := entry.count + 1
    totalWeight := roundTo 4 (entry.totalWeight + weight)
  }

end MarTech
