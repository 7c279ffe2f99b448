import Mathlib.Algebra.Order.Group.Defs

namespace MarTech

-- The breaker's settings, with the bound that the configuration puts on the threshold. `T` are the
-- readings of `time.monotonic`.
structure BreakerSettings (T : Type) where
  threshold : Nat
  cooldown  : T
  threshold_bound : 1 ≤ threshold

structure AnalysisService (T : Type) where
  failures : Nat
  openedAt : Option T
  probing  : Bool

-- What becomes of the awaited call of the provider. A timeout is a failure.
inductive Awaited (α : Type)
  | success (analysis : α)
  | failure
  | cancelled

-- The functions of a request's context that `analyze` uses.
structure Assessment (α : Type) where
  -- `rule_based_summary(context)`
  fallback : α
  -- The copy of a response that is returned: with the facts of the fallback, grounded, and with its
  -- confidence recalibrated. If this raises it is caught like a failure of the provider.
  assess : α → Option α

def Assessment.awaited {α : Type} (assessment : Assessment α) : Awaited α → Awaited α
  | .success analysis => (assessment.assess analysis).elim .failure .success
  | .failure          => .failure
  | .cancelled        => .cancelled

inductive Answer (α : Type)
  | response (analysis : α)
  | cancelled

variable {T α : Type} [AddGroup T] [LinearOrder T]

namespace AnalysisService

def init : AnalysisService T where
  failures := 0
  openedAt := none
  probing  := false

-- The first section under the lock: whether the provider is called, and then whether as a probe.
def gate (settings : BreakerSettings T) (service : AnalysisService T) (now : T) :
    AnalysisService T × Option Bool :=
  match service.openedAt with
  | none => (service, some false)
  | some openedAt =>
    if service.probing ∨ now - openedAt < settings.cooldown then
      (service, none)
    else
      ({ service with probing := true }, some true)

-- The handlers of what the body of `try` comes to.
def record (settings : BreakerSettings T) (service : AnalysisService T) (probe : Bool)
    (outcome : Awaited α) (now : T) : AnalysisService T :=
  match outcome with
  | .cancelled => service
  | .failure =>
    let failures := service.failures + 1
    let openedAt := if probe ∨ settings.threshold ≤ failures then some now else service.openedAt
    { service with failures, openedAt }
  | .success _ =>
    if probe ∨ service.openedAt = none then
      { service with failures := 0, openedAt := none }
    else
      service

-- The `finally` clause.
def release (service : AnalysisService T) (probe : Bool) : AnalysisService T :=
  if probe then { service with probing := false } else service

end AnalysisService

-- A call of `analyze` that is suspended at `provider.generate`.
structure InFlight (α : Type) where
  assessment : Assessment α
  probe      : Bool

def InFlight.answer {α : Type} (call : InFlight α) : Awaited α → Answer α
  | .success analysis => .response analysis
  | .failure          => .response call.assessment.fallback
  | .cancelled        => .cancelled

-- A process: its service and the calls in flight. The lock is never held across a suspension and
-- so never contended, hence a call takes two steps, up to the await and from there.
structure Process (T α : Type) where
  service  : AnalysisService T
  inFlight : List (InFlight α)

inductive Turn (T α : Type)
  | enter (assessment : Assessment α) (provider : Bool) (now : T)
  | resume (position : Nat) (awaited : Awaited α) (now : T)

namespace Process

def init : Process T α where
  service  := .init
  inFlight := []

-- A call of `analyze`, up to the point at which it suspends or answers with the fallback.
def enter (settings : BreakerSettings T) (process : Process T α) (assessment : Assessment α)
    (provider : Bool) (now : T) : Process T α × Option (Answer α) :=
  if provider then
    match process.service.gate settings now with
    | (service, none) =>
      ({ process with service }, some <| .response assessment.fallback)
    | (service, some probe) =>
      ({ service, inFlight := process.inFlight ++ [⟨assessment, probe⟩] }, none)
  else
    (process, some <| .response assessment.fallback)

-- The rest of the call at the given position among those in flight.
def resume (settings : BreakerSettings T) (process : Process T α) (position : Nat)
    (awaited : Awaited α) (now : T) : Process T α × Option (Answer α) :=
  match process.inFlight[position]? with
  | none      => (process, none)
  | some call =>
    let outcome := call.assessment.awaited awaited
    let service := process.service.record settings call.probe outcome now
    ({ service  := service.release call.probe
       inFlight := process.inFlight.eraseIdx position }, some <| call.answer outcome)

def turn (settings : BreakerSettings T) (process : Process T α) : Turn T α → Process T α
  | .enter assessment provider now => (process.enter settings assessment provider now).1
  | .resume position awaited now   => (process.resume settings position awaited now).1

def run (settings : BreakerSettings T) (turns : List (Turn T α)) : Process T α :=
  turns.foldl (turn settings) init

end Process
end MarTech
