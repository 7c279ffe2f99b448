import MarTech.Core.Exceptions
import MarTech.Core.RateLimit
import MarTech.Pipeline.System

namespace MarTech

structure EventStatus where
  eventId     : String
  status      : Status
  processedAt : Option Timestamp
deriving DecidableEq

-- `GET /events/{event_id}`
def eventStatus {R : Type} (db : Db R) (eventId : String) : Except AppError EventStatus :=
  match db.events.get eventId with
  | none     => .error <| notFoundError "Event not found" "event_not_found"
  | some evt => .ok ⟨evt.eventId, evt.status, evt.processedAt⟩

-- The bodies of the requests that store events, with the bounds on the length of a batch.
inductive IngestBody
  | event (body : EventIn)
  | batch (events : List EventIn) (bounds : 1 ≤ events.length ∧ events.length ≤ 500)

namespace IngestBody

-- What the endpoints pass to the limiter as `cost`.
def cost : IngestBody → Nat
  | event _        => 1
  | batch events _ => events.length

-- The transaction, with the statements at which its items fail, and whether the commit succeeds.
def op (faults : List (Option PersistStatement)) (commits : Bool) (now : Timestamp) : IngestBody → Op
  | event body     => .ingestEvent body (if commits then faults.head?.join else some .flush) now
  | batch events _ =>
    .ingestBatch (events.zipIdx.map fun (body, i) => ⟨body, (faults[i]?).join⟩) commits now

end IngestBody

-- A request that stores events, with what the limiter reads.
structure IngestRequest (T : Type) where
  host       : Option String
  now        : T
  uuid       : String
  connection : Connection := .ok
  body       : IngestBody

def IngestRequest.call {T : Type} (request : IngestRequest T) : RateLimitCall T where
  host       := request.host
  cost       := request.body.cost
  now        := request.now
  uuid       := request.uuid
  connection := request.connection

-- How many events the answer to a transaction says have been accepted.
def State.accepts {R : Type} [Runtime] (s : State R) : Op → Nat
  | .ingestEvent body fault now =>
    let answer := (ingestEvent s.db body fault s.sequences.eventOutbox now).answer
    if answer.any (·.status = "accepted") then 1 else 0
  | .ingestBatch items commits now =>
    (ingestBatch s.db items commits (s.sequences.eventOutbox + ·) now).answer.elim 0 (·.accepted)
  | _ => 0

-- The endpoints that store events in front of the rest of the system. `waiting` are the requests that
-- the limiter has let through and whose transactions are still to come, and `answered` those that have
-- been answered after that, each with how many events it has been told are accepted.
structure Ingestion (T R : Type) where
  limiter  : Limiter T
  workers  : Workers R
  waiting  : List (IngestRequest T)
  answered : List (IngestRequest T × Nat)

namespace Ingestion

inductive Turn (T : Type)
  | arrive (request : IngestRequest T)
  | persist (position : Nat) (faults : List (Option PersistStatement)) (commits : Bool)
    (now : Timestamp)
  | happen (happening : Workers.Happening) (other : happening.bodies = [])

def Turn.call {T : Type} : Turn T → Option (RateLimitCall T)
  | arrive request => some request.call
  | _              => none

variable {T R : Type}

def start [Ring T] (workers : Workers R) : Ingestion T R where
  limiter  := .start
  workers  := workers
  waiting  := []
  answered := []

variable [Ring T] [LinearOrder T] (rateLimitEventsPerMin : Nat)

-- `rate_limit_events`, with which both endpoints begin.
def arrive (s : Ingestion T R) (request : IngestRequest T) : Ingestion T R :=
  let limiter := s.limiter.serve rateLimitEventsPerMin request.call
  match (rateLimitEvents rateLimitEventsPerMin s.limiter.redis request.call).2 with
  | .error _ => { s with limiter }
  | .ok _    => { s with limiter, waiting := s.waiting ++ [request] }

variable [Field R] [LinearOrder R] [FloorRing R] [MathExp R] [Runtime] (settings : Settings R)

-- The rest of the endpoint, for the request at the given position among those that wait.
def persist (s : Ingestion T R) (position : Nat) (faults : List (Option PersistStatement))
    (commits : Bool) (now : Timestamp) : Ingestion T R :=
  match s.waiting[position]? with
  | none         => s
  | some request =>
    let op := request.body.op faults commits now
    { s with
      workers  := { s.workers with toState := s.workers.toState.exec settings op }
      waiting  := s.waiting.eraseIdx position
      answered := s.answered ++ [(request, s.workers.toState.accepts op)] }

def turn (s : Ingestion T R) : Turn T → Ingestion T R
  | .arrive request                      => s.arrive rateLimitEventsPerMin request
  | .persist position faults commits now => s.persist settings position faults commits now
  | .happen happening _                  =>
    { s with workers := s.workers.happen settings happening }

def run (workers : Workers R) (turns : List (Turn T)) : Ingestion T R :=
  turns.foldl (turn rateLimitEventsPerMin settings) (start workers)

end Ingestion
end MarTech
