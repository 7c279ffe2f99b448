import MarTech.Pipeline.Reconcile

namespace MarTech

variable {R : Type}

-- The stream is empty once Redis has lost its memory. Ids are not given out again.
def Stream.lose (stream : Stream) : Stream :=
  { stream with entries := [] }

-- The events that a transaction is asked to store.
def Op.bodies : Op → List EventIn
  | ingestEvent body ..  => [body]
  | ingestBatch items .. => items.map (·.body)
  | _                    => []

-- The datetime comes back from its form in `model_dump(mode="json")` as it was.
def EventIn.Lossless [Runtime] (body : EventIn) : Prop :=
  parseDatetime (.str (dumpDatetime body.timestamp)) = some body.timestamp

namespace Workers

-- What can happen to the whole system: one of its parties goes on, or Redis loses its memory.
inductive Happening
  | turn (turn : Turn)
  | lose

def Happening.bodies : Happening → List EventIn
  | turn (.transact op _) => op.bodies
  | _                     => []

-- An event comes in on its own, or is processed, and no statement fails.
def Happening.ingest (body : EventIn) (now : Timestamp) : Happening :=
  .turn (.transact (.ingestEvent body none now) rfl)

def Happening.process [Runtime] (body : EventIn) (now : Timestamp) : Happening :=
  .turn (.transact (.processOneEvent body.modelDump now) rfl)

variable [Field R] [LinearOrder R] [FloorRing R] [MathExp R] [Runtime] (settings : Settings R)

def happen (s : Workers R) : Happening → Workers R
  | .turn turn => s.turn settings turn
  | .lose      => { s with stream := s.stream.lose }

def history (s : Workers R) (happenings : List Happening) : Workers R :=
  happenings.foldl (happen settings) s

end Workers

-- What `consume` answers, given the stream.
abbrev Consume := Stream → List StreamEntry

-- One iteration of a worker's loop: when it takes place and what its `consume` answers.
structure Poll where
  now     : Timestamp
  consume : Consume

-- `consume` answers with messages of the stream, and with some if there are any.
def Poll.Serves (poll : Poll) : Prop :=
  ∀ stream : Stream, poll.consume stream ⊆ stream.entries ∧
    (stream.entries ≠ [] → poll.consume stream ≠ [])

namespace State

-- The iteration does not come before there is anything to do: the stream has a message, or every
-- publication is more than two minutes old.
def Rested (s : State R) (poll : Poll) : Prop :=
  s.stream.entries ≠ [] ∨ ∀ row ∈ s.db.eventOutbox, publicationDue row poll.now

variable [Field R] [LinearOrder R] [FloorRing R] [MathExp R] [Runtime] (settings : Settings R)

-- What the loop over the attempts and the `ack` after it do if nothing but the message itself makes
-- them fail. Then each attempt ends as the first one did.
def handleMessage (now : Timestamp) (s : State R) (entry : StreamEntry) : State R :=
  let s := match processOneEvent settings s.db entry.payload now with
    | .raised error => s.exec settings (.failEvent entry.payload error settings.workerMaxRetries now)
    | outcome       => { s with db := outcome.db s.db }
  { s with stream := s.stream.ack entry.id }

-- An iteration that no other session interferes with. It ends early if `reconcile_outbox` raises.
def iteration (s : State R) (poll : Poll) : State R :=
  let s' := s.exec settings (.reconcileOutbox poll.now)
  match (reconcileOutbox settings s.db s.stream poll.now).1 with
  | .raised _ => s'
  | _         => (poll.consume s'.stream).foldl (handleMessage settings poll.now) s'

def iterations (s : State R) (polls : List Poll) : State R :=
  polls.foldl (iteration settings) s

-- Each iteration meets a condition on the state before it.
def Along (P : State R → Poll → Prop) : State R → List Poll → Prop
  | _, []            => True
  | s, poll :: polls => P s poll ∧ Along P (s.iteration settings poll) polls

end State
end MarTech
