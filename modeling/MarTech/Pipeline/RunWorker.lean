import MarTech.Pipeline.Worker

namespace MarTech

-- What an awaited call raises. `except Exception` does not catch the cancellation of the task.
inductive Exn
  | exception (error : Error)
  | cancelled

-- A call that raises may have taken effect before it does.
structure Fault where
  exn     : Exn
  applied : Bool

abbrev Message := MessageId × Json.Object

-- How an awaited call turns out: what other sessions have committed when it takes effect, what it
-- raises, and the clock readings, keys and answers of the queue that it depends on. The query of
-- `fail_event` has missed the event's row if that was inserted after it ran.
structure Await (R : Type) where
  before   : List (Db R)
  fault    : Option Fault
  now      : Timestamp
  dlqId    : Nat
  missed   : Bool
  stream   : Stream
  messages : List Message

-- What can be seen of a run, from outside and from the database.
inductive Observation (R : Type)
  | tables (db : Db R)
  | delivered (messages : List Message)
  | attempted (index : Nat)
  | raised (index : Nat)
  | acked (index : Nat) (messageId : MessageId)

structure World (R : Type) where
  db     : Db R
  awaits : List (Await R)
  trace  : List (Observation R)

def World.start {R : Type} (db : Db R) (awaits : List (Await R)) : World R where
  db     := db
  awaits := awaits
  trace  := [.tables db]

abbrev Worker (R : Type) := EStateM Exn (World R)

namespace Worker

variable {R α : Type}

def observe (o : Observation R) : Worker R Unit :=
  modify fun w => { w with trace := w.trace ++ [o] }

def commit (db : Db R) : Worker R Unit :=
  modify fun w => { w with db := db, trace := w.trace ++ [.tables db] }

def commits : List (Db R) → Worker R Unit
  | []        => pure ()
  | db :: dbs => do
    commit db
    commits dbs

-- A run that is not followed any further is one that is cancelled.
def suspend : Worker R (Await R) := do
  match (← get).awaits with
  | []      => throw .cancelled
  | a :: as =>
    modify fun w => { w with awaits := as }
    commits a.before
    return a

def resume (a : Await R) (x : α) : Worker R α :=
  match a.fault with
  | none   => pure x
  | some f => throw f.exn

-- An awaited call that does not touch the tables.
def call (x : Await R → α) : Worker R α := do
  let a ← suspend
  resume a (x a)

-- An awaited call in a session of its own. The rows that it reads are locked until it commits, so
-- that it takes effect at one instant.
def session (body : Await R → Db R → Outcome R α) : Worker R α := do
  let a ← suspend
  match a.fault with
  | some ⟨exn, false⟩ => throw exn
  | _ =>
    match body a (← get).db with
    | .raised error    => throw (.exception error)
    | .returned x      => resume a x
    | .committed db x  =>
      commit db
      resume a x

def sleep : Worker R Unit :=
  call fun _ => ()

def ack (index : Nat) (messageId : MessageId) : Worker R Unit := do
  observe (.acked index messageId)
  call fun _ => ()

def ensureGroup : Worker R Unit :=
  call fun _ => ()

def consume : Worker R (List Message) := do
  let messages ← call (·.messages)
  observe (.delivered messages)
  return messages

section

variable [Runtime]

-- The sequence gives out no key of a row that is there.
def failEvent (payload : Json.Object) (error : Error) (retries : Nat) : Worker R Unit :=
  session fun a db =>
    if (db.dlqEvents.get a.dlqId).isSome then
      .raised uniqueViolation
    else if a.missed then
      .committed (deadLetter db none (payloadEventId payload) payload error retries a.dlqId a.now) ()
    else
      MarTech.failEvent db payload error retries a.dlqId a.now

end

variable [Field R] [LinearOrder R] [FloorRing R] [MathExp R] [Runtime] (settings : Settings R)

def processOneEvent (payload : Json.Object) : Worker R Unit :=
  session fun a db => MarTech.processOneEvent settings db payload a.now

def reconcileOutbox : Worker R Nat :=
  session fun a db => (MarTech.reconcileOutbox settings db a.stream a.now).1

-- The loop over the attempts, which ends when one of them or `fail_event` returns.
def attempts (index : Nat) (payload : Json.Object) : List Nat → Worker R Unit
  | []              => pure ()
  | attempt :: rest => do
    observe (.attempted index)
    tryCatch (processOneEvent settings payload) fun
      | .cancelled       => throw .cancelled
      | .exception error =>
        if attempt = settings.workerMaxRetries then
          failEvent payload error attempt
        else do
          sleep
          attempts index payload rest

-- The handler only observes what the attempts raise.
def handle (index : Nat) (payload : Json.Object) : Worker R Unit :=
  tryCatch (attempts settings index payload (List.range (settings.workerMaxRetries + 1)))
    fun exn => do
      observe (.raised index)
      throw exn

def handleMessages : Nat → List Message → Worker R Unit
  | _, []                                => pure ()
  | index, (messageId, payload) :: rest => do
    handle settings index payload
    ack index messageId
    handleMessages (index + 1) rest

def iteration : Worker R Unit := do
  ensureGroup
  let _ ← reconcileOutbox settings
  let messages ← consume
  handleMessages settings 0 messages

-- `run_worker`, up to the iteration after which the stop event is seen.
def runWorker : Nat → Worker R Unit
  | 0     => pure ()
  | n + 1 => do
    tryCatch (iteration settings) fun
      | .cancelled   => throw .cancelled
      | .exception _ => sleep
    runWorker n

end Worker
end MarTech
