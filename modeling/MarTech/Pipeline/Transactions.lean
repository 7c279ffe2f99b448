import MarTech.Library.Session
import MarTech.Pipeline.Ingest
import MarTech.Pipeline.Worker
import MarTech.Pipeline.Replay

namespace MarTech

-- The rows that a statement locks, and the keys that an uncommitted `INSERT` keeps others from.
inductive Lock
  | event (eventId : String)
  | customer (customerId : String)
  | engagement (customerId : String)
  | letter (dlqId : Nat)
  | outbox (outboxId : Nat)
deriving DecidableEq

-- The tables, and the events and ids of all rows that the outbox has ever had, the newest first. The
-- sequence behind the ids gives none of them out again.
structure Tables (R : Type) where
  db    : Db R
  drawn : List (String × Nat)

inductive Reply
  | done
  | replay (answer : ReplayAnswer)
  | event (answer : EventAccepted)
  | batch (answer : BatchEventOut)
  | published (count : Nat)

abbrev Transaction (R : Type) := Program (Tables R) Lock (Except Error Reply)

-- The transactions of the consumer, with the keys that they draw and the clock readings they make.
inductive Consumption
  | processOneEvent (payload : Json.Object) (now : Timestamp)
  | failEvent (payload : Json.Object) (error : Error) (retries : Nat) (dlqId : Nat) (now : Timestamp)
  | replayDlq (dlqId outboxId : Nat) (now : Timestamp)

-- What the queue does about a row of the outbox: whether it still has the row's message, and the id
-- under which it takes another one, unless it raises. Nothing is assumed about it.
structure Queue where
  contains : MessageId → Bool
  enqueue  : EventOutbox → Except Error MessageId

inductive Call
  | consume (call : Consumption)
  | ingestEvent (body : EventIn) (fault : Option PersistStatement) (outboxId : Nat) (now : Timestamp)
  | ingestBatch (items : List BatchItem) (outboxIds : Nat → Nat) (now : Timestamp)
  | reconcileOutbox (queue : Queue) (now : Timestamp)
  | cleanupOutbox (now : Timestamp)

variable {R : Type}

namespace Tables

def modify (f : Db R → Db R) (s : Tables R) : Tables R :=
  { s with db := f s.db }

def enqueueOutbox (eventId : String) (payload : Json.Object) (id : Nat) (now : Timestamp)
    (s : Tables R) : Tables R where
  db    := MarTech.enqueueOutbox s.db eventId payload id now
  drawn := (eventId, id) :: s.drawn

def taken (s : Tables R) (id : Nat) : Bool :=
  s.drawn.any (·.2 = id)

end Tables

namespace Transaction

open Program

-- `SELECT ... FOR UPDATE` of the event.
def selectEvent (eventId : String) (next : Option Event → Transaction R) : Transaction R :=
  select (fun s => if (s.db.events.get eventId).isSome then [.event eventId] else []) fun s =>
    next (s.db.events.get eventId)

-- `SELECT ... FOR UPDATE` of the customer.
def selectCustomer (customerId : String) (next : Option Customer → Transaction R) : Transaction R :=
  select (fun s => if (s.db.customers.get customerId).isSome then [.customer customerId] else [])
    fun s => next (s.db.customers.get customerId)

-- `EngagementRepo.get`, which locks nothing.
def selectEngagement (customerId : String) (next : Option (EngagementScore R) → Transaction R) :
    Transaction R :=
  select (fun _ => []) fun s => next (s.db.engagementScores.get customerId)

def selectLetter (dlqId : Nat) (next : Option DLQEvent → Transaction R) : Transaction R :=
  select (fun _ => []) fun s => next (s.db.dlqEvents.get dlqId)

def selectLetterForUpdate (dlqId : Nat) (next : Option DLQEvent → Transaction R) : Transaction R :=
  select (fun s => if (s.db.dlqEvents.get dlqId).isSome then [.letter dlqId] else []) fun s =>
    next (s.db.dlqEvents.get dlqId)

def updateEvent (eventId : String) (f : Event → Event) (next : Transaction R) : Transaction R :=
  write [.event eventId] (Tables.modify fun db => { db with events := db.events.update eventId f })
    next

-- `move_to_dlq`, with the id that the sequence gave out for the row.
def insertLetter (eventId : String) (payload : Json.Object) (reason : String) (retryCount : Nat)
    (id : Nat) (now : Timestamp) (next : Except Error Unit → Transaction R) : Transaction R :=
  exec (fun _ => [.letter id])
      (Tables.modify (moveToDlq · eventId payload reason retryCount id now)) fun s =>
    next <| if (s.db.dlqEvents.get id).isSome then .error uniqueViolation else .ok ()

-- `INSERT INTO event_outbox`, with the id that the sequence gave out for it.
def insertOutbox {ο : Type} (eventId : String) (payload : Json.Object) (id : Nat) (now : Timestamp)
    (next : Except Error Unit → Program (Tables R) Lock ο) : Program (Tables R) Lock ο :=
  exec (fun _ => [.outbox id]) (Tables.enqueueOutbox eventId payload id now) fun s =>
    next <| if s.taken id then .error uniqueViolation else .ok ()

section Consumer

variable [Field R] [LinearOrder R] [FloorRing R] [MathExp R] [Runtime] (settings : Settings R)

def processOneEvent (payload : Json.Object) (now : Timestamp) : Transaction R :=
  match EventIn.modelValidate payload with
  | none => .rollback (.error validationError)
  | some body => selectEvent body.eventId fun
    | none => .rollback (.error noDurableRecord)
    | some evt =>
      if evt.status = .processed ∨ evt.status = .failed then
        .rollback (.ok .done)
      else selectCustomer evt.customerId fun
        | none => .rollback (.error noResultFound)
        | some customer => selectEngagement evt.customerId fun eng =>
          -- The upsert is sent at once, and the commit flushes the assignments to the two rows.
          write [.engagement evt.customerId] (Tables.modify fun db => { db with
            engagementScores := db.engagementScores.upsert (engagementAfter settings evt eng) }) <|
          write [.customer evt.customerId] (Tables.modify fun db => { db with
            customers := db.customers.update evt.customerId (customerAfter evt customer) }) <|
          updateEvent evt.eventId
            (fun row => { row with status := .processed, processedAt := some now }) <|
          .commit (.ok .done)

end Consumer

section Failure

variable [Runtime]

def failEvent (payload : Json.Object) (error : Error) (retries : Nat) (dlqId : Nat)
    (now : Timestamp) : Transaction R :=
  let eventId := payloadEventId payload
  selectEvent eventId fun evt =>
    if evt.any fun evt => evt.status = .processed || evt.status = .failed then
      .rollback (.ok .done)
    else insertLetter eventId payload error.text retries dlqId now fun
      | .error error => .rollback (.error error)
      | .ok ()       => match evt with
        | none   => .commit (.ok .done)
        | some _ =>
          updateEvent eventId (fun row => { row with status := .failed }) <| .commit (.ok .done)

-- The first read takes no lock, since the event has to be locked before the row.
def replayDlq (dlqId : Nat) (outboxId : Nat) (now : Timestamp) : Transaction R :=
  selectLetter dlqId fun
  | none     => .rollback (.error dlqNotFound)
  | some row => selectEvent row.eventId fun evt => selectLetterForUpdate dlqId fun
    | none     => .rollback (.error noResultFound)
    | some row =>
      if row.replayedAt.isSome then
        .rollback (.ok (.replay ⟨"already_requeued", row.eventId, dlqId⟩))
      else match evt.filter (·.status = .failed) with
        | none     => .rollback (.error eventNotReplayable)
        | some evt => match evt.toEventIn with
          | none      => .rollback (.error validationError)
          | some body =>
            updateEvent evt.eventId
              (fun row => { row with status := .pending, processedAt := none }) <|
            write [.letter row.id] (Tables.modify fun db => { db with
              dlqEvents := db.dlqEvents.update row.id fun row =>
                { row with replayedAt := some now } }) <|
            insertOutbox evt.eventId body.modelDump outboxId now fun
            | .error error => .rollback (.error error)
            | .ok ()       => .commit (.ok (.replay ⟨"requeued", row.eventId, dlqId⟩))

end Failure

section Ingestion

variable [Runtime]

-- An `INSERT ... ON CONFLICT DO NOTHING` locks the key unless there is a row already.
def persistOne {ο : Type} (body : EventIn) (fault : Option PersistStatement) (outboxId : Nat)
    (now : Timestamp) (next : Except Error PersistOutcome → Program (Tables R) Lock ο) :
    Program (Tables R) Lock ο :=
  if fault = some .insertCustomer then
    next (.error databaseError)
  else
    exec (fun s =>
        if (s.db.customers.get body.customerId).isSome then [] else [.customer body.customerId])
      (Tables.modify (ensureCustomer · body.customerId now)) fun _ =>
    if fault = some .insertEvent then
      next (.error databaseError)
    else
      exec (fun s => if (s.db.events.get body.eventId).isSome then [] else [.event body.eventId])
        (Tables.modify fun db => { db with events := db.events.insert body.row }) fun s =>
      if (s.db.events.get body.eventId).isSome then
        next (.ok .duplicate)
      else
        insertOutbox body.eventId body.modelDump outboxId now fun
        | .error error => next (.error error)
        | .ok ()       => next (.ok .accepted)

def ingestEvent (body : EventIn) (fault : Option PersistStatement) (outboxId : Nat)
    (now : Timestamp) : Transaction R :=
  persistOne body fault outboxId now fun
  | .error _    => .rollback (.error persistFailed)
  | .ok outcome =>
    if fault = some .flush then
      .rollback (.error persistFailed)
    else
      .commit (.ok (.event (outcome.answer body)))

-- The loop of `ingest_batch`, each turn of which is a savepoint.
def ingestItems (outboxIds : Nat → Nat) (now : Timestamp) :
    List (BatchItem × Nat) → BatchEventOut → Transaction R
  | [], out => .commit (.ok (.batch out))
  | (item, index) :: items, out =>
    .savepoint <| persistOne item.body item.fault (outboxIds out.accepted) now fun
    | .error _    => .undo (ingestItems outboxIds now items (out.reject index item.body))
    | .ok outcome =>
      if item.fault = some .flush then
        .undo (ingestItems outboxIds now items (out.reject index item.body))
      else
        ingestItems outboxIds now items (out.count outcome)

def ingestBatch (items : List BatchItem) (outboxIds : Nat → Nat) (now : Timestamp) :
    Transaction R :=
  ingestItems outboxIds now items.zipIdx {}

end Ingestion

section Reconcile

variable (settings : Settings R) (now : Timestamp)

-- The rows are chosen when the `DELETE` starts. It waits for the locks on them, and what another
-- transaction has committed by then about their events makes no difference any more.
def deleteRows (next : Transaction R) : List Nat → Transaction R
  | []        => next
  | id :: ids =>
    write [.outbox id] (Tables.modify fun db => { db with
      eventOutbox := db.eventOutbox.delete (·.id = id) }) (deleteRows next ids)

def cleanupOutbox (next : Transaction R) : Transaction R :=
  select (fun _ => []) fun s =>
    deleteRows next <| (s.db.eventOutbox.rows.filter (expired settings s.db now)).map (·.id)

-- The message to record for the row, and the number of messages sent for it.
def publishRow (queue : Queue) (row : EventOutbox) : Except Error (MessageId × Nat) :=
  match row.messageId with
  | some messageId =>
    if queue.contains messageId then .ok (messageId, 0) else (queue.enqueue row).map (·, 1)
  | none           => (queue.enqueue row).map (·, 1)

-- The loop of `reconcile_outbox`.
def publishRows (queue : Queue) (next : Nat → Transaction R) : Nat → List EventOutbox → Transaction R
  | count, []          => next count
  | count, row :: rows =>
    match publishRow queue row with
    | .error error          => .rollback (.error error)
    | .ok (messageId, n) =>
      write [.outbox row.id] (Tables.modify (markPublished · row.id messageId now)) <|
        publishRows queue next (count + n) rows

def reconcileOutbox (queue : Queue) : Transaction R :=
  skipLocked (fun s =>
      (claimUnpublished s.db s.db.eventOutbox.rows.length now).map fun row => .outbox row.id)
    settings.outboxBatchSize fun locks s =>
  let rows := claimUnpublished s.db settings.outboxBatchSize now fun id => .outbox id ∉ locks
  publishRows now queue (fun count => cleanupOutbox settings now (.commit (.ok (.published count)))) 0
    rows

end Reconcile
end Transaction

variable [Field R] [LinearOrder R] [FloorRing R] [MathExp R] [Runtime]

def Consumption.transaction (settings : Settings R) : Consumption → Transaction R
  | processOneEvent payload now => .processOneEvent settings payload now
  | failEvent payload error retries dlqId now => .failEvent payload error retries dlqId now
  | replayDlq dlqId outboxId now => .replayDlq dlqId outboxId now

def Call.transaction (settings : Settings R) : Call → Transaction R
  | consume call => call.transaction settings
  | ingestEvent body fault outboxId now => .ingestEvent body fault outboxId now
  | ingestBatch items outboxIds now => .ingestBatch items outboxIds now
  | reconcileOutbox queue now => .reconcileOutbox settings now queue
  | cleanupOutbox now => .cleanupOutbox settings now (.commit (.ok .done))

end MarTech
