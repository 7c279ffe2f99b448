import MarTech.Pipeline.Outbox

namespace MarTech

variable {R : Type} [Runtime]

structure ReplayAnswer where
  status  : String
  eventId : String
  dlqId   : Nat
deriving DecidableEq, Repr

-- `EventIn(...)` of the persisted fields.
def Event.toEventIn (evt : Event) : Option EventIn :=
  EventIn.validate evt.eventId evt.customerId evt.channel evt.eventType evt.timestamp evt.metadata

-- What `replay_dlq` has written when it commits.
def requeue (db : Db R) (row : DLQEvent) (evt : Event) (body : EventIn) (outboxId : Nat)
    (now : Timestamp) : Db R :=
  enqueueOutbox { db with
    events    := db.events.update evt.eventId fun row =>
      { row with status := .pending, processedAt := none }
    dlqEvents := db.dlqEvents.update row.id fun row => { row with replayedAt := some now }
  } evt.eventId body.modelDump outboxId now

section

variable (db : Db R) (row evt body outboxId now)

theorem requeue_events_get (id) :
    (requeue db row evt body outboxId now).events.get id =
      if evt.eventId = id then
        (db.events.get id).map fun row => { row with status := .pending, processedAt := none }
      else
        db.events.get id := by
  simp only [requeue, enqueueOutbox]
  exact db.events.get_update evt.eventId (by intro; rfl) id

theorem requeue_dlqEvents_get (id) :
    (requeue db row evt body outboxId now).dlqEvents.get id =
      if row.id = id then
        (db.dlqEvents.get id).map fun row => { row with replayedAt := some now }
      else
        db.dlqEvents.get id := by
  simp only [requeue, enqueueOutbox]
  exact db.dlqEvents.get_update row.id (by intro; rfl) id

end

def dlqNotFound : Error where
  code := "dlq_not_found"
  text := "DLQ entry not found"

def eventNotReplayable : Error where
  code := "event_not_replayable"
  text := "Only failed durable events can be replayed"

-- With no other session open the second read of the row, under its lock, finds what the first found.
def replayDlq (db : Db R) (dlqId : Nat) (outboxId : Nat) (now : Timestamp) :
    Outcome R ReplayAnswer :=
  match db.dlqEvents.get dlqId with
  | none     => .raised dlqNotFound
  | some row =>
    let evt := db.events.get row.eventId
    if row.replayedAt.isSome then
      .returned ⟨"already_requeued", row.eventId, dlqId⟩
    else
      match evt.filter (·.status = .failed) with
      | none     => .raised eventNotReplayable
      | some evt =>
        match evt.toEventIn with
        | none      => .raised validationError
        | some body =>
          .committed (requeue db row evt body outboxId now) ⟨"requeued", row.eventId, dlqId⟩

end MarTech
