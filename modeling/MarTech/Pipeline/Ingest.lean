import MarTech.Pipeline.Outbox

namespace MarTech

variable {R : Type}

-- The points at which the database can fail a submission. The `INSERT` of the outbox row is sent
-- by `session.flush()`, or by the commit where there is no flush before it.
inductive PersistStatement
  | insertCustomer
  | insertEvent
  | flush
deriving DecidableEq

inductive PersistOutcome
  | accepted
  | duplicate
deriving DecidableEq

def EventIn.row (body : EventIn) : Event where
  eventId     := body.eventId
  customerId  := body.customerId
  channel     := body.channel.value
  eventType   := body.eventType.value
  timestamp   := body.timestamp
  metadata    := body.metadata
  processedAt := none
  status      := .pending

def ensureCustomer (db : Db R) (customerId : String) (now : Timestamp) : Db R :=
  { db with customers := db.customers.insert (.new customerId now) }

theorem ensureCustomer_customers_get (db : Db R) (customerId now id) :
    (ensureCustomer db customerId now).customers.get id =
      (db.customers.get id).or (if customerId = id then some (.new customerId now) else none) :=
  Table.get_insert ..

theorem ensureCustomer_owned (db : Db R) (customerId : String) (now : Timestamp) :
    ((ensureCustomer db customerId now).customers.get customerId).isSome := by
  rw [ensureCustomer_customers_get]
  cases db.customers.get customerId <;> simp

-- The event and its outbox row, which one transaction writes.
def acceptEvent (db : Db R) (body : EventIn) (payload : Json.Object) (outboxId : Nat)
    (now : Timestamp) : Db R :=
  enqueueOutbox { db with events := db.events.insert body.row } body.eventId payload outboxId now

theorem acceptEvent_events_get (db : Db R) {body : EventIn}
    (h : db.events.get body.eventId = none) (payload outboxId now id) :
    (acceptEvent db body payload outboxId now).events.get id =
      if body.eventId = id then some body.row else db.events.get id :=
  Table.get_insert_of_none (r := body.row) h id

variable [Runtime]

def databaseError : Error where
  code := "database_error"
  text := "database error"

def persistOne (db : Db R) (body : EventIn) (fault : Option PersistStatement) (outboxId : Nat)
    (now : Timestamp) : Except Error (Db R × PersistOutcome) :=
  if fault = some .insertCustomer then
    .error databaseError
  else
    let db := ensureCustomer db body.customerId now
    if fault = some .insertEvent then
      .error databaseError
    else if (db.events.get body.eventId).isSome then
      .ok (db, .duplicate)
    else
      .ok (acceptEvent db body body.modelDump outboxId now, .accepted)

-- A submission that does not fail ensures its customer, and accepts its event unless the id is taken.
theorem persistOne_ok {db db' : Db R} {body : EventIn} {fault : Option PersistStatement} {outboxId : Nat}
    {now : Timestamp} {outcome : PersistOutcome}
    (h : persistOne db body fault outboxId now = .ok (db', outcome)) :
    match outcome with
    | .duplicate =>
      db' = ensureCustomer db body.customerId now ∧ (db.events.get body.eventId).isSome
    | .accepted =>
      db' = acceptEvent (ensureCustomer db body.customerId now) body body.modelDump outboxId now ∧
        db.events.get body.eventId = none := by
  simp only [persistOne] at h
  split at h
  case isTrue => cases h
  case isFalse =>
    split at h
    case isTrue => cases h
    case isFalse =>
      split at h
      case isTrue he  => cases h; exact ⟨rfl, he⟩
      case isFalse he => cases h; exact ⟨rfl, by simpa [ensureCustomer] using he⟩

structure EventAccepted where
  eventId : String
  status  : String := "accepted"
  message : String := "Event enqueued for processing"

def persistFailed : Error where
  code := "persist_failed"
  text := "Unable to persist event"

def PersistOutcome.answer (outcome : PersistOutcome) (body : EventIn) : EventAccepted :=
  match outcome with
  | accepted  => { eventId := body.eventId }
  | duplicate => {
      eventId := body.eventId
      status  := "duplicate"
      message := "Event already exists in DB" }

-- `POST /events`, once the rate limiter has admitted the request.
def ingestEvent (db : Db R) (body : EventIn) (fault : Option PersistStatement) (outboxId : Nat)
    (now : Timestamp) : Outcome R EventAccepted :=
  match persistOne db body fault outboxId now with
  | .error _ => .raised persistFailed
  | .ok (db, outcome) =>
    if fault = some .flush then .raised persistFailed else .committed db (outcome.answer body)

structure RejectedItem where
  index   : Nat
  eventId : String
  reason  : String

structure BatchEventOut where
  accepted   : Nat := 0
  duplicates : Nat := 0
  rejected   : List RejectedItem := []

namespace BatchEventOut

def count (out : BatchEventOut) : PersistOutcome → BatchEventOut
  | .accepted  => { out with accepted := out.accepted + 1 }
  | .duplicate => { out with duplicates := out.duplicates + 1 }

def reject (out : BatchEventOut) (index : Nat) (body : EventIn) : BatchEventOut :=
  { out with rejected := out.rejected ++ [⟨index, body.eventId, "Unable to persist event"⟩] }

end BatchEventOut

-- One item of a batch with the statement at which it fails, if it does.
structure BatchItem where
  body  : EventIn
  fault : Option PersistStatement

-- One turn of the loop in `ingest_batch`. An item that fails is rolled back to its savepoint. The
-- outbox rows of the batch get the ids `outboxIds 0`, `outboxIds 1`, and so on.
def ingestItem (now : Timestamp) (outboxIds : Nat → Nat) (state : Db R × BatchEventOut)
    (item : BatchItem × Nat) : Db R × BatchEventOut :=
  let (db, out) := state
  let (item, index) := item
  match persistOne db item.body item.fault (outboxIds out.accepted) now with
  | .error _ => (db, out.reject index item.body)
  | .ok (db', outcome) =>
    if item.fault = some .flush then
      (db, out.reject index item.body)
    else
      (db', out.count outcome)

-- `POST /events/batch`, once the rate limiter has admitted the request.
def ingestBatch (db : Db R) (items : List BatchItem) (commits : Bool) (outboxIds : Nat → Nat)
    (now : Timestamp) : Outcome R BatchEventOut :=
  let (db, out) := items.zipIdx.foldl (ingestItem now outboxIds) (db, {})
  if commits then
    .committed db out
  else
    .raised ⟨"batch_persist_failed", "Unable to persist batch"⟩

end MarTech
