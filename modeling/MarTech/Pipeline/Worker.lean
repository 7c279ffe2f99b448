import MarTech.Pipeline.Outbox
import MarTech.Pipeline.Stream

namespace MarTech

section Consent

-- `setattr(customer, f"{channel}_opt_in", value)`. An attribute that is no column is not stored.
def Customer.setOptIn (customer : Customer) (channel : String) (value : Bool) : Customer :=
  match channel with
  | "email"    => { customer with emailOptIn := value }
  | "sms"      => { customer with smsOptIn := value }
  | "whatsapp" => { customer with whatsappOptIn := value }
  | "push"     => { customer with pushOptIn := value }
  | _          => customer

-- Every column but the consents is left alone.
theorem Customer.setOptIn_frame (customer : Customer) (channel value) :
    (customer.setOptIn channel value).id = customer.id ∧
    (customer.setOptIn channel value).createdAt = customer.createdAt ∧
    (customer.setOptIn channel value).attributes = customer.attributes ∧
    (customer.setOptIn channel value).lastActive = customer.lastActive ∧
    (customer.setOptIn channel value).hasConverted = customer.hasConverted := by
  unfold setOptIn
  split <;> exact ⟨rfl, rfl, rfl, rfl, rfl⟩

-- Whether processing `evt` withdraws a consent.
def Event.optsOut (evt : Event) : Bool :=
  evt.eventType ∈ ["unsubscribe", "complaint"] && evt.channel ≠ "web"

-- The columns that processing `evt` assigns in the customer's row, given the row that was read.
def customerAfter (evt : Event) (customer row : Customer) : Customer :=
  let row := { row with
    lastActive := some (customer.lastActive.elim evt.timestamp (max evt.timestamp)) }
  let row := if evt.eventType = "purchase" then { row with hasConverted := true } else row
  if evt.optsOut then row.setOptIn evt.channel false else row

section

variable (evt : Event) (customer row : Customer)

@[simp]
theorem customerAfter_id : (customerAfter evt customer row).id = row.id := by
  simp only [customerAfter]
  split <;> split <;> simp [Customer.setOptIn_frame]

@[simp]
theorem customerAfter_createdAt :
    (customerAfter evt customer row).createdAt = row.createdAt := by
  simp only [customerAfter]
  split <;> split <;> simp [Customer.setOptIn_frame]

@[simp]
theorem customerAfter_attributes :
    (customerAfter evt customer row).attributes = row.attributes := by
  simp only [customerAfter]
  split <;> split <;> simp [Customer.setOptIn_frame]

@[simp]
theorem customerAfter_lastActive : (customerAfter evt customer row).lastActive =
    some (customer.lastActive.elim evt.timestamp (max evt.timestamp)) := by
  simp only [customerAfter]
  split <;> split <;> simp [Customer.setOptIn_frame]

@[simp]
theorem customerAfter_hasConverted : (customerAfter evt customer row).hasConverted =
    (row.hasConverted || evt.eventType = "purchase") := by
  simp only [customerAfter]
  split <;> split <;> simp [Customer.setOptIn_frame, *]

end

end Consent

section Consumer

variable {R : Type} [Field R] [LinearOrder R] [FloorRing R] [MathExp R] [Runtime]

-- The row that `EngagementRepo.upsert` writes for `evt`, given the row that was read before it.
def engagementAfter (settings : Settings R) (evt : Event) (eng : Option (EngagementScore R)) :
    EngagementScore R :=
  let oldTime := eng.map (·.lastUpdated)
  let (score, debug) := computeNewScore settings (eng.elim 0 (·.score)) oldTime evt.eventType
    evt.channel evt.timestamp
  { customerId       := evt.customerId
    score            := score
    lastUpdated      := oldTime.elim evt.timestamp (max evt.timestamp)
    channelBreakdown := updateChannelBreakdown (eng.map (·.channelBreakdown)) evt.channel
      evt.eventType debug.eventWeight }

-- What `process_one_event` has written when it commits.
def applyEvent (settings : Settings R) (db : Db R) (evt : Event) (customer : Customer)
    (eng : Option (EngagementScore R)) (now : Timestamp) : Db R :=
  { db with
    engagementScores := db.engagementScores.upsert (engagementAfter settings evt eng)
    customers        := db.customers.update evt.customerId (customerAfter evt customer)
    events           := db.events.update evt.eventId fun row =>
      { row with status := .processed, processedAt := some now } }

section

variable (settings : Settings R) (db : Db R)

theorem applyEvent_events_get (evt customer eng now id) :
    (applyEvent settings db evt customer eng now).events.get id =
      if evt.eventId = id then
        (db.events.get id).map
          fun row => { row with status := .processed, processedAt := some now }
      else
        db.events.get id := by
  simp only [applyEvent]
  exact db.events.get_update evt.eventId (by intro; rfl) id

theorem applyEvent_customers_get (evt customer eng now id) :
    (applyEvent settings db evt customer eng now).customers.get id =
      if evt.customerId = id then
        (db.customers.get id).map (customerAfter evt customer)
      else
        db.customers.get id := by
  simp only [applyEvent]
  exact db.customers.get_update evt.customerId (by intro; simp) id

theorem applyEvent_engagementScores_get (evt customer eng now id) :
    (applyEvent settings db evt customer eng now).engagementScores.get id =
      if evt.customerId = id then some (engagementAfter settings evt eng)
      else db.engagementScores.get id :=
  Table.get_upsert ..

end

def noDurableRecord : Error where
  code := "ValueError"
  text := "Queue event has no durable database record"

-- What `scalar_one` raises.
def noResultFound : Error where
  code := "NoResultFound"
  text := "No row was found when one was required"

def processOneEvent (settings : Settings R) (db : Db R) (payload : Json.Object)
    (now : Timestamp) : Outcome R Unit :=
  match EventIn.modelValidate payload with
  | none => .raised validationError
  | some body =>
    match db.events.get body.eventId with
    | none => .raised noDurableRecord
    | some evt =>
      if evt.status = .processed ∨ evt.status = .failed then
        .returned ()
      else
        match db.customers.get evt.customerId with
        | none => .raised noResultFound
        | some customer =>
          let eng := db.engagementScores.get evt.customerId
          .committed (applyEvent settings db evt customer eng now) ()

end Consumer

section Failure

variable {R : Type}

def moveToDlq (db : Db R) (eventId : String) (payload : Json.Object) (reason : String)
    (retryCount : Nat) (id : Nat) (now : Timestamp) : Db R :=
  { db with dlqEvents := db.dlqEvents.insert {
      id            := id
      eventId       := eventId
      payload       := payload
      failureReason := reason
      retryCount    := retryCount
      replayedAt    := none
      failedAt      := now } }

-- What `fail_event` has written when it commits, given the row that its first query found.
def deadLetter (db : Db R) (evt : Option Event) (eventId : String) (payload : Json.Object)
    (error : Error) (retries : Nat) (dlqId : Nat) (now : Timestamp) : Db R :=
  let db := moveToDlq db eventId payload error.text retries dlqId now
  match evt with
  | none   => db
  | some _ => { db with events := db.events.update eventId fun row => { row with status := .failed } }

section

variable (db : Db R) (evt eventId payload error retries dlqId now)

theorem deadLetter_events_get (id) :
    (deadLetter db evt eventId payload error retries dlqId now).events.get id =
      if evt.isSome ∧ eventId = id then
        (db.events.get id).map fun row => { row with status := .failed }
      else
        db.events.get id := by
  cases evt
  case none   => simp [deadLetter, moveToDlq]
  case some e =>
    simp only [deadLetter, moveToDlq, Option.isSome_some, true_and]
    exact db.events.get_update eventId (by intro; rfl) id

@[simp]
theorem deadLetter_customers :
    (deadLetter db evt eventId payload error retries dlqId now).customers = db.customers := by
  cases evt <;> rfl

@[simp]
theorem deadLetter_engagementScores :
    (deadLetter db evt eventId payload error retries dlqId now).engagementScores =
      db.engagementScores := by
  cases evt <;> rfl

@[simp]
theorem deadLetter_eventOutbox :
    (deadLetter db evt eventId payload error retries dlqId now).eventOutbox = db.eventOutbox := by
  cases evt <;> rfl

@[simp]
theorem deadLetter_dlqEvents :
    (deadLetter db evt eventId payload error retries dlqId now).dlqEvents =
      (moveToDlq db eventId payload error.text retries dlqId now).dlqEvents := by
  cases evt <;> rfl

end

variable [Runtime]

def failEvent (db : Db R) (payload : Json.Object) (error : Error) (retries : Nat) (dlqId : Nat)
    (now : Timestamp) : Outcome R Unit :=
  let eventId := payloadEventId payload
  let evt := db.events.get eventId
  if evt.any fun evt => evt.status = .processed || evt.status = .failed then
    .returned ()
  else
    .committed (deadLetter db evt eventId payload error retries dlqId now) ()

end Failure

section Reconcile

variable {R : Type}

-- One turn of the loop in `reconcile_outbox`, up to the `mark_published` that ends it: the id to
-- record, the stream, and the number of entries published. `row.payload["customer_id"]` may raise.
def publishRow (stream : Stream) (row : EventOutbox) : Except Error (MessageId × Stream × Nat) :=
  let publish : Except Error (MessageId × Stream × Nat) :=
    match row.payload.get "customer_id" with
    | none            => .error ⟨"KeyError", "'customer_id'"⟩
    | some customerId =>
      let (stream, messageId) := stream.enqueue customerId row.payload
      .ok (messageId, stream, 1)
  match row.messageId with
  | some messageId => if stream.contains messageId then .ok (messageId, stream, 0) else publish
  | none           => publish

-- What has reached the stream stays there if a later row raises.
def publishRows (now : Timestamp) : Db R → Stream → List EventOutbox → Except Error (Db R × Nat) × Stream
  | db, stream, []          => (.ok (db, 0), stream)
  | db, stream, row :: rows =>
    match publishRow stream row with
    | .error error => (.error error, stream)
    | .ok (messageId, stream, n) =>
      match publishRows now (markPublished db row.id messageId now) stream rows with
      | (.error error, stream)     => (.error error, stream)
      | (.ok (db, count), stream)  => (.ok (db, n + count), stream)

-- `reconcile_outbox` with no other session open.
def reconcileOutbox (settings : Settings R) (db : Db R) (stream : Stream) (now : Timestamp) :
    Outcome R Nat × Stream :=
  match publishRows now db stream (claimUnpublished db settings.outboxBatchSize now) with
  | (.error error, stream)    => (.raised error, stream)
  | (.ok (db, count), stream) => (.committed (cleanupOutbox settings db now) count, stream)

end Reconcile
end MarTech
