import MarTech.Domain.Scoring

namespace MarTech

structure Customer where
  id            : String
  createdAt     : Timestamp
  attributes    : Json.Object
  emailOptIn    : Bool
  smsOptIn      : Bool
  whatsappOptIn : Bool
  pushOptIn     : Bool
  lastActive    : Option Timestamp
  hasConverted  : Bool

-- The defaults of the columns that `insert(Customer).values(id=..., attributes={})` leaves out. The
-- database takes `created_at` from the start of the transaction.
def Customer.new (id : String) (createdAt : Timestamp) : Customer where
  id            := id
  createdAt     := createdAt
  attributes    := []
  emailOptIn    := false
  smsOptIn      := false
  whatsappOptIn := false
  pushOptIn     := false
  lastActive    := none
  hasConverted  := false

inductive Status
  | pending
  | processed
  | failed
deriving DecidableEq, Repr

-- `channel` and `event_type` are plain strings in the schema.
structure Event where
  eventId     : String
  customerId  : String
  channel     : String
  eventType   : String
  timestamp   : Timestamp
  metadata    : Json.Object
  processedAt : Option Timestamp
  status      : Status

structure EngagementScore (R : Type) where
  customerId       : String
  score            : R
  lastUpdated      : Timestamp
  channelBreakdown : Breakdown R

structure DLQEvent where
  id            : Nat
  eventId       : String
  payload       : Json.Object
  failureReason : String
  retryCount    : Nat
  replayedAt    : Option Timestamp
  failedAt      : Timestamp

structure CampaignRow where
  id           : String
  name         : String
  objective    : String
  channel      : String
  createdAt    : Timestamp
  status       : String
  audienceSize : Int

abbrev MessageId := Nat

structure EventOutbox where
  id          : Nat
  eventId     : String
  payload     : Json.Object
  createdAt   : Timestamp
  publishedAt : Option Timestamp
  messageId   : Option MessageId

instance : Keyed Customer String where
  key := Customer.id

-- The unique index that deduplicates ingestion.
instance : Keyed Event String where
  key := Event.eventId

instance {R : Type} : Keyed (EngagementScore R) String where
  key := EngagementScore.customerId

instance : Keyed DLQEvent Nat where
  key := DLQEvent.id

instance : Keyed EventOutbox Nat where
  key := EventOutbox.id

instance : Keyed CampaignRow String where
  key := CampaignRow.id

@[simp] theorem Customer.key_eq (c : Customer) : Keyed.key c = c.id := rfl
@[simp] theorem Event.key_eq (e : Event) : Keyed.key e = e.eventId := rfl
@[simp] theorem EngagementScore.key_eq {R : Type} (e : EngagementScore R) :
    Keyed.key e = e.customerId := rfl
@[simp] theorem DLQEvent.key_eq (r : DLQEvent) : Keyed.key r = r.id := rfl
@[simp] theorem EventOutbox.key_eq (r : EventOutbox) : Keyed.key r = r.id := rfl

-- The committed tables.
@[ext]
structure Db (R : Type) where
  customers        : Table Customer
  events           : Table Event
  engagementScores : Table (EngagementScore R)
  dlqEvents        : Table DLQEvent
  eventOutbox      : Table EventOutbox

-- The sequences behind the autoincremented keys. They are not transactional: a value once drawn
-- is never drawn again, whether or not the transaction that drew it commits.
structure Sequences where
  dlqEvents   : Nat
  eventOutbox : Nat

-- Exceptions, with the text that `str` gives of them.
structure Error where
  code : String
  text : String
deriving DecidableEq, Repr

-- What validating an `EventIn` raises.
def validationError : Error where
  code := "ValidationError"
  text := "validation error for EventIn"

def uniqueViolation : Error where
  code := "IntegrityError"
  text := "duplicate key value violates unique constraint"

-- How a session ends. Closing it after an exception, or after a return that did not commit, rolls
-- back whatever it has written.
inductive Outcome (R α : Type)
  | raised (error : Error)
  | returned (answer : α)
  | committed (db : Db R) (answer : α)

namespace Outcome

variable {R α : Type}

-- The tables after the session, given the tables before it.
def db (before : Db R) : Outcome R α → Db R
  | committed db _         => db
  | raised _ | returned _  => before

def answer : Outcome R α → Option α
  | committed _ answer | returned answer => answer
  | raised _                             => none

end Outcome
end MarTech
