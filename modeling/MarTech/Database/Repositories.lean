import MarTech.Database.Models
import MarTech.Library.Paging

namespace MarTech

-- `opt_in_col` in `candidate_batches`: the web has no column of its own and reads the email one.
def optInColumn : Channel → Customer → Bool
  | .email    => Customer.emailOptIn
  | .sms      => Customer.smsOptIn
  | .whatsapp => Customer.whatsappOptIn
  | .push     => Customer.pushOptIn
  | .web      => Customer.emailOptIn

-- A row of the query in `candidate_batches`.
structure Candidate (R : Type) where
  customerId  : String
  score       : R
  attributes  : Json.Object
  lastUpdated : Option Timestamp

variable {R : Type}

def recentSend (db : Db R) (channel : Channel) (now : Timestamp) (customer : Customer) : Bool :=
  db.events.rows.any fun evt =>
    evt.customerId = customer.id && evt.channel = channel.value && evt.eventType = "send" &&
    evt.status = .processed && now - 24 * Timestamp.hour ≤ evt.timestamp && evt.timestamp ≤ now

-- A comparison with a missing `last_active` is not true.
def candidateWhere (db : Db R) (channel : Channel) (now : Timestamp)
    (minLastActive : Option Timestamp) (hasConverted : Option Bool) (customer : Customer) : Bool :=
  optInColumn channel customer && !recentSend db channel now customer &&
  minLastActive.all (fun cutoff => customer.lastActive.any (cutoff ≤ ·)) &&
  hasConverted.all (customer.hasConverted = ·)

-- The outer join with `engagement_scores`.
def candidate [Zero R] (db : Db R) (customer : Customer) : Candidate R :=
  let eng := db.engagementScores.get customer.id
  { customerId  := customer.id
    score       := eng.elim 0 (·.score)
    attributes  := customer.attributes
    lastUpdated := eng.map (·.lastUpdated) }

-- The result of the query in `candidate_batches`, in one of the orders the database may choose.
def candidates [Zero R] (db : Db R) (channel : Channel) (now : Timestamp)
    (minLastActive : Option Timestamp) (hasConverted : Option Bool) : List (Candidate R) :=
  db.customers.rows.filter (candidateWhere db channel now minLastActive hasConverted)
    |>.map (candidate db)

-- How the database streams a result: in any order, and cut into any batches.
structure AsyncResult (α : Type) where
  batches : List α → List (List α)
  perm    : ∀ rows, (batches rows).flatten.Perm rows

-- The sort keys of the queries that answer page by page. `DESC` is the dual order.
def Event.latestFirst (evt : Event) : Timestampᵒᵈ :=
  .toDual evt.timestamp

def CampaignRow.latestFirst (campaign : CampaignRow) : Timestampᵒᵈ :=
  .toDual campaign.createdAt

def DLQEvent.latestFirst (row : DLQEvent) : Timestampᵒᵈ :=
  .toDual row.failedAt

-- The database answers the `n`-th time that it is asked.
def EventRepo.timeline (e : Evaluation Event.latestFirst) (n : Nat) (db : Db R)
    (customerId : String) (limit : Nat := 50) (offset : Nat := 0) : List Event :=
  e.select n limit offset <| db.events.rows.filter (·.customerId = customerId)

def CampaignRepo.list (e : Evaluation CampaignRow.latestFirst) (n : Nat)
    (campaigns : Table CampaignRow) (limit : Nat := 50) (offset : Nat := 0) : List CampaignRow :=
  e.select n limit offset campaigns.rows

def DLQRepo.list (e : Evaluation DLQEvent.latestFirst) (n : Nat) (db : Db R) (limit : Nat := 100)
    (offset : Nat := 0) : List DLQEvent :=
  e.select n limit offset db.dlqEvents.rows

end MarTech
