import MarTech.Core.Exceptions
import MarTech.Database.Repositories

namespace MarTech

structure CustomerOut (R : Type) where
  id               : String
  createdAt        : Timestamp
  attributes       : Json.Object
  emailOptIn       : Bool
  smsOptIn         : Bool
  whatsappOptIn    : Bool
  pushOptIn        : Bool
  lastActive       : Option Timestamp
  hasConverted     : Bool
  engagementScore  : Option R
  channelBreakdown : Option (Breakdown R)

structure EventOut where
  eventId   : String
  channel   : String
  eventType : String
  timestamp : Timestamp
  metadata  : Json.Object

def customerNotFound (customerId : String) : AppError :=
  notFoundError ("Customer '" ++ customerId ++ "' not found") "customer_not_found"

def customerLoadError : AppError :=
  serviceUnavailableError "Unable to load customer" "customer_load_error"

def timelineError : AppError :=
  serviceUnavailableError "Unable to load timeline" "timeline_error"

-- Which of the two queries of an endpoint the database fails.
inductive CustomerQuery
  | customer
  | details
deriving DecidableEq

variable {R : Type}

section Profile

variable [Field R] [LinearOrder R] [FloorRing R] [MathExp R]

-- `GET /customers/{customer_id}`. Each of its two queries sees what has been committed by then: the
-- customer is read in `db` and the engagement row in `later`.
def getCustomer (settings : Settings R) (db later : Db R) (customerId : String)
    (fault : Option CustomerQuery) (now : Timestamp) : Except AppError (CustomerOut R) :=
  if fault = some .customer then
    .error customerLoadError
  else match db.customers.get customerId with
    | none          => .error <| customerNotFound customerId
    | some customer =>
      if fault = some .details then
        .error customerLoadError
      else
        let eng := later.engagementScores.get customerId
        .ok {
          id               := customer.id
          createdAt        := customer.createdAt
          attributes       := customer.attributes
          emailOptIn       := customer.emailOptIn
          smsOptIn         := customer.smsOptIn
          whatsappOptIn    := customer.whatsappOptIn
          pushOptIn        := customer.pushOptIn
          lastActive       := customer.lastActive
          hasConverted     := customer.hasConverted
          engagementScore  := eng.map fun eng =>
            roundTo 4 <| scoreAt settings eng.score (some eng.lastUpdated) now
          channelBreakdown := eng.map (·.channelBreakdown) }

end Profile

-- `GET /customers/{customer_id}/timeline`
def getTimeline (e : Evaluation Event.latestFirst) (n : Nat) (db later : Db R) (customerId : String)
    (fault : Option CustomerQuery) (limit : Nat := 50) (offset : Nat := 0) :
    Except AppError (List EventOut) :=
  if fault = some .customer then
    .error timelineError
  else if (db.customers.get customerId).isNone then
    .error <| customerNotFound customerId
  else if fault = some .details then
    .error timelineError
  else
    .ok <| (EventRepo.timeline e n later customerId limit offset).map fun evt =>
      ⟨evt.eventId, evt.channel, evt.eventType, evt.timestamp, evt.metadata⟩

end MarTech
