import Mathlib.Data.List.Basic

namespace MarTech

-- Instants in microseconds, the resolution of `datetime` and of `timestamptz`. The code passes each
-- datetime it compares through `utc`, so nothing but the instant of a datetime is ever read.
abbrev Timestamp := Int

def Timestamp.second : Int := 1000000
def Timestamp.minute : Int := 60 * second
def Timestamp.hour   : Int := 60 * minute
def Timestamp.day    : Int := 24 * hour

-- What `json.loads` returns. A float is kept as its `repr`, which determines it.
inductive Json
  | null
  | bool (b : Bool)
  | int (n : Int)
  | float (repr : String)
  | str (s : String)
  | array (items : List Json)
  | object (fields : List (String × Json))

namespace Json

abbrev Object := List (String × Json)

def Object.get (o : Object) (key : String) : Option Json :=
  o.lookup key

def str? : Json → Option String
  | str s => s
  | _     => none

def object? : Json → Option Object
  | object o => o
  | _        => none

end Json

-- The functions of Python's runtime and of pydantic that the code relies on. Nothing is assumed
-- about them: what is proved holds for any choice.
class Runtime where
  -- `str.lower`
  lower : String → String
  -- `repr`, which is also what `str` returns for anything but a string.
  repr : Json → String
  -- pydantic's parser for datetime fields, followed by `ensure_timezone_aware`.
  parseDatetime : Json → Option Timestamp
  -- The form of a datetime in `model_dump(mode="json")`.
  dumpDatetime : Timestamp → String
  -- `datetime.isoformat`
  isoformat : Timestamp → String

export Runtime (lower parseDatetime dumpDatetime isoformat)

-- Python's `str`.
def Json.toStr [Runtime] : Json → String
  | .str s => s
  | j      => Runtime.repr j

inductive Channel
  | email
  | sms
  | whatsapp
  | push
  | web
deriving DecidableEq, Repr

namespace Channel

def value : Channel → String
  | email    => "email"
  | sms      => "sms"
  | whatsapp => "whatsapp"
  | push     => "push"
  | web      => "web"

def all : List Channel :=
  [email, sms, whatsapp, push, web]

theorem value_injective : Function.Injective value := by
  intro c₁ c₂
  cases c₁ <;> cases c₂ <;> decide

def ofValue (s : String) : Option Channel :=
  all.find? (·.value = s)

@[simp]
theorem ofValue_value (c : Channel) : ofValue c.value = some c := by
  cases c <;> decide

theorem value_of_ofValue {s : String} {c : Channel} (h : ofValue s = some c) : c.value = s := by
  simpa using List.find?_some h

end Channel

inductive EventType
  | open
  | click
  | purchase
  | unsubscribe
  | complaint
  | send
  | delivered
  | bounce
  | view
deriving DecidableEq, Repr

namespace EventType

def value : EventType → String
  | .open      => "open"
  | click       => "click"
  | purchase    => "purchase"
  | unsubscribe => "unsubscribe"
  | complaint   => "complaint"
  | send        => "send"
  | delivered   => "delivered"
  | bounce      => "bounce"
  | view        => "view"

def all : List EventType :=
  [.open, click, purchase, unsubscribe, complaint, send, delivered, bounce, view]

def ofValue (s : String) : Option EventType :=
  all.find? (·.value = s)

@[simp]
theorem ofValue_value (t : EventType) : ofValue t.value = some t := by
  cases t <;> decide

theorem value_of_ofValue {s : String} {t : EventType} (h : ofValue s = some t) : t.value = s := by
  simpa using List.find?_some h

end EventType

-- A validated event: the bounds that `Field` declares are part of the type.
structure EventIn where
  eventId    : String
  customerId : String
  channel    : Channel
  eventType  : EventType
  timestamp  : Timestamp
  metadata   : Json.Object
  eventId_length    : 1 ≤ eventId.length ∧ eventId.length ≤ 128
  customerId_length : 1 ≤ customerId.length ∧ customerId.length ≤ 64

namespace EventIn

-- `EventIn(event_id=..., ...)` with fields that already have their Python types.
def validate (eventId customerId channel eventType : String) (timestamp : Timestamp)
    (metadata : Json.Object) : Option EventIn := do
  let channel ← Channel.ofValue channel
  let eventType ← EventType.ofValue eventType
  if h : (1 ≤ eventId.length ∧ eventId.length ≤ 128) ∧
      (1 ≤ customerId.length ∧ customerId.length ≤ 64) then
    return { eventId, customerId, channel, eventType, timestamp, metadata,
             eventId_length := h.left, customerId_length := h.right }
  else
    none

theorem validate_self (body : EventIn) :
    validate body.eventId body.customerId body.channel.value body.eventType.value body.timestamp
      body.metadata = some body := by
  simp [validate, body.eventId_length, body.customerId_length]

theorem validate_eventId {eventId customerId channel eventType timestamp metadata body}
    (h : validate eventId customerId channel eventType timestamp metadata = some body) :
    body.eventId = eventId := by
  simp only [validate, Option.bind_eq_bind, Option.bind_eq_some_iff] at h
  obtain ⟨_, -, _, -, h⟩ := h
  split at h
  case isTrue  => cases h; rfl
  case isFalse => cases h

variable [Runtime]

def metadataOrDefault (payload : Json.Object) : Option Json.Object :=
  match payload.get "metadata" with
  | none   => some []
  | some m => m.object?

-- Unknown keys are ignored and only `metadata` has a default.
def modelValidate (payload : Json.Object) : Option EventIn := do
  let eventId ← (← payload.get "event_id").str?
  let customerId ← (← payload.get "customer_id").str?
  let channel ← (← payload.get "channel").str?
  let eventType ← (← payload.get "event_type").str?
  let timestamp ← parseDatetime (← payload.get "timestamp")
  let metadata ← metadataOrDefault payload
  validate eventId customerId channel eventType timestamp metadata

-- `model_dump(mode="json")`
def modelDump (body : EventIn) : Json.Object := [
  ("event_id",    .str body.eventId),
  ("customer_id", .str body.customerId),
  ("channel",     .str body.channel.value),
  ("event_type",  .str body.eventType.value),
  ("timestamp",   .str (dumpDatetime body.timestamp)),
  ("metadata",    .object body.metadata)
]

theorem modelValidate_eventId {payload : Json.Object} {body : EventIn}
    (h : modelValidate payload = some body) : payload.get "event_id" = some (.str body.eventId) := by
  simp only [modelValidate, Option.bind_eq_bind, Option.bind_eq_some_iff] at h
  obtain ⟨j, hj, s, hs, _, _, _, _, _, _, _, _, _, _, _, _, _, _, _, _, _, _, h⟩ := h
  have hb := validate_eventId h
  cases j <;> simp only [Json.str?, reduceCtorEq, Option.some.injEq] at hs
  case str => rw [hj, hs, hb]

end EventIn

-- The worker's `str(payload.get("event_id", "unknown"))`.
def payloadEventId [Runtime] (payload : Json.Object) : String :=
  (payload.get "event_id").elim "unknown" Json.toStr

-- The consumer and its failure path agree on the event that a valid payload names.
theorem payloadEventId_of_modelValidate [Runtime] {payload : Json.Object} {body : EventIn}
    (h : EventIn.modelValidate payload = some body) : payloadEventId payload = body.eventId := by
  simp [payloadEventId, EventIn.modelValidate_eventId h, Json.toStr]

end MarTech
