import MarTech.Pipeline.Watch

namespace MarTech

-- What PostgreSQL takes as a text, which may not contain every character, and what it takes as a
-- `jsonb` value. Nothing is assumed about it.
class Postgres where
  text  : String → Bool
  jsonb : Json.Object → Bool

variable {R : Type} [Postgres] [Runtime]

-- What the driver raises for a parameter or a value that the database refuses.
def dataError : Error where
  code := "DBAPIError"
  text := "the database refuses a value"

-- The declared length of the column `event_id` of the dead letters.
def eventIdLength : Nat := 128

-- Whether the columns of a dead letter can hold what `fail_event` takes out of the payload. The text
-- of an exception quotes by `repr`, and a `Text` column can hold it.
def storable (payload : Json.Object) : Bool :=
  (payloadEventId payload).length ≤ eventIdLength && Postgres.jsonb payload

namespace Worker

-- What the handling of a message does about exceptions, whatever it is that may raise them.
def retrying (limit : Nat) (process : Worker R Unit) (fail : Error → Nat → Worker R Unit)
    (index : Nat) : List Nat → Worker R Unit
  | []              => pure ()
  | attempt :: rest => do
    observe (.attempted index)
    tryCatch process fun
      | .cancelled       => throw .cancelled
      | .exception error =>
        if attempt = limit then
          fail error attempt
        else do
          sleep
          retrying limit process fail index rest

-- The transaction of `fail_event`, if the database takes all values.
def failSession (payload : Json.Object) (error : Error) (retries : Nat) (a : Await R) (db : Db R) :
    Outcome R Unit :=
  if (db.dlqEvents.get a.dlqId).isSome then
    .raised uniqueViolation
  else if a.missed then
    .committed (deadLetter db none (payloadEventId payload) payload error retries a.dlqId a.now) ()
  else
    MarTech.failEvent db payload error retries a.dlqId a.now

namespace Stored

-- It raises where its query or its insert is refused.
def failSession (payload : Json.Object) (error : Error) (retries : Nat) (a : Await R) (db : Db R) :
    Outcome R Unit :=
  if Postgres.text (payloadEventId payload) then
    match Worker.failSession payload error retries a db with
    | .committed db () => if storable payload then .committed db () else .raised dataError
    | outcome          => outcome
  else
    .raised dataError

def failEvent (payload : Json.Object) (error : Error) (retries : Nat) : Worker R Unit :=
  session (failSession payload error retries)

variable [Field R] [LinearOrder R] [FloorRing R] [MathExp R] (settings : Settings R)

-- The query is refused for a text that a row could not hold either.
def processSession (payload : Json.Object) (a : Await R) (db : Db R) : Outcome R Unit :=
  match EventIn.modelValidate payload with
  | none      => .raised validationError
  | some body =>
    if Postgres.text body.eventId then
      MarTech.processOneEvent settings db payload a.now
    else
      .raised dataError

def processOneEvent (payload : Json.Object) : Worker R Unit :=
  session (processSession settings payload)

def handle (index : Nat) (payload : Json.Object) : Worker R Unit :=
  tryCatch (retrying settings.workerMaxRetries (processOneEvent settings payload) (failEvent payload)
      index (List.range (settings.workerMaxRetries + 1)))
    fun exn => do
      observe (.raised index)
      throw exn

def handleMessage (index : Nat) (message : Message) : Worker R Unit := do
  handle settings index message.2
  ack index message.1

def handleMessages : Nat → List Message → Worker R Unit
  | _, []                  => pure ()
  | index, message :: rest => do
    handleMessage settings index message
    handleMessages (index + 1) rest

-- What comes before a batch is handled.
def fetch : Worker R (List Message) := do
  ensureGroup
  let _ ← reconcileOutbox settings
  consume

def iteration : Worker R Unit := do
  let messages ← fetch settings
  handleMessages settings 0 messages

end Stored

section Refinement

variable {payload : Json.Object}

-- What a transaction does if it may besides be refused a value.
def MayRaise (body body' : Await R → Db R → Outcome R Unit) : Prop :=
  ∀ a db, body' a db = body a db ∨ ∃ error, body' a db = .raised error

namespace MayRaise

variable {body body' : Await R → Db R → Outcome R Unit} {a : Await R} {db db' : Db R}

omit [Postgres] [Runtime]

theorem refl (body : Await R → Db R → Outcome R Unit) : MayRaise body body :=
  fun _ _ => .inl rfl

theorem returned (h : MayRaise body body') (e : body' a db = .returned ()) :
    body a db = .returned () := by
  obtain hb | ⟨error, hb⟩ := h a db
  · exact hb ▸ e
  · cases hb.symm.trans e

theorem committed (h : MayRaise body body') (e : body' a db = .committed db' ()) :
    body a db = .committed db' () := by
  obtain hb | ⟨error, hb⟩ := h a db
  · exact hb ▸ e
  · cases hb.symm.trans e

end MayRaise

theorem failSession_mayRaise (error : Error) (retries : Nat) :
    MayRaise (R := R) (failSession payload error retries)
      (Stored.failSession payload error retries) := by
  intro a db
  simp only [Stored.failSession]
  split
  case isFalse => exact .inr ⟨_, rfl⟩
  case isTrue  =>
    split
    case h_2    => exact .inl rfl
    case h_1 he =>
      split
      case isTrue  => exact .inl he.symm
      case isFalse => exact .inr ⟨_, rfl⟩

variable [Field R] [LinearOrder R] [FloorRing R] [MathExp R] {settings : Settings R}

theorem processSession_mayRaise :
    MayRaise (fun a db => MarTech.processOneEvent settings db payload a.now)
      (Stored.processSession settings payload) := by
  intro a db
  simp only [Stored.processSession]
  split
  case h_1 => exact .inr ⟨_, rfl⟩
  case h_2 =>
    split
    case isTrue  => exact .inl rfl
    case isFalse => exact .inr ⟨_, rfl⟩

omit [Postgres] in
theorem attempts_eq_retrying (index : Nat) (numbers : List Nat) :
    attempts settings index payload numbers =
      retrying settings.workerMaxRetries (processOneEvent settings payload)
        (fun error retries => session (failSession payload error retries)) index numbers := by
  induction numbers
  case nil => rfl
  case cons number rest hi =>
    simp only [attempts, hi]
    rfl

end Refinement
end Worker
end MarTech
