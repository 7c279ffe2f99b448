import MarTech.Pipeline.Run

namespace MarTech

-- The statement or the command that a `reconcile_outbox` sends next. `rows` are the claimed rows that
-- it has not come to yet.
inductive Stage
  | claim
  | contains (rows : List EventOutbox)
  | enqueue (row : EventOutbox) (rows : List EventOutbox)
  | mark (row : EventOutbox) (messageId : MessageId) (rows : List EventOutbox)
  | delete (outboxIds : List Nat)

-- A `reconcile_outbox` under way: the rows of the outbox that it has locked, what it has written to
-- them, which nobody else sees before it commits, and the messages it has sent, which everybody sees.
structure Reconcile where
  id      : Nat
  stage   : Stage
  held    : List Nat
  marks   : List (Nat × MessageId × Timestamp)
  deleted : List Nat
  count   : Nat

instance : Keyed Reconcile Nat where
  key := Reconcile.id

@[simp] theorem Reconcile.key_eq (r : Reconcile) : Keyed.key r = r.id := rfl

variable {R : Type}

namespace Reconcile

def start (id : Nat) : Reconcile where
  id      := id
  stage   := .claim
  held    := []
  marks   := []
  deleted := []
  count   := 0

def mark (db : Db R) : List (Nat × MessageId × Timestamp) → Db R
  | []                           => db
  | (id, messageId, now) :: rest => mark (markPublished db id messageId now) rest

-- The tables with what the transaction has written so far.
def write (r : Reconcile) (db : Db R) : Db R :=
  let db := mark db r.marks
  { db with eventOutbox := db.eventOutbox.delete (·.id ∈ r.deleted) }

end Reconcile

-- The committed tables, the stream, and what each worker's `reconcile_outbox` is doing.
structure Workers (R : Type) extends State R where
  reconciles : Table Reconcile

-- The transactions which neither publish rows of the outbox nor delete them.
def Op.isSubmission : Op → Bool
  | ingestEvent .. | ingestBatch .. | processOneEvent .. | failEvent .. | replayDlq .. => true
  | reconcileOutbox .. | cleanupOutbox .. | disturbStream ..                           => false

-- The message's event, as the worker reads it.
def StreamEntry.eventId [Runtime] (entry : StreamEntry) : String :=
  payloadEventId entry.payload

namespace Workers

-- What can happen next. A transaction other than `reconcile_outbox` writes the tables when it commits,
-- with whatever payload has reached it, and a worker may acknowledge any message.
inductive Turn
  | transact (op : Op) (submission : op.isSubmission)
  | start (id : Nat)
  | advance (id : Nat) (now : Timestamp)
  | abort (id : Nat)
  | ack (messageId : MessageId)

namespace Turn

def aborted : Turn → Option Nat
  | abort id => id
  | _        => none

-- The dead letter that is to be replayed.
def replayed : Turn → Option Nat
  | transact (.replayDlq dlqId _) _ => dlqId
  | _                               => none

end Turn

def idle (s : State R) : Workers R where
  toState    := s
  reconciles := ∅

-- No `reconcile_outbox` that has published is rolled back.
def Commits (s : Workers R) (turn : Turn) : Prop :=
  ∀ id ∈ turn.aborted, ∀ r ∈ s.reconciles.get id, r.count = 0

-- No `replay_dlq` requeues an event which still has a row in the outbox or a message in the stream.
def ReplaysAfresh [Runtime] (s : Workers R) (turn : Turn) : Prop :=
  ∀ dlqId ∈ turn.replayed, ∀ letter ∈ s.db.dlqEvents.get dlqId, letter.replayedAt = none →
    ∀ evt ∈ s.db.events.get letter.eventId, evt.status = .failed →
      (∀ row ∈ s.db.eventOutbox.rows, row.eventId ≠ evt.eventId) ∧
        ∀ entry ∈ s.stream.entries, entry.eventId ≠ evt.eventId

instance (s : Workers R) : DecidablePred s.Commits := fun turn =>
  inferInstanceAs <| Decidable (∀ id ∈ turn.aborted, ∀ r ∈ s.reconciles.get id, _)

instance [Runtime] (s : Workers R) : DecidablePred s.ReplaysAfresh := fun turn =>
  inferInstanceAs <| Decidable (∀ dlqId ∈ turn.replayed, ∀ letter ∈ s.db.dlqEvents.get dlqId, _)

-- Whether another `reconcile_outbox` holds the lock on a row of the outbox.
def busy (s : Workers R) (id : Nat) (outboxId : Nat) : Bool :=
  s.reconciles.rows.any fun r => r.id ≠ id && outboxId ∈ r.held

def close (s : Workers R) (id : Nat) : Workers R :=
  { s with reconciles := s.reconciles.delete (·.id = id) }

def resume (s : Workers R) (r : Reconcile) : Workers R :=
  { s with reconciles := s.reconciles.set r }

section

variable (settings : Settings R)

def advance (s : Workers R) (r : Reconcile) (now : Timestamp) : Workers R :=
  match r.stage with
  | .claim =>
    let rows := claimUnpublished s.db settings.outboxBatchSize now (s.busy r.id)
    s.resume { r with stage := .contains rows, held := rows.map (·.id) }
  | .contains (row :: rows) =>
    match row.messageId with
    | none           => s.resume { r with stage := .enqueue row rows }
    | some messageId =>
      if s.stream.contains messageId then
        s.resume { r with stage := .mark row messageId rows }
      else
        s.resume { r with stage := .enqueue row rows }
  | .enqueue row rows =>
    -- `row.payload["customer_id"]` may raise, which rolls the transaction back.
    match row.payload.get "customer_id" with
    | none            => s.close r.id
    | some customerId =>
      let (stream, messageId) := s.stream.enqueue customerId row.payload
      { s.resume { r with stage := .mark row messageId rows, count := r.count + 1 } with
        stream := stream }
  | .mark row messageId rows =>
    s.resume { r with stage := .contains rows, marks := r.marks ++ [(row.id, messageId, now)] }
  -- `cleanup_outbox` chooses its rows, and then waits for the locks on them.
  | .contains [] =>
    let db := r.write s.db
    s.resume { r with
      stage := .delete <| (db.eventOutbox.rows.filter (expired settings db now)).map (·.id) }
  | .delete (id :: ids) =>
    if s.busy r.id id then
      s
    else
      s.resume { r with stage := .delete ids, held := id :: r.held, deleted := id :: r.deleted }
  | .delete [] => { s.close r.id with db := r.write s.db }

variable [Field R] [LinearOrder R] [FloorRing R] [MathExp R] [Runtime]

def turn (s : Workers R) : Turn → Workers R
  | .transact op _  => { s with toState := s.toState.exec settings op }
  | .start id       => { s with reconciles := s.reconciles.insert (.start id) }
  | .advance id now => (s.reconciles.get id).elim s fun r => s.advance settings r now
  | .abort id       => s.close id
  | .ack messageId  => { s with stream := s.stream.ack messageId }

def run (s : Workers R) (turns : List Turn) : Workers R :=
  turns.foldl (turn settings) s

-- Each turn of a run meets a condition on the state before it.
def Along (P : Workers R → Turn → Prop) : Workers R → List Turn → Prop
  | _, []              => True
  | s, turn :: turns => P s turn ∧ Along P (s.turn settings turn) turns

instance decidableAlong {P : Workers R → Turn → Prop} [∀ s turn, Decidable (P s turn)] :
    ∀ s turns, Decidable (Along settings P s turns)
  | _, []            => inferInstanceAs (Decidable True)
  | s, turn :: turns =>
    have : Decidable (Along settings P (s.turn settings turn) turns) := decidableAlong ..
    inferInstanceAs (Decidable (P s turn ∧ _))

end

end Workers
end MarTech
