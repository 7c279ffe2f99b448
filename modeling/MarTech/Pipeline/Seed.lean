import MarTech.Pipeline.Run

namespace MarTech

variable {R : Type}

-- One batch of synthetic customers, which are inserted if absent.
def seedCustomers (db : Db R) (rows : List Customer) : Db R :=
  { db with customers := rows.foldl Table.insert db.customers }

theorem seedCustomers_get_of_some {db : Db R} {id : String} {row : Customer}
    (h : db.customers.get id = some row) (rows : List Customer) :
    (seedCustomers db rows).customers.get id = some row := by
  simp only [seedCustomers]
  induction rows generalizing db
  case nil             => exact h
  case cons row' _ hi  =>
    exact @hi { db with customers := db.customers.insert row' } <| Table.get_insert_of_some h

section Events

variable [Runtime]

-- The payload that the generator enqueues for an event.
def EventIn.seedPayload (body : EventIn) : Json.Object := [
  ("event_id",    .str body.eventId),
  ("customer_id", .str body.customerId),
  ("channel",     .str body.channel.value),
  ("event_type",  .str body.eventType.value),
  ("timestamp",   .str (isoformat body.timestamp)),
  ("metadata",    .object body.metadata)
]

-- One event of a batch, with the outbox id it draws if its own id is not taken.
def seedEvent (now : Timestamp) (state : Db R × Nat) (body : EventIn) : Db R × Nat :=
  let (db, outboxId) := state
  if (db.events.get body.eventId).isSome then
    state
  else
    (acceptEvent db body body.seedPayload outboxId now, outboxId + 1)

-- One batch of synthetic events. The foreign key admits events of existing customers only.
def seedEvents (db : Db R) (bodies : List EventIn) (outboxId : Nat) (now : Timestamp) :
    Outcome R Nat :=
  if bodies.all fun body => (db.customers.get body.customerId).isSome then
    let (db, nextId) := bodies.foldl (seedEvent now) (db, outboxId)
    .committed db (nextId - outboxId)
  else
    .raised ⟨"IntegrityError", "insert or update on table \"events\" violates foreign key constraint"⟩

end Events

-- What can happen to the system: a transaction of the pipeline, or a batch of the generator.
inductive Action
  | transact (op : Op)
  | seedCustomers (rows : List Customer)
  | seedEvents (bodies : List EventIn) (now : Timestamp)

variable [Field R] [LinearOrder R] [FloorRing R] [MathExp R] [Runtime] {settings : Settings R}

namespace State

def act (settings : Settings R) (s : State R) : Action → State R
  | .transact op        => s.exec settings op
  | .seedCustomers rows => { s with db := MarTech.seedCustomers s.db rows }
  | .seedEvents bodies now =>
    { s with db := (MarTech.seedEvents s.db bodies s.sequences.eventOutbox now).db s.db
      }.drawOutbox bodies.length

def acts (settings : Settings R) (s : State R) (actions : List Action) : State R :=
  actions.foldl (act settings) s

@[simp]
theorem acts_nil (s : State R) : s.acts settings [] = s :=
  rfl

end State

theorem seedEvents_effects {db : Db R} (bodies : List EventIn) (outboxId : Nat) (now : Timestamp)
    (h : ∀ body ∈ bodies, (db.customers.get body.customerId).isSome) :
    ∃ ls, Effects settings db ls (bodies.foldl (seedEvent now) (db, outboxId)).1 := by
  induction bodies generalizing db outboxId
  case nil => exact ⟨_, .refl⟩
  case cons body bodies hi =>
    obtain ⟨hb, hbs⟩ := List.forall_mem_cons.mp h
    rw [List.foldl_cons, seedEvent]
    split
    case isTrue => exact hi outboxId hbs
    case isFalse hn =>
      have e : Effect settings db _ (acceptEvent db body body.seedPayload outboxId now) :=
        .acceptEvent body body.seedPayload outboxId now (by simpa using hn) hb
      obtain ⟨ls, e'⟩ := hi (outboxId + 1) fun body' hm => e.customers_kept (hbs body' hm)
      exact ⟨_, .step e e'⟩

-- An action inserts absent customers, or is a sequence of effects.
theorem State.act_effects (settings : Settings R) (s : State R) (action : Action) :
    (∃ rows, (s.act settings action).db = MarTech.seedCustomers s.db rows) ∨
      ∃ ls, Effects settings s.db ls (s.act settings action).db := by
  cases action
  case seedCustomers rows => exact .inl ⟨rows, rfl⟩
  case transact op =>
    obtain ⟨ls, e, _⟩ := s.exec_effects settings op
    exact .inr ⟨ls, e⟩
  case seedEvents bodies now =>
    refine .inr ?_
    simp only [act, drawOutbox, MarTech.seedEvents]
    split
    case isFalse  => exact ⟨_, .refl⟩
    case isTrue h => exact seedEvents_effects bodies _ now (by simpa using h)

end MarTech
