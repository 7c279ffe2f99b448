import MarTech.Library.Deadlock
import MarTech.Pipeline.Transactions

namespace MarTech

variable {R : Type}

namespace Tables

-- Whether there is a row under the key. Nobody but the ingestion inserts rows under keys that others
-- might choose too, and it inserts only events and customers.
def has (s : Tables R) : Lock → Bool
  | .event id                             => (s.db.events.get id).isSome
  | .customer id                          => (s.db.customers.get id).isSome
  | .engagement _ | .letter _ | .outbox _ => true

-- The order of the locks, in which the keys that are not in the tables have a place of their own.
def level (s : Tables R) : Lock → Nat
  | .outbox _                 => 0
  | .event id                 => if s.has (.event id) then 2 else 1
  | .customer id              => if s.has (.customer id) then 3 else 1
  | .engagement _ | .letter _ => 4

end Tables

abbrev Service (R : Type) := Server Call (Tables R) Lock (Except Error Reply)

-- The transactions by how they take their locks.
inductive Call.Kind
  | consumer
  | ingestion
  | sweep
deriving DecidableEq

def Call.kind : Call → Kind
  | consume _                         => .consumer
  | ingestEvent .. | ingestBatch ..   => .ingestion
  | reconcileOutbox .. | cleanupOutbox _ => .sweep

-- The ids that the sequence behind the outbox gives out to the call.
def Call.draws : Call → List Nat
  | consume (.replayDlq _ outboxId _)  => [outboxId]
  | ingestEvent _ _ outboxId _         => [outboxId]
  | ingestBatch items outboxIds _      => (List.range items.length).map outboxIds
  | consume _ | reconcileOutbox .. | cleanupOutbox _ => []

-- The items whose keys the call comes to insert.
def Call.items : Call → List BatchItem
  | ingestEvent body fault ..                        => [⟨body, fault⟩]
  | ingestBatch items ..                             => items
  | consume _ | reconcileOutbox .. | cleanupOutbox _ => []

-- Whether the call finds the row due for publication.
def Call.publishes (call : Call) (s : Tables R) (row : EventOutbox) : Bool :=
  match call with
  | reconcileOutbox _ now => claimable s.db now row
  | _                     => false

-- Whether the call finds the row to be deleted.
def Call.deletes (settings : Settings R) (call : Call) (s : Tables R) (row : EventOutbox) : Bool :=
  match call with
  | reconcileOutbox _ now | cleanupOutbox now => expired settings s.db now row
  | _                                         => false

section Conditions

variable (place : Lock → Nat) (s : Tables R)

-- A key comes after those that have been inserted before it. An `INSERT` does not wait for a key that
-- is in the tables already, or that the transaction has inserted itself.
def Lock.Follows (inserted : List Lock) (l : Lock) : Prop :=
  s.has l ∨ l ∈ inserted ∨ ∀ l' ∈ inserted, s.has l' = false → place l' < place l

-- The items of a batch come to their keys in the order of the places. An item that fails gives its
-- keys back.
def Sorted : (inserted : List Lock) → List BatchItem → Prop
  | _, []                  => True
  | inserted, item :: items =>
    let customer := .customer item.body.customerId
    let event    := .event item.body.eventId
    Lock.Follows place s inserted customer ∧ Lock.Follows place s (inserted ++ [customer]) event ∧
      Sorted (if item.fault.isSome then inserted else inserted ++ [customer, event]) items

instance (inserted : List Lock) (l : Lock) : Decidable (l.Follows place s inserted) :=
  inferInstanceAs <| Decidable (_ ∨ _ ∨ ∀ l' ∈ inserted, _ → _)

instance decidableSorted (inserted : List Lock) (items : List BatchItem) :
    Decidable (Sorted place s inserted items) :=
  match items with
  | []            => .isTrue trivial
  | item :: items =>
    have : Decidable (Sorted place s (if item.fault.isSome then inserted else
        inserted ++ [.customer item.body.customerId, .event item.body.eventId]) items) :=
      decidableSorted ..
    inferInstanceAs <| Decidable (_ ∧ _ ∧ _)

end Conditions

-- The states of a run, from its beginning on.
def Service.states [Field R] [LinearOrder R] [FloorRing R] [MathExp R] [Runtime]
    (settings : Settings R) (s : Tables R) (moves : List (Move Call)) : List (Service R) :=
  moves.inits.map fun earlier => Server.idle s |>.run (Call.transaction settings) earlier

-- The tables that were committed at a time when the call was under way.
def Meets (states : List (Service R)) (call : Call) (s : Tables R) : Prop :=
  ∃ service ∈ states, service.committed = s ∧ ∃ session ∈ service.sessions.rows, session.call = call

-- The sequence behind the outbox gives no id out twice: those for the calls under way are not in the
-- tables, and nobody else has them.
def Service.Sequenced (service : Service R) : Prop :=
  ∀ session ∈ service.sessions.rows, session.call.draws.Nodup ∧ ∀ id ∈ session.call.draws,
    service.committed.taken id = false ∧ ¬service.busy session.id [.outbox id]

instance (service : Service R) : Decidable service.Sequenced :=
  inferInstanceAs <| Decidable (∀ session ∈ service.sessions.rows, _ ∧ ∀ id ∈ session.call.draws, _)

-- The calls of a run keep to one order of the keys, which is the same in all states of the run.
structure InOrder (settings : Settings R) (place : Lock → Nat) (states : List (Service R)) : Prop where
  -- Ingestion inserts the keys that are missing in the order.
  sorted : ∀ service ∈ states, ∀ session ∈ service.sessions.rows,
    Sorted place service.committed [] session.call.items
  -- A sweep deletes its rows in the order.
  deletes : ∀ service ∈ states, ∀ session ∈ service.sessions.rows,
    (service.committed.db.eventOutbox.rows.filter
      (session.call.deletes settings service.committed)).Pairwise
        fun row row' => place (.outbox row.id) < place (.outbox row'.id)
  -- Of two sweeps at once, neither can delete a row that the other one can publish.
  disjoint : ∀ service ∈ states, ∀ a ∈ service.sessions.rows, ∀ b ∈ service.sessions.rows,
    a.id ≠ b.id → ∀ s s', Meets states a.call s → Meets states b.call s' →
      ∀ row ∈ s.db.eventOutbox.rows, a.call.deletes settings s row →
        ∀ row' ∈ s'.db.eventOutbox.rows, b.call.publishes s' row' → row.id ≠ row'.id

section Orders

variable (settings : Settings R) (place : Lock → Nat) (states : List (Service R)) (call : Call)

-- The rows of the outbox that a sweep comes to publish or to delete.
def Call.Publishes (l : Lock) : Prop :=
  ∃ s row, Meets states call s ∧ row ∈ s.db.eventOutbox ∧ call.publishes s row ∧ l = .outbox row.id

def Call.Deletes (l : Lock) : Prop :=
  ∃ s row, Meets states call s ∧ row ∈ s.db.eventOutbox ∧ call.deletes settings s row ∧
    l = .outbox row.id

def Call.Draws (l : Lock) : Prop :=
  ∃ id ∈ call.draws, l = .outbox id

-- Where a lock that others may hold comes in the transaction, given those that it holds itself.
def Call.Comes (s : Tables R) (held : List Lock) (l : Lock) : Prop :=
  match call.kind with
  | .consumer  => 0 < s.level l ∧ ∀ l' ∈ held, s.level l' < s.level l
  | .ingestion => s.level l = 1 ∧ ∀ l' ∈ held, s.level l' = 1 → place l' < place l
  | .sweep     => call.Deletes settings states l ∧
      ∀ l' ∈ held, call.Publishes states l' ∨ place l' < place l

-- A statement takes locks that the transaction has already, new ids, and others in their order.
def Call.Asks (s : Tables R) (now : Point (Tables R) Lock) (locks : List Lock) : Prop :=
  ∀ l ∈ locks, l ∈ now.held ∨ call.Draws l ∨ call.Comes settings place states s now.held l

-- What is known of a lock for as long as the transaction holds it.
def Call.Fits (s : Tables R) (l : Lock) : Prop :=
  match call.kind with
  | .consumer  => True
  | .ingestion => s.level l ≤ 1
  | .sweep     => s.level l = 0

-- The program takes its locks as the call should.
abbrev Call.Orderly {ο : Type} (program : Program (Tables R) Lock ο)
    (now saved : Point (Tables R) Lock) : Prop :=
  program.Orderly (Meets states call) (call.Asks settings place states) call.Fits now saved

end Orders

-- The keys of events and customers that a statement adds to the tables.
def Brings (keys : List Lock) (write : Tables R → Tables R) : Prop :=
  ∀ s l, (write s).has l ↔ s.has l ∨ l ∈ keys

-- Whoever adds a key has locked it, or finds it in the tables.
def Brought (locks : Tables R → List Lock) (write : Tables R → Tables R) : Prop :=
  ∃ keys, Brings keys write ∧ ∀ s, ∀ l ∈ keys, l ∈ locks s ∨ s.has l

-- No transaction commits an event or a customer under a key that it has not locked, and none takes
-- one away.
def arrivals : Discipline (Tables R) Lock where
  Guarded l s s' := s.has l = false → s'.has l = false
  Always s s'    := ∀ l, s.has l → s'.has l

namespace Brings

variable {keys keys' : List Lock} {write write' : Tables R → Tables R}

theorem refl : Brings [] (fun s : Tables R => s) := by
  simp [Brings]

theorem comp (h' : Brings keys' write') (h : Brings keys write) :
    Brings (keys ++ keys') (write' ∘ write) := by
  intro s l
  rw [Function.comp, h', h, List.mem_append, or_assoc]

theorem has (h : Brings keys write) {s : Tables R} {l : Lock} (hl : s.has l) : (write s).has l :=
  (h s l).mpr (.inl hl)

-- What the transaction does not see is not in the tables.
theorem not_has (h : Brings keys write) {s : Tables R} {l : Lock} (hl : (write s).has l = false) :
    s.has l = false := by
  cases hs : s.has l
  case false => rfl
  case true  => exact (h.has hs).symm.trans hl

-- Nothing is added by a statement that adds neither events nor customers.
theorem of_get (he : ∀ s id, ((write s).db.events.get id).isSome = (s.db.events.get id).isSome)
    (hc : ∀ s id, ((write s).db.customers.get id).isSome = (s.db.customers.get id).isSome) :
    Brings [] write := by
  intro s l
  cases l <;> simp [Tables.has, he, hc]

theorem insertEvent (body : EventIn) : Brings [.event body.eventId]
    (Tables.modify (R := R) fun db => { db with events := db.events.insert body.row }) := by
  intro s l
  cases l <;> simp [Tables.has, Tables.modify, Table.get_insert, EventIn.row]
  case event id =>
    by_cases h : body.eventId = id
    case pos => simp [h]
    case neg => simp [h, Ne.symm h]

theorem ensureCustomer (customerId : String) (now : Timestamp) : Brings [.customer customerId]
    (Tables.modify (R := R) (ensureCustomer · customerId now)) := by
  intro s l
  cases l <;> simp [Tables.has, Tables.modify, MarTech.ensureCustomer, Table.get_insert, Customer.new]
  case customer id =>
    by_cases h : customerId = id
    case pos => simp [h]
    case neg => simp [h, Ne.symm h]

end Brings
end MarTech
