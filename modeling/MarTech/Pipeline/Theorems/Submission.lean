import MarTech.Pipeline.Theorems.View

namespace MarTech

section Ingestion

variable {R : Type} [Runtime]

section Single

variable (db : Db R) (body : EventIn) (outboxId : Nat) (now : Timestamp)

-- What a submission that does not fail commits.
def submitted : Db R × PersistOutcome :=
  let ensured := ensureCustomer db body.customerId now
  if (db.events.get body.eventId).isSome then
    (ensured, .duplicate)
  else
    (acceptEvent ensured body body.modelDump outboxId now, .accepted)

theorem persistOne_none :
    persistOne db body none outboxId now = .ok (submitted db body outboxId now) := by
  cases he : (db.events.get body.eventId).isSome <;>
    simp [persistOne, submitted, ensureCustomer, he]

theorem persistOne_flush :
    persistOne db body (some .flush) outboxId now = persistOne db body none outboxId now := by
  simp [persistOne]

theorem ingestEvent_none :
    ingestEvent db body none outboxId now =
      .committed (submitted db body outboxId now).1
        ((submitted db body outboxId now).2.answer body) := by
  simp [ingestEvent, persistOne_none]

end Single

section Item

variable (now : Timestamp) (outboxIds : Nat → Nat) (db : Db R) (out : BatchEventOut) (index : Nat)

theorem ingestItem_of_none {item : BatchItem} (h : item.fault = none) :
    ingestItem now outboxIds (db, out) (item, index) =
      ((submitted db item.body (outboxIds out.accepted) now).1,
        out.count (submitted db item.body (outboxIds out.accepted) now).2) := by
  simp [ingestItem, h, persistOne_none]

-- An item that fails leaves nothing behind.
theorem ingestItem_of_some {item : BatchItem} (h : item.fault.isSome) :
    ingestItem now outboxIds (db, out) (item, index) = (db, out.reject index item.body) := by
  obtain ⟨fault, hf⟩ := Option.isSome_iff_exists.mp h
  cases fault
  case insertCustomer => simp [ingestItem, hf, persistOne]
  case insertEvent    => simp [ingestItem, hf, persistOne]
  case flush          => simp [ingestItem, hf, persistOne_flush, persistOne_none]

end Item

-- `POST /events` without a fault, with the number of submissions that were accepted before it.
def ingestNext (now : Timestamp) (outboxIds : Nat → Nat) (state : Db R × Nat) (body : EventIn) :
    Db R × Nat :=
  let outcome := ingestEvent state.1 body none (outboxIds state.2) now
  (outcome.db state.1, if outcome.answer.any (·.status = "accepted") then state.2 + 1 else state.2)

def ingestEach (db : Db R) (bodies : List EventIn) (outboxIds : Nat → Nat) (now : Timestamp) :
    Db R × Nat :=
  bodies.foldl (ingestNext now outboxIds) (db, 0)

theorem ingestNext_eq (now : Timestamp) (outboxIds : Nat → Nat) (db : Db R) (out : BatchEventOut)
    (body : EventIn) :
    ingestNext now outboxIds (db, out.accepted) body =
      ((submitted db body (outboxIds out.accepted) now).1,
        (out.count (submitted db body (outboxIds out.accepted) now).2).accepted) := by
  simp only [ingestNext, ingestEvent_none, Outcome.db, Outcome.answer, Option.any_some]
  cases (submitted db body (outboxIds out.accepted) now).2 <;>
    simp [PersistOutcome.answer, BatchEventOut.count]

namespace BatchItem

def failing (item : BatchItem) : Bool :=
  item.fault.isSome

-- The submissions of a batch that do not fail.
def kept (items : List BatchItem) : List EventIn :=
  (items.filter (!·.failing)).map (·.body)

def rejected (items : List BatchItem) : List RejectedItem :=
  (items.zipIdx.filter (·.1.failing)).map
    fun item => ⟨item.2, item.1.body.eventId, "Unable to persist event"⟩

end BatchItem

-- The loop over a batch, after these items of it.
structure Mirrors (db : Db R) (outboxIds : Nat → Nat) (now : Timestamp) (items : List BatchItem)
    (state : Db R × BatchEventOut) : Prop where
  tables   : ingestEach db (BatchItem.kept items) outboxIds now = (state.1, state.2.accepted)
  counted  : state.2.accepted + state.2.duplicates + state.2.rejected.length = items.length
  rejected : state.2.rejected = BatchItem.rejected items

namespace Mirrors

variable {db : Db R} {outboxIds : Nat → Nat} {now : Timestamp} {items : List BatchItem}
         {state : Db R × BatchEventOut}

theorem start : Mirrors db outboxIds now [] (db, {}) where
  tables   := rfl
  counted  := rfl
  rejected := rfl

theorem item (h : Mirrors db outboxIds now items state) (item : BatchItem) :
    Mirrors db outboxIds now (items ++ [item])
      (ingestItem now outboxIds state (item, items.length)) := by
  cases hf : item.fault
  case none =>
    have hk : item.failing = false := by simp [BatchItem.failing, hf]
    rw [ingestItem_of_none now outboxIds state.1 state.2 items.length hf]
    constructor
    case tables =>
      have hkept : BatchItem.kept (items ++ [item]) = BatchItem.kept items ++ [item.body] := by
        simp [BatchItem.kept, hk]
      rw [hkept, ingestEach, List.foldl_concat]
      have := h.tables
      simp only [ingestEach] at this
      rw [this, ingestNext_eq]
    case counted =>
      have := h.counted
      cases (submitted state.1 item.body (outboxIds state.2.accepted) now).2 <;>
        simp only [BatchEventOut.count, List.length_append, List.length_singleton] <;> omega
    case rejected =>
      have hr : BatchItem.rejected (items ++ [item]) = BatchItem.rejected items := by
        simp [BatchItem.rejected, List.zipIdx_append, hk]
      rw [hr, ← h.rejected]
      cases (submitted state.1 item.body (outboxIds state.2.accepted) now).2 <;> rfl
  case some fault =>
    have hk : item.failing = true := by simp [BatchItem.failing, hf]
    rw [ingestItem_of_some now outboxIds state.1 state.2 items.length hk]
    constructor
    case tables =>
      have hkept : BatchItem.kept (items ++ [item]) = BatchItem.kept items := by
        simp [BatchItem.kept, hk]
      rw [hkept]
      exact h.tables
    case counted =>
      have := h.counted
      simp only [BatchEventOut.reject, List.length_append, List.length_singleton]
      omega
    case rejected =>
      simp [BatchItem.rejected, List.zipIdx_append, hk, BatchEventOut.reject, h.rejected]

variable (db outboxIds now) in
theorem run (items : List BatchItem) :
    Mirrors db outboxIds now items (items.zipIdx.foldl (ingestItem now outboxIds) (db, {})) := by
  induction items using List.reverseRecOn
  case nil => exact .start
  case append_singleton items item hi =>
    rw [List.zipIdx_append, List.foldl_append]
    simpa using hi.item item

end Mirrors
-- The ids that the sequence gives out are new.
structure Drawn (outbox : Table EventOutbox) (outboxIds : Nat → Nat) : Prop where
  injective : Function.Injective outboxIds
  absent    : ∀ n, outbox.get (outboxIds n) = none

-- The rows that a batch has added, one event and one outbox row for each submission it has accepted.
structure Added (db : Db R) (outboxIds : Nat → Nat) (state : Db R × Nat) : Prop where
  events : state.1.events.rows.length = db.events.rows.length + state.2
  outbox : state.1.eventOutbox.rows.length = db.eventOutbox.rows.length + state.2
  unused : ∀ n, state.2 ≤ n → state.1.eventOutbox.get (outboxIds n) = none

namespace Added

variable {db : Db R} {outboxIds : Nat → Nat} {state : Db R × Nat}

omit [Runtime] in
theorem start (h : Drawn db.eventOutbox outboxIds) : Added db outboxIds (db, 0) where
  events     := rfl
  outbox     := rfl
  unused n _ := h.absent n

theorem next (hd : Drawn db.eventOutbox outboxIds) (h : Added db outboxIds state) (now : Timestamp)
    (body : EventIn) : Added db outboxIds (ingestNext now outboxIds state body) := by
  have he := ingestNext_eq now outboxIds state.1 { accepted := state.2 } body
  simp only at he
  rw [he]
  cases ht : (state.1.events.get body.eventId).isSome
  case true =>
    simp only [submitted, ht, if_true]
    exact ⟨h.events, h.outbox, h.unused⟩
  case false =>
    simp only [submitted, ht, Bool.false_eq_true, if_false, BatchEventOut.count]
    constructor
    case events =>
      have hnone : state.1.events.get body.eventId = none := by simpa using ht
      have hrows := Table.rows_insert (t := state.1.events) (r := body.row) hnone
      simp only [acceptEvent, enqueueOutbox, ensureCustomer, hrows, List.length_append, h.events]
      rfl
    case outbox =>
      simp only [acceptEvent, enqueueOutbox, ensureCustomer]
      rw [Table.rows_insert (h.unused state.2 le_rfl), List.length_append, h.outbox]
      rfl
    case unused =>
      intro n hn
      simp only [acceptEvent, enqueueOutbox, ensureCustomer]
      rw [Table.get_insert_of_none (h.unused state.2 le_rfl), if_neg, h.unused n (by omega)]
      exact fun e => absurd (hd.injective e) (by omega)

theorem each (hd : Drawn db.eventOutbox outboxIds) (bodies : List EventIn) (now : Timestamp) :
    Added db outboxIds (ingestEach db bodies outboxIds now) := by
  induction bodies using List.reverseRecOn
  case nil => exact .start hd
  case append_singleton bodies body hi =>
    rw [ingestEach, List.foldl_concat]
    exact hi.next hd now body

end Added

-- A batch that commits leaves what the submissions that do not fail leave one after another, and says
-- of each item whether it was accepted, a duplicate or rejected. One that does not commit leaves
-- nothing.
theorem batch_item_atomic (db : Db R) (items : List BatchItem) (outboxIds : Nat → Nat)
    (now : Timestamp) (hd : Drawn db.eventOutbox outboxIds) :
    (∃ db' out, ingestBatch db items true outboxIds now = .committed db' out ∧
      db' = (ingestEach db (BatchItem.kept items) outboxIds now).1 ∧
      out.accepted + out.duplicates + out.rejected.length = items.length ∧
      db'.events.rows.length = db.events.rows.length + out.accepted ∧
      db'.eventOutbox.rows.length = db.eventOutbox.rows.length + out.accepted ∧
      out.rejected = BatchItem.rejected items) ∧
    (ingestBatch db items false outboxIds now).db db = db := by
  have h := Mirrors.run db outboxIds now items
  have ha := Added.each hd (BatchItem.kept items) now
  rw [h.tables] at ha
  refine ⟨⟨_, _, rfl, ?_, h.counted, ha.events, ha.outbox, h.rejected⟩, rfl⟩
  rw [h.tables]

-- Ingestion deletes no event.
theorem ingestItem_events_kept (now : Timestamp) (outboxIds : Nat → Nat) (state : Db R × BatchEventOut)
    (item : BatchItem × Nat) {eventId : String} (h : (state.1.events.get eventId).isSome) :
    ((ingestItem now outboxIds state item).1.events.get eventId).isSome := by
  cases hf : item.1.fault
  case some =>
    rw [ingestItem_of_some now outboxIds state.1 state.2 item.2 (by simp [hf])]
    exact h
  case none =>
    rw [ingestItem_of_none now outboxIds state.1 state.2 item.2 hf]
    simp only [submitted]
    split
    case isTrue => exact h
    case isFalse =>
      obtain ⟨evt, he⟩ := Option.isSome_iff_exists.mp h
      exact Option.isSome_iff_exists.mpr ⟨evt, Table.get_insert_of_some he⟩

theorem ingestItems_events_kept (now : Timestamp) (outboxIds : Nat → Nat)
    (items : List (BatchItem × Nat)) (state : Db R × BatchEventOut) {eventId : String}
    (h : (state.1.events.get eventId).isSome) :
    ((items.foldl (ingestItem now outboxIds) state).1.events.get eventId).isSome := by
  induction items generalizing state
  case nil             => exact h
  case cons item _ hi => exact hi _ (ingestItem_events_kept now outboxIds state item h)

theorem submitted_of_duplicate {db : Db R} {body : EventIn}
    (h : (db.events.get body.eventId).isSome) (outboxId : Nat) (now : Timestamp) :
    submitted db body outboxId now = (ensureCustomer db body.customerId now, .duplicate) := by
  simp [submitted, h]

-- A submission whose event is already there is reported as a duplicate, alone or as an item of a batch.
-- It ensures its customer, and leaves everything else as it was.
theorem duplicate_submission (db : Db R) (body : EventIn) (now : Timestamp)
    (h : (db.events.get body.eventId).isSome) :
    (∀ outboxId, ingestEvent db body none outboxId now =
      .committed (ensureCustomer db body.customerId now) (PersistOutcome.duplicate.answer body)) ∧
    (∀ items outboxIds,
      let state := items.zipIdx.foldl (ingestItem now outboxIds) (db, {})
      (items ++ [⟨body, none⟩]).zipIdx.foldl (ingestItem now outboxIds) (db, {}) =
        (ensureCustomer state.1 body.customerId now, state.2.count .duplicate)) ∧
    (∀ db : Db R,
      let db' := ensureCustomer db body.customerId now
      db'.events = db.events ∧ db'.engagementScores = db.engagementScores ∧
      db'.dlqEvents = db.dlqEvents ∧ db'.eventOutbox = db.eventOutbox ∧
      db'.customers.rows = db.customers.rows ++
        if (db.customers.get body.customerId).isSome then [] else [.new body.customerId now]) := by
  refine ⟨fun outboxId => ?_, fun items outboxIds => ?_, fun db => ⟨rfl, rfl, rfl, rfl, ?_⟩⟩
  case refine_1 => rw [ingestEvent_none, submitted_of_duplicate h]
  case refine_2 =>
    rw [List.zipIdx_append, List.foldl_append]
    have hkept := ingestItems_events_kept now outboxIds items.zipIdx (db, {}) h
    simp only [List.zipIdx_singleton, List.foldl_cons, List.foldl_nil]
    rw [ingestItem_of_none now outboxIds _ _ _ rfl, submitted_of_duplicate hkept]
  case refine_3 =>
    simp only [ensureCustomer]
    cases hc : (db.customers.get body.customerId).isSome
    case false =>
      have hnone : db.customers.get body.customerId = none := by simpa using hc
      exact Table.rows_insert (r := Customer.new body.customerId now) hnone
    case true =>
      rw [Table.insert_of_isSome (r := Customer.new body.customerId now) hc]
      exact (List.append_nil _).symm

end Ingestion

section Example

open EpochDay

-- The second item fails, and the third one repeats the first.
def partialFailure : List BatchItem := [
  ⟨unsubscription, none⟩,
  ⟨{ unsubscription with eventId := "bad", eventId_length := by decide }, some .insertEvent⟩,
  ⟨unsubscription, none⟩
]

theorem batch_item_atomic_partialFailure :
    ∃ db' out, ingestBatch seeded.db partialFailure true (· + 1) 0 = .committed db' out ∧
      db' = (ingestEach seeded.db (BatchItem.kept partialFailure) (· + 1) 0).1 ∧
      db'.events.rows.length = out.accepted ∧
      out.rejected = [⟨1, "bad", "Unable to persist event"⟩] := by
  have hd : Drawn seeded.db.eventOutbox (· + 1) := ⟨add_left_injective 1, fun _ => rfl⟩
  obtain ⟨db', out, hc, hdb, -, he, -, hr⟩ :=
    batch_item_atomic seeded.db partialFailure (· + 1) 0 hd |>.1
  exact ⟨db', out, hc, hdb, he.trans (Nat.zero_add _), hr⟩

-- The event again, under a customer that there is no row of.
def resubmission : EventIn :=
  { unsubscription with customerId := "c2", customerId_length := by decide }

theorem resubmission_adds_customer :
    ¬∀ (ops : List Op) (body : EventIn) (now : Timestamp),
      let s := seeded.run .default ops
      (s.db.events.get body.eventId).isSome →
        (ingestEvent s.db body none s.sequences.eventOutbox now).db s.db = s.db := by
  intro h
  have h := h [.ingestEvent unsubscription none 0] resubmission 0 (by decide +kernel)
  have hc := congrArg (fun db => (db.customers.get "c2").isSome) h
  revert hc
  decide +kernel

theorem duplicate_submission_resubmission :
    let db := (seeded.run .default [.ingestEvent unsubscription none 0]).db
    ingestEvent db resubmission none 2 0 =
      .committed (ensureCustomer db "c2" 0) ⟨"e1", "duplicate", "Event already exists in DB"⟩ :=
  (duplicate_submission _ resubmission 0 (by decide +kernel)).1 2

end Example
end MarTech
