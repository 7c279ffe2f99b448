import MarTech.Pipeline.Transactions

namespace MarTech

-- What becomes of a submission whose request is answered with 202.
inductive Verdict
  | accepted
  | duplicate
  | rejected
deriving DecidableEq

def PersistOutcome.verdict : PersistOutcome → Verdict
  | accepted  => .accepted
  | duplicate => .duplicate

abbrev Verdicts := List (EventIn × Verdict)

-- The submissions of an event which were counted as accepted.
def Verdicts.accepted (verdicts : Verdicts) (eventId : String) : List EventIn :=
  (verdicts.filter fun v => v.2 = .accepted ∧ v.1.eventId = eventId).map (·.1)

def BatchEventOut.of (verdicts : Verdicts) : BatchEventOut where
  accepted   := verdicts.countP (·.2 = .accepted)
  duplicates := verdicts.countP (·.2 = .duplicate)
  rejected   := (verdicts.zipIdx.filter (·.1.2 = .rejected)).map fun v =>
    ⟨v.2, v.1.1.eventId, "Unable to persist event"⟩

-- The reply together with the verdicts that it sums up, in the order in which they were reached.
structure Receipt where
  reply    : Except Error Reply
  verdicts : Verdicts

inductive Submission
  | ingestEvent (body : EventIn) (fault : Option PersistStatement) (outboxId : Nat) (now : Timestamp)
  | ingestBatch (items : List BatchItem) (outboxIds : Nat → Nat) (now : Timestamp)

variable {R : Type}

namespace Receipt

variable [Runtime]

-- The transactions of the ingestion, which keep a record of each verdict as they reach it.
def ingestEvent (body : EventIn) (fault : Option PersistStatement) (outboxId : Nat)
    (now : Timestamp) : Program (Tables R) Lock Receipt :=
  Transaction.persistOne body fault outboxId now fun
  | .error _    => .rollback ⟨.error persistFailed, []⟩
  | .ok outcome =>
    if fault = some .flush then
      .rollback ⟨.error persistFailed, []⟩
    else
      .commit ⟨.ok (.event (outcome.answer body)), [(body, outcome.verdict)]⟩

def ingestItems (outboxIds : Nat → Nat) (now : Timestamp) :
    List (BatchItem × Nat) → BatchEventOut → Verdicts → Program (Tables R) Lock Receipt
  | [], out, verdicts => .commit ⟨.ok (.batch out), verdicts⟩
  | (item, index) :: items, out, verdicts =>
    let reject := ingestItems outboxIds now items (out.reject index item.body)
      (verdicts ++ [(item.body, .rejected)])
    .savepoint <| Transaction.persistOne item.body item.fault (outboxIds out.accepted) now fun
    | .error _    => .undo reject
    | .ok outcome =>
      if item.fault = some .flush then
        .undo reject
      else
        ingestItems outboxIds now items (out.count outcome)
          (verdicts ++ [(item.body, outcome.verdict)])

end Receipt

namespace Submission

variable [Runtime]

def transaction : Submission → Transaction R
  | ingestEvent body fault outboxId now => .ingestEvent body fault outboxId now
  | ingestBatch items outboxIds now     => .ingestBatch items outboxIds now

def receipt : Submission → Program (Tables R) Lock Receipt
  | ingestEvent body fault outboxId now => Receipt.ingestEvent body fault outboxId now
  | ingestBatch items outboxIds now     => Receipt.ingestItems outboxIds now items.zipIdx {} []

-- A receipt has one verdict for each submission of the request, and its reply counts them.
def Answers : Submission → Receipt → Prop
  | ingestEvent body .., receipt => ∃ outcome : PersistOutcome,
    receipt = ⟨.ok (.event (outcome.answer body)), [(body, outcome.verdict)]⟩
  | ingestBatch items .., receipt =>
    receipt.reply = .ok (.batch (.of receipt.verdicts)) ∧
      receipt.verdicts.map (·.1) = items.map (·.body)

end Submission

namespace BatchEventOut

theorem of_append (verdicts : Verdicts) (body : EventIn) (outcome : PersistOutcome) :
    of (verdicts ++ [(body, outcome.verdict)]) = (of verdicts).count outcome := by
  cases outcome <;> simp [of, count, PersistOutcome.verdict, List.zipIdx_append]

theorem of_append_rejected (verdicts : Verdicts) (body : EventIn) :
    of (verdicts ++ [(body, .rejected)]) = (of verdicts).reject verdicts.length body := by
  simp [of, reject, List.zipIdx_append]

end BatchEventOut

namespace Verdicts

theorem accepted_append (vs vs' : Verdicts) (eventId : String) :
    (vs ++ vs').accepted eventId = vs.accepted eventId ++ vs'.accepted eventId := by
  simp [accepted]

end Verdicts

section Map

variable {ο ο' : Type} {f : ο → ο'}

theorem Transaction.map_insertOutbox (eventId : String) (payload : Json.Object) (id : Nat)
    (now : Timestamp) (next : Except Error Unit → Program (Tables R) Lock ο) :
    (insertOutbox eventId payload id now next).map f =
      insertOutbox eventId payload id now fun result => (next result).map f :=
  rfl

variable [Runtime]

theorem Transaction.map_persistOne (body : EventIn) (fault : Option PersistStatement)
    (outboxId : Nat) (now : Timestamp)
    (next : Except Error PersistOutcome → Program (Tables R) Lock ο) :
    (persistOne body fault outboxId now next).map f =
      persistOne body fault outboxId now fun result => (next result).map f := by
  unfold persistOne
  split
  case isTrue  => rfl
  case isFalse =>
    simp only [Program.map]
    congr 1
    funext _
    split
    case isTrue  => rfl
    case isFalse =>
      simp only [Program.map]
      congr 1
      funext s
      split
      case isTrue  => rfl
      case isFalse =>
        rw [map_insertOutbox]
        congr 1
        funext result
        cases result <;> rfl

-- Keeping the record makes no difference to the statements that are sent.
theorem Receipt.map_ingestEvent (body : EventIn) (fault : Option PersistStatement)
    (outboxId : Nat) (now : Timestamp) :
    (Receipt.ingestEvent (R := R) body fault outboxId now).map Receipt.reply =
      Transaction.ingestEvent body fault outboxId now := by
  rw [Receipt.ingestEvent, Transaction.ingestEvent, Transaction.map_persistOne]
  congr 1
  funext result
  cases result
  case error => rfl
  case ok    => simp only; split <;> rfl

theorem Receipt.map_ingestItems (outboxIds : Nat → Nat) (now : Timestamp)
    (items : List (BatchItem × Nat)) (out : BatchEventOut) (verdicts : Verdicts) :
    (Receipt.ingestItems (R := R) outboxIds now items out verdicts).map Receipt.reply =
      Transaction.ingestItems outboxIds now items out := by
  induction items generalizing out verdicts
  case nil => rfl
  case cons item items hi =>
    simp only [Receipt.ingestItems, Transaction.ingestItems, Program.map, Transaction.map_persistOne]
    congr 2
    funext result
    cases result
    case error => simp only [Program.map, hi]
    case ok    => simp only; split <;> simp only [Program.map, hi]

theorem Submission.map_receipt (submission : Submission) :
    (submission.receipt (R := R)).map Receipt.reply = submission.transaction := by
  cases submission
  case ingestEvent => exact Receipt.map_ingestEvent ..
  case ingestBatch => exact Receipt.map_ingestItems ..

end Map
end MarTech
