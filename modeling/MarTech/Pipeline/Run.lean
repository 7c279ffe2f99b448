import MarTech.Pipeline.Effect

namespace MarTech

variable {R : Type}

-- The tables, the sequences behind their keys, and the Redis stream.
structure State (R : Type) where
  db        : Db R
  sequences : Sequences
  stream    : Stream

-- The transactions of the pipeline, with the clock readings they make and the faults they meet.
-- A message reaches `process_one_event` and `fail_event` as an arbitrary payload, and the stream
-- may turn into any other stream: nothing is assumed about redelivery, order, loss or forgery.
inductive Op
  | ingestEvent (body : EventIn) (fault : Option PersistStatement) (now : Timestamp)
  | ingestBatch (items : List BatchItem) (commits : Bool) (now : Timestamp)
  | reconcileOutbox (now : Timestamp)
  | processOneEvent (payload : Json.Object) (now : Timestamp)
  | failEvent (payload : Json.Object) (error : Error) (retries : Nat) (now : Timestamp)
  | replayDlq (dlqId : Nat) (now : Timestamp)
  | cleanupOutbox (now : Timestamp)
  | disturbStream (stream : Stream)

variable [Field R] [LinearOrder R] [FloorRing R] [MathExp R] [Runtime]

def Outcome.isCommitted {α : Type} : Outcome R α → Bool
  | committed .. => true
  | _            => false

namespace State

def drawOutbox (s : State R) (n : Nat) : State R :=
  { s with sequences := { s.sequences with eventOutbox := s.sequences.eventOutbox + n } }

def drawDlq (s : State R) : State R :=
  { s with sequences := { s.sequences with dlqEvents := s.sequences.dlqEvents + 1 } }

def exec (settings : Settings R) (s : State R) : Op → State R
  | .ingestEvent body fault now =>
    { s with db := (ingestEvent s.db body fault s.sequences.eventOutbox now).db s.db }.drawOutbox 1
  | .ingestBatch items commits now =>
    { s with db := (ingestBatch s.db items commits (s.sequences.eventOutbox + ·) now).db s.db
      }.drawOutbox items.length
  | .reconcileOutbox now =>
    let (outcome, stream) := reconcileOutbox settings s.db s.stream now
    { s with db := outcome.db s.db, stream := stream }
  | .processOneEvent payload now =>
    { s with db := (processOneEvent settings s.db payload now).db s.db }
  | .failEvent payload error retries now =>
    { s with db := (failEvent s.db payload error retries s.sequences.dlqEvents now).db s.db }.drawDlq
  | .replayDlq dlqId now =>
    { s with db := (replayDlq s.db dlqId s.sequences.eventOutbox now).db s.db }.drawOutbox 1
  | .cleanupOutbox now =>
    { s with db := cleanupOutbox settings s.db now }
  | .disturbStream stream =>
    { s with stream := stream }

def run (settings : Settings R) (s : State R) (ops : List Op) : State R :=
  ops.foldl (exec settings) s

-- The event that a transaction commits as processed.
def processes (settings : Settings R) (s : State R) : Op → List String
  | .processOneEvent payload now =>
    if (processOneEvent settings s.db payload now).isCommitted then
      ((EventIn.modelValidate payload).map (·.eventId)).toList
    else
      []
  | _ => []

-- The events processed in a run, in the order in which their processing committed.
def processedLog (settings : Settings R) (s : State R) : List Op → List String
  | []        => []
  | op :: ops => processes settings s op ++ processedLog settings (exec settings s op) ops

end State

section Specs

variable {settings : Settings R} {db : Db R}

-- A commit of `process_one_event` is one application of an event that was pending.
theorem processOneEvent_committed {payload : Json.Object} {now : Timestamp} {db' : Db R}
    (h : processOneEvent settings db payload now = .committed db' ()) :
    ∃ body, EventIn.modelValidate payload = some body ∧
      Effect settings db (.processed body.eventId) db' := by
  simp only [processOneEvent] at h
  split at h
  case h_1 => cases h
  case h_2 body hb =>
    split at h
    case h_1 => cases h
    case h_2 evt he =>
      split at h
      case isTrue => cases h
      case isFalse hs =>
        split at h
        case h_1 => cases h
        case h_2 customer hc =>
          have hid : evt.eventId = body.eventId := Table.key_of_get he
          have hp : evt.status = .pending := by
            cases hst : evt.status <;> simp_all
          cases h
          exact ⟨body, hb, hid ▸ .applyEvent evt customer now (hid ▸ he) hp hc⟩

omit [Field R] [LinearOrder R] [FloorRing R] [MathExp R] in
-- A commit of `fail_event` dead-letters the payload, and fails the event if it is there.
theorem failEvent_eq {payload : Json.Object} {error : Error} {retries dlqId : Nat} {now : Timestamp}
    {db' : Db R} (h : failEvent db payload error retries dlqId now = .committed db' ()) :
    let evt := db.events.get (payloadEventId payload)
    db' = deadLetter db evt (payloadEventId payload) payload error retries dlqId now ∧
      ∀ e ∈ evt, e.status = .pending := by
  simp only [failEvent] at h
  split at h
  case isTrue => cases h
  case isFalse hs =>
    cases h
    refine ⟨rfl, fun e he => ?_⟩
    cases hst : e.status <;> simp_all

theorem failEvent_committed {payload : Json.Object} {error : Error} {retries dlqId : Nat}
    {now : Timestamp} {db' : Db R}
    (h : failEvent db payload error retries dlqId now = .committed db' ()) :
    Effect settings db
      (.deadLettered (payloadEventId payload) (db.events.get (payloadEventId payload)).isSome dlqId)
      db' := by
  obtain ⟨hdb, hp⟩ := failEvent_eq h
  exact hdb ▸ .deadLetter _ _ _ _ _ _ _ fun e he => ⟨he, hp e he⟩

omit [Field R] [LinearOrder R] [FloorRing R] [MathExp R] in
-- A commit of `replay_dlq` requeues the failed event of a letter that has not been replayed.
theorem replayDlq_eq {dlqId outboxId : Nat} {now : Timestamp} {db' : Db R} {answer : ReplayAnswer}
    (h : replayDlq db dlqId outboxId now = .committed db' answer) :
    ∃ row evt body, db.dlqEvents.get dlqId = some row ∧ row.replayedAt = none ∧
      db.events.get row.eventId = some evt ∧ evt.status = .failed ∧ evt.toEventIn = some body ∧
      db' = requeue db row evt body outboxId now ∧ answer = ⟨"requeued", row.eventId, dlqId⟩ := by
  simp only [replayDlq] at h
  split at h
  case h_1 => cases h
  case h_2 row hr =>
    split at h
    case isTrue => cases h
    case isFalse hn =>
      split at h
      case h_1 => cases h
      case h_2 evt he =>
        split at h
        case h_1 => cases h
        case h_2 body hb =>
          obtain ⟨he, hf⟩ := Option.filter_eq_some_iff.mp he
          cases h
          exact ⟨row, evt, body, hr, by simpa using hn, he, by simpa using hf, hb, rfl, rfl⟩

theorem replayDlq_committed (settings : Settings R) {dlqId outboxId : Nat} {now : Timestamp} {db' : Db R}
    {answer : ReplayAnswer} (h : replayDlq db dlqId outboxId now = .committed db' answer) :
    ∃ eventId, Effect settings db (.requeued eventId dlqId outboxId) db' ∧
      answer = ⟨"requeued", eventId, dlqId⟩ := by
  obtain ⟨row, evt, body, hr, hn, he, hf, _, rfl, rfl⟩ := replayDlq_eq h
  have hid : evt.eventId = row.eventId := Table.key_of_get he
  have hrow : row.id = dlqId := Table.key_of_get hr
  refine ⟨evt.eventId, ?_, by rw [hid]⟩
  rw [← hrow] at hr ⊢
  exact .requeue row evt body outboxId now hr hn hid.symm (hid ▸ he) hf

theorem persistOne_effects {body : EventIn} {fault : Option PersistStatement} {outboxId : Nat}
    {now : Timestamp} {db' : Db R} {outcome : PersistOutcome}
    (h : persistOne db body fault outboxId now = .ok (db', outcome)) :
    ∃ ls, Effects settings db ls db' ∧ ls.filterMap Label.processedId? = [] := by
  have ho := persistOne_ok h
  cases outcome
  case duplicate =>
    obtain ⟨rfl, -⟩ := ho
    exact ⟨_, .single (.ensureCustomer _ now), rfl⟩
  case accepted =>
    obtain ⟨rfl, ha⟩ := ho
    have e : Effect settings (ensureCustomer db body.customerId now) _ _ :=
      .acceptEvent body body.modelDump outboxId now ha (ensureCustomer_owned db body.customerId now)
    exact ⟨_, .step (.ensureCustomer _ now) (.single e), rfl⟩

theorem ingestItem_effects (settings : Settings R) (db : Db R) (now : Timestamp)
    (outboxIds : Nat → Nat) (out : BatchEventOut) (item : BatchItem × Nat) :
    ∃ ls, Effects settings db ls (ingestItem now outboxIds (db, out) item).1 ∧
      ls.filterMap Label.processedId? = [] := by
  simp only [ingestItem]
  split
  case h_1 => exact ⟨_, .refl, rfl⟩
  case h_2 db' outcome h =>
    split
    case isTrue  => exact ⟨_, .refl, rfl⟩
    case isFalse => cases outcome <;> exact persistOne_effects h

theorem ingestItems_effects (now : Timestamp) (outboxIds : Nat → Nat) (out : BatchEventOut)
    (items : List (BatchItem × Nat)) :
    ∃ ls, Effects settings db ls (items.foldl (ingestItem now outboxIds) (db, out)).1 ∧
      ls.filterMap Label.processedId? = [] := by
  induction items generalizing db out
  case nil => exact ⟨_, .refl, rfl⟩
  case cons item items hi =>
    obtain ⟨ls, e, h⟩ := ingestItem_effects settings db now outboxIds out item
    cases hs : ingestItem now outboxIds (db, out) item
    case mk db' out' =>
      rw [hs] at e
      obtain ⟨ls', e', h'⟩ := @hi db' out'
      exact ⟨ls ++ ls', by rw [List.foldl_cons, hs]; exact e.trans e', by simp [h, h']⟩

omit [Field R] [LinearOrder R] [FloorRing R] [MathExp R] [Runtime] in
-- Publication writes nothing but the outbox.
theorem publishRows_ok {now : Timestamp} {stream stream' : Stream} {rows : List EventOutbox}
    {db' : Db R} {count : Nat} (h : publishRows now db stream rows = (.ok (db', count), stream')) :
    db' = { db with eventOutbox := db'.eventOutbox } := by
  induction rows generalizing db stream count
  case nil =>
    simp only [publishRows, Prod.mk.injEq, Except.ok.injEq] at h
    rw [← h.left.left]
  case cons row rows hi =>
    simp only [publishRows] at h
    split at h
    case h_1 => cases h
    case h_2 =>
      split at h
      case h_1 => cases h
      case h_2 he =>
        cases h
        have := hi he
        exact this

theorem reconcileOutbox_committed {stream stream' : Stream} {now : Timestamp} {db' : Db R}
    {count : Nat} (h : reconcileOutbox settings db stream now = (.committed db' count, stream')) :
    Effect settings db .outboxRewritten db' := by
  simp only [reconcileOutbox] at h
  split at h
  case h_1 => cases h
  case h_2 db'' _ _ he =>
    have hdb := publishRows_ok he
    simp only [Prod.mk.injEq, Outcome.committed.injEq] at h
    rw [← h.left.left, cleanupOutbox, hdb]
    exact .rewriteOutbox _

end Specs

namespace State

variable (settings : Settings R)

-- Each transaction is a sequence of effects, at most one of which processes an event.
theorem exec_effects (s : State R) (op : Op) :
    ∃ ls, Effects settings s.db ls (s.exec settings op).db ∧
      ls.filterMap Label.processedId? = s.processes settings op := by
  cases op <;> simp only [exec, drawOutbox, drawDlq, processes]
  case disturbStream => exact ⟨_, .refl, rfl⟩
  case cleanupOutbox => exact ⟨_, .single (.rewriteOutbox _), rfl⟩
  case ingestEvent body fault now =>
    simp only [ingestEvent]
    split
    case h_1 => exact ⟨_, .refl, rfl⟩
    case h_2 h =>
      split
      case isTrue  => exact ⟨_, .refl, rfl⟩
      case isFalse => exact persistOne_effects h
  case ingestBatch items commits now =>
    cases commits
    case false => exact ⟨_, .refl, rfl⟩
    case true  => exact ingestItems_effects now _ {} _
  case reconcileOutbox now =>
    cases h : MarTech.reconcileOutbox settings s.db s.stream now
    case mk outcome _ =>
      cases outcome
      case committed => exact ⟨_, .single (reconcileOutbox_committed h), rfl⟩
      all_goals exact ⟨_, .refl, rfl⟩
  case processOneEvent payload now =>
    cases h : MarTech.processOneEvent settings s.db payload now
    case committed =>
      obtain ⟨body, hb, e⟩ := processOneEvent_committed h
      exact ⟨_, .single e, by simp [Label.processedId?, Outcome.isCommitted, hb]⟩
    all_goals exact ⟨_, .refl, by simp [Outcome.isCommitted]⟩
  case failEvent payload error retries now =>
    cases h : MarTech.failEvent s.db payload error retries s.sequences.dlqEvents now
    case committed => exact ⟨_, .single (failEvent_committed h), rfl⟩
    all_goals exact ⟨_, .refl, rfl⟩
  case replayDlq dlqId now =>
    cases h : MarTech.replayDlq s.db dlqId s.sequences.eventOutbox now
    case committed =>
      obtain ⟨eventId, e, -⟩ := replayDlq_committed settings h
      exact ⟨_, .single e, rfl⟩
    all_goals exact ⟨_, .refl, rfl⟩

theorem run_effects (s : State R) (ops : List Op) :
    ∃ ls, Effects settings s.db ls (s.run settings ops).db ∧
      ls.filterMap Label.processedId? = s.processedLog settings ops := by
  induction ops generalizing s
  case nil => exact ⟨_, .refl, rfl⟩
  case cons op ops hi =>
    obtain ⟨ls, e, h⟩ := exec_effects settings s op
    obtain ⟨ls', e', h'⟩ := hi (s.exec settings op)
    exact ⟨ls ++ ls', e.trans e', by simp [h, h', processedLog]⟩

end State
end MarTech
