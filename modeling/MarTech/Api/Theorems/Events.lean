import MarTech.Api.Events
import MarTech.Api.Theorems.OptOut
import MarTech.Core.Theorems.RateLimit
import MarTech.Pipeline.Theorems.History
import MarTech.Pipeline.Theorems.Submission

namespace MarTech

section Accounting

variable {R : Type} [Runtime]

-- What a submission that does not fail has added to the events.
theorem submitted_events_length (db : Db R) (body : EventIn) (outboxId : Nat) (now : Timestamp) :
    (submitted db body outboxId now).1.events.rows.length = db.events.rows.length +
      if (submitted db body outboxId now).2 = .accepted then 1 else 0 := by
  unfold submitted
  split
  case isTrue         => simp [ensureCustomer]
  case isFalse absent =>
    have hnone : db.events.get body.eventId = none := by simpa using absent
    have hrows := Table.rows_insert (t := db.events) (r := body.row) hnone
    simp [acceptEvent, enqueueOutbox, ensureCustomer, hrows]

theorem ingestItem_events_length (now : Timestamp) (outboxIds : Nat → Nat)
    (state : Db R × BatchEventOut) (item : BatchItem × Nat) :
    (ingestItem now outboxIds state item).1.events.rows.length + state.2.accepted =
      state.1.events.rows.length + (ingestItem now outboxIds state item).2.accepted := by
  cases hf : item.1.fault
  case some =>
    rw [ingestItem_of_some now outboxIds state.1 state.2 item.2 (by simp [hf])]
    rfl
  case none =>
    rw [ingestItem_of_none now outboxIds state.1 state.2 item.2 hf]
    simp only [submitted_events_length]
    cases (submitted state.1 item.1.body (outboxIds state.2.accepted) now).2
    case duplicate => rfl
    case accepted  =>
      simp only [BatchEventOut.count, if_true]
      omega

theorem ingestItems_events_length (now : Timestamp) (outboxIds : Nat → Nat)
    (items : List (BatchItem × Nat)) (state : Db R × BatchEventOut) :
    (items.foldl (ingestItem now outboxIds) state).1.events.rows.length + state.2.accepted =
      state.1.events.rows.length + (items.foldl (ingestItem now outboxIds) state).2.accepted := by
  induction items generalizing state
  case nil => rfl
  case cons item _ hi =>
    have hitem  := ingestItem_events_length now outboxIds state item
    have hitems := hi (ingestItem now outboxIds state item)
    simp only [List.foldl_cons]
    omega

end Accounting

section Runs

variable {R : Type} [Field R] [LinearOrder R] [FloorRing R] [MathExp R] [Runtime]
         (settings : Settings R)

variable {settings} in
-- Only ingestion adds events.
theorem Effect.events_length {db db' : Db R} {l : Label} (e : Effect settings db l db')
    (h : ∀ eventId outboxId, l ≠ .accepted eventId outboxId) :
    db'.events.rows.length = db.events.rows.length := by
  cases e
  case ensureCustomer | rewriteOutbox => rfl
  case acceptEvent        => exact absurd rfl (h _ _)
  case applyEvent         => exact Table.length_update ..
  case requeue            => exact Table.length_update ..
  case deadLetter evt _ _ _ _ _ _ _ =>
    cases evt
    case none => rfl
    case some => exact Table.length_update ..

-- A transaction adds as many events as its answer says, and one that does not ingest adds none.
theorem State.exec_events_length (s : State R) (op : Op) :
    (s.exec settings op).db.events.rows.length = s.db.events.rows.length + s.accepts op := by
  cases op
  case cleanupOutbox | disturbStream => rfl
  case ingestEvent body fault now =>
    cases fault
    case none =>
      simp only [exec, drawOutbox, accepts, ingestEvent_none, Outcome.db, Outcome.answer,
        Option.any_some, submitted_events_length]
      cases (submitted s.db body s.sequences.eventOutbox now).2 <;> rfl
    case some fault =>
      have hfails : ∃ error, MarTech.ingestEvent s.db body (some fault) s.sequences.eventOutbox now =
          .raised error := by
        cases fault
        case insertCustomer => exact ⟨_, rfl⟩
        case insertEvent    => exact ⟨_, rfl⟩
        case flush          =>
          exact ⟨persistFailed, by simp [MarTech.ingestEvent, persistOne_flush, persistOne_none]⟩
      obtain ⟨error, h⟩ := hfails
      simp [exec, drawOutbox, accepts, h, Outcome.db, Outcome.answer]
  case ingestBatch items commits now =>
    have h := ingestItems_events_length now (s.sequences.eventOutbox + ·) items.zipIdx (s.db, {})
    cases commits
    case false => rfl
    case true  => exact h
  case reconcileOutbox now =>
    cases h : MarTech.reconcileOutbox settings s.db s.stream now
    case mk outcome _ =>
      simp only [exec, accepts, h]
      cases outcome
      case committed => exact (reconcileOutbox_committed h).events_length (by simp)
      all_goals rfl
  case processOneEvent payload now =>
    simp only [exec, accepts]
    cases h : MarTech.processOneEvent settings s.db payload now
    case committed =>
      obtain ⟨body, -, e⟩ := processOneEvent_committed h
      exact e.events_length (by simp)
    all_goals rfl
  case failEvent payload error retries now =>
    simp only [exec, drawDlq, accepts]
    cases h : MarTech.failEvent s.db payload error retries s.sequences.dlqEvents now
    case committed =>
      have e : Effect settings _ _ _ := failEvent_committed h
      exact e.events_length (by simp)
    all_goals rfl
  case replayDlq dlqId now =>
    simp only [exec, drawOutbox, accepts]
    cases h : MarTech.replayDlq s.db dlqId s.sequences.eventOutbox now
    case committed =>
      obtain ⟨eventId, e, -⟩ := replayDlq_committed settings h
      exact e.events_length (by simp)
    all_goals rfl

variable {settings} in
-- A happening that stores no event adds none.
theorem Workers.happen_events_length (s : Workers R) {happening : Happening}
    (h : happening.bodies = []) :
    (s.happen settings happening).db.events.rows.length = s.db.events.rows.length := by
  cases happening
  case lose => rfl
  case turn turn =>
    cases turn
    case transact op _ =>
      have hnone : s.toState.accepts op = 0 := by
        cases op
        case ingestEvent => cases h
        case ingestBatch items commits _ _ =>
          obtain rfl := List.map_eq_nil_iff.mp h
          cases commits <;> rfl
        all_goals rfl
      exact (s.toState.exec_events_length settings op).trans (by rw [hnone, Nat.add_zero])
    case advance id now =>
      simp only [happen, Workers.turn]
      cases s.reconciles.get id
      case none   => rfl
      case some r =>
        simp only [Option.elim_some]
        cases s.advance_db settings r now
        case inl h => rw [h]
        case inr h => rw [h, r.write_eq]
    all_goals rfl

omit [Field R] [LinearOrder R] [FloorRing R] [MathExp R] in
-- No answer says that more has been accepted than the limiter was asked for.
theorem IngestBody.accepts_le_cost (s : State R) (body : IngestBody)
    (faults : List (Option PersistStatement)) (commits : Bool) (now : Timestamp) :
    s.accepts (body.op faults commits now) ≤ body.cost := by
  cases body
  case event body =>
    simp only [op, State.accepts, cost]
    generalize (if commits then faults.head?.join else some .flush) = fault
    split <;> decide
  case batch events bounds =>
    have h := Mirrors.run s.db (s.sequences.eventOutbox + ·) now
      (events.zipIdx.map fun p => ⟨p.1, (faults[p.2]?).join⟩) |>.counted
    rw [List.length_map, List.length_zipIdx] at h
    cases commits
    case false => exact Nat.zero_le _
    case true  => exact (Nat.le_add_right ..).trans (Nat.le_add_right ..) |>.trans_eq h

end Runs

namespace Ingestion

variable {T R : Type} [CommRing T] [LinearOrder T] {limit : Nat}

-- Each request that has been let through waits or has been answered, and no answer says that more has
-- been accepted than the request cost.
structure Booked (limit : Nat) (workers : Workers R) (calls : List (RateLimitCall T))
    (s : Ingestion T R) : Prop where
  limiter  : s.limiter = Limiter.run limit calls
  admitted : ((s.answered.map (·.1) ++ s.waiting).map (·.call)).Perm s.limiter.admitted
  charged  : ∀ answer ∈ s.answered, answer.2 ≤ answer.1.body.cost
  added    : s.workers.db.events.rows.length =
    workers.db.events.rows.length + (s.answered.map (·.2)).sum

namespace Booked

variable {workers : Workers R} {calls : List (RateLimitCall T)} {s : Ingestion T R}

theorem start : Booked limit workers ([] : List (RateLimitCall T)) (start workers) where
  limiter           := rfl
  admitted          := .refl []
  charged answer hm := by cases hm
  added             := rfl

theorem arrive (h : Booked limit workers calls s) (request : IngestRequest T) :
    Booked limit workers (calls ++ [request.call]) (s.arrive limit request) := by
  have hrun : s.limiter.serve limit request.call = Limiter.run limit (calls ++ [request.call]) := by
    simp [h.limiter, Limiter.run]
  unfold Ingestion.arrive
  cases ha : rateLimitEvents limit s.limiter.redis request.call
  case mk redis answer =>
    cases answer
    case error error =>
      refine ⟨hrun, ?_, h.charged, h.added⟩
      simpa only [s.limiter.serve_of_error ha] using h.admitted
    case ok =>
      refine ⟨hrun, ?_, h.charged, h.added⟩
      have happend (requests : List (IngestRequest T)) :
          (requests ++ [request]).map (·.call) = requests.map (·.call) ++ [request.call] :=
        List.map_append
      simp only [s.limiter.serve_of_ok ha, ← List.append_assoc, happend]
      exact h.admitted.append_right [request.call]

-- In no minute has a client been told of more events than the limit that they are accepted.
theorem accepted_le (h : Booked limit workers calls s) (client : String) (t : T) :
    ((s.answered.filter fun answer => (eventMeter limit).counts client t answer.1.call).map (·.2)).sum ≤
      (eventMeter limit).used s.limiter.admitted client t := by
  let counts := (eventMeter (T := T) limit).counts client t
  calc
    _ ≤ ((s.answered.filter fun answer => counts answer.1.call).map (·.1.call.cost)).sum :=
      List.sum_le_sum fun answer hm => h.charged answer (List.mem_of_mem_filter hm)
    _ = ((((s.answered.map (·.1)).map (·.call)).filter counts).map (·.cost)).sum := by
      simp only [List.map_map, List.filter_map, Function.comp_def]
    _ ≤ ((((s.answered.map (·.1) ++ s.waiting).map (·.call)).filter counts).map (·.cost)).sum := by
      rw [List.map_append, List.filter_append, List.map_append, List.sum_append]
      exact Nat.le_add_right ..
    _ = _ := ((h.admitted.filter counts).map (·.cost)).sum_eq

variable [Field R] [LinearOrder R] [FloorRing R] [MathExp R] [Runtime]

theorem persist (settings : Settings R) (h : Booked limit workers calls s) (position : Nat)
    (faults : List (Option PersistStatement)) (commits : Bool) (now : Timestamp) :
    Booked limit workers calls (s.persist settings position faults commits now) := by
  unfold Ingestion.persist
  cases hg : s.waiting[position]?
  case none         => exact h
  case some request =>
    obtain ⟨hlt, rfl⟩ := List.getElem?_eq_some_iff.mp hg
    refine ⟨h.limiter, ?_, ?_, ?_⟩
    case refine_1 =>
      -- The request goes from those that wait to those that have been answered.
      refine List.Perm.trans (.map _ ?_) h.admitted
      rw [List.map_append, List.append_assoc]
      refine List.Perm.append_left _ ?_
      exact (List.getElem_cons_eraseIdx_perm hlt)
    case refine_2 =>
      intro answer hm
      obtain hm | rfl := List.mem_append.mp hm |>.imp_right List.mem_singleton.mp
      · exact h.charged answer hm
      · exact IngestBody.accepts_le_cost ..
    case refine_3 =>
      simp only [List.map_append, List.sum_append, List.map_cons, List.map_nil, List.sum_singleton]
      rw [State.exec_events_length, h.added, Nat.add_assoc]

theorem run (settings : Settings R) (workers : Workers R) (turns : List (Turn T)) :
    Booked limit workers (turns.filterMap Turn.call) (run limit settings workers turns) := by
  induction turns using List.reverseRecOn
  case nil => exact .start
  case append_singleton turns turn hi =>
    rw [Ingestion.run, List.foldl_append, List.filterMap_append]
    cases turn
    case arrive request => exact hi.arrive request
    case persist position faults commits now =>
      rw [List.filterMap_cons_none rfl, List.filterMap_nil, List.append_nil]
      exact hi.persist settings position faults commits now
    case happen happening other =>
      rw [List.filterMap_cons_none rfl, List.filterMap_nil, List.append_nil]
      exact ⟨hi.limiter, hi.admitted, hi.charged,
        (Workers.happen_events_length _ other).trans hi.added⟩

end Booked

variable [Field R] [LinearOrder R] [FloorRing R] [MathExp R] [Runtime]

-- However requests, transactions and everything else interleave, and whatever fails: of the events that
-- a client submits in a minute no more than the limit are stored, and no event comes from elsewhere.
theorem throttled [IsStrictOrderedRing T] (settings : Settings R) (limit : Nat) (workers : Workers R)
    (turns : List (Turn T)) (ho : Orderly (turns.filterMap Turn.call)) :
    let s := Ingestion.run limit settings workers turns
    (∀ client t, ((s.answered.filter fun (request, _) =>
      request.call.clientIp = client ∧ t - 60 < request.now ∧ request.now ≤ t).map (·.2)).sum ≤ limit) ∧
    s.workers.db.events.rows.length =
      workers.db.events.rows.length + (s.answered.map (·.2)).sum := by
  intro s
  have h : Booked limit workers (turns.filterMap Turn.call) s := .run settings workers turns
  refine ⟨fun client t => (h.accepted_le client t).trans ?_, h.added⟩
  rw [h.limiter, (Exact.run limit ho).admitted]
  exact Meter.used_admitted_le ho.ordered client t

end Ingestion
section Status

variable {R : Type} [Field R] [LinearOrder R] [FloorRing R] [MathExp R] [Runtime]

-- What a client that asks for an event twice is answered: it has a time just when it is processed, and
-- then the answer is final. A failed event remains so unless one of its dead letters is replayed.
theorem status_settles (settings : Settings R) {s : State R} (he : s.db.events = ∅)
    (before after : List Workers.Happening) (eventId : String) :
    let db  := ((Workers.idle s).history settings before).db
    let db' := ((Workers.idle s).history settings (before ++ after)).db
    ∀ answer, eventStatus db eventId = .ok answer →
      answer.eventId = eventId ∧ (answer.processedAt.isSome ↔ answer.status = .processed) ∧
      ∃ answer', eventStatus db' eventId = .ok answer' ∧
        (answer.status = .processed → answer' = answer) ∧
        (answer.status = .failed → answer' = answer ∨ ∃ letter, Replayed db db' eventId letter) := by
  intro db db' answer ha
  obtain ⟨ls, e⟩ := (Workers.idle s).history_effects settings before
  have hrun : db' = (((Workers.idle s).history settings before).history settings after).db :=
    congrArg (·.db) ((Workers.idle s).history_append settings before after)
  obtain ⟨ls', e'⟩ := ((Workers.idle s).history settings before).history_effects settings after
  rw [← hrun] at e'
  have hstamped : db.Stamped := e.stamped (Db.stamped_of_no_events he)
  cases hg : db.events.get eventId
  case none     => simp [eventStatus, hg] at ha
  case some evt =>
    simp only [eventStatus, hg, Except.ok.injEq] at ha
    subst ha
    obtain ⟨evt', hg', -⟩ := e'.events_kept hg
    refine ⟨Table.key_of_get hg, hstamped evt (Table.mem_of_get hg),
      ⟨evt'.eventId, evt'.status, evt'.processedAt⟩, by simp [eventStatus, hg'], fun hp => ?_,
      fun hf => ?_⟩
    case refine_1 =>
      have h : db'.events.get eventId = some evt := e'.processed_kept hg hp
      rw [hg'] at h
      cases h
      rfl
    case refine_2 =>
      refine (e'.failed_kept hg hf).imp_left fun h => ?_
      rw [hg'] at h
      cases h
      rfl

end Status
section Example

open EpochDay

-- An event whose processing has failed for good, and then the replay of its dead letter.
def failOnce : List Workers.Happening := [
  .ingest unsubscription (6 * Timestamp.second),
  .turn (.transact (.failEvent unsubscription.modelDump noDurableRecord 3 (7 * Timestamp.second)) rfl)
]

def replayOnce : List Workers.Happening :=
  [.turn (.transact (.replayDlq 1 (8 * Timestamp.second)) rfl)]

theorem status_settles_failedOnce :
    let db  := ((Workers.idle seeded).history .default failOnce).db
    let db' := ((Workers.idle seeded).history .default (failOnce ++ replayOnce)).db
    ∃ answer', eventStatus db' "e1" = .ok answer' ∧
      (answer' = ⟨"e1", .failed, none⟩ ∨ ∃ letter, Replayed db db' "e1" letter) := by
  intro db db'
  have ha : eventStatus db "e1" = .ok ⟨"e1", .failed, none⟩ := by decide +kernel
  obtain ⟨-, -, answer', h, -, hf⟩ :=
    status_settles .default (s := seeded) rfl failOnce replayOnce "e1" _ ha
  exact ⟨answer', h, hf rfl⟩

def request (uuid : String) (now : Int) (body : IngestBody) : IngestRequest Int where
  host := some "rate-test"
  now  := now
  uuid := uuid
  body := body

-- A batch with a duplicate, an event that does not fit, and the transaction of the batch.
def twoRequests : List (Ingestion.Turn Int) := [
  .arrive (request "a" 1000 (.batch [unsubscription, unsubscription] (by decide))),
  .arrive (request "b" 1001 (.event unsubscription)),
  .persist 0 [] true (6 * Timestamp.second)
]

theorem throttled_twoRequests :
    let s := Ingestion.run 2 .default (Workers.idle seeded) twoRequests
    (∀ client t, ((s.answered.filter fun (request, _) =>
      request.call.clientIp = client ∧ t - 60 < request.now ∧ request.now ≤ t).map (·.2)).sum ≤ 2) ∧
    s.workers.db.events.rows.length = 0 + (s.answered.map (·.2)).sum :=
  Ingestion.throttled .default 2 (Workers.idle seeded) twoRequests (by constructor <;> decide)

end Example
end MarTech
