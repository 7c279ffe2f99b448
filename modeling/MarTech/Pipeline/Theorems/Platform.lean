import MarTech.Pipeline.Platform
import MarTech.Pipeline.Theorems.Queue
import MarTech.Pipeline.Theorems.Wire

namespace MarTech

variable {R : Type}

namespace Stream

variable {redis : RedisStream}

theorem of_enqueue (customerId : Json) (payload : Json.Object) :
    (Stream.of redis).enqueue customerId payload =
      (Stream.of (RedisStreamsQueue.enqueue redis customerId payload).1, redis.log.nextId) := by
  simp [Stream.of, enqueue, RedisStreamsQueue.enqueue, Broker.add, MessageLog.add]

theorem of_ack (messageId : MessageId) :
    (Stream.of redis).ack messageId = Stream.of (redis.ack messageId) := by
  simp [Stream.of, ack, Broker.ack, MessageLog.delete, List.filter_map, Function.comp_def]

end Stream

namespace Cluster

-- What a worker or the loss of the memory does to the stream.
theorem turn_stream (settings : QueueSettings) (cluster : Cluster) (t : ClusterTurn)
    (worker : t.publishes = false) :
    Stream.of (cluster.turn settings t).redis = Stream.of cluster.redis ∨
      (∃ messageId, Stream.of (cluster.turn settings t).redis =
        (Stream.of cluster.redis).ack messageId) ∨
      Stream.of (cluster.turn settings t).redis = (Stream.of cluster.redis).lose := by
  cases t
  case enqueue => cases worker
  case ensureGroup | crash => exact .inl rfl
  case lose => exact .inr <| .inr rfl
  case autoclaim name now =>
    refine .inl ?_
    rw [Stream.of, autoclaim_log]
    rfl
  case readgroup name now =>
    refine .inl ?_
    rw [Stream.of, readgroup_log]
    rfl
  case ack name messageId =>
    simp only [turn, work, RedisStreamsQueue.ack]
    split
    case isTrue  => exact .inr <| .inl ⟨messageId, (Stream.of_ack messageId).symm⟩
    case isFalse => exact .inl rfl

end Cluster

namespace Platform

variable {settings : Settings R} {queue : QueueSettings} {p : Platform R}

theorem advance_stream (r : Reconcile) (now : Timestamp) :
    Stream.of (p.advance settings queue r now).cluster.redis =
      (p.workers.advance settings r now).stream := by
  cases hs : r.stage <;> simp only [advance, Reconcile.message, Workers.advance, hs]
  case claim | mark => rfl
  case contains rows =>
    cases rows
    case nil => rfl
    case cons row rows =>
      dsimp only
      split
      case h_1 => rfl
      case h_2 => split <;> rfl
  case enqueue row rows =>
    cases row.payload.get "customer_id"
    case none            => rfl
    case some customerId =>
      simp only [Option.map_some, Option.elim_some, Cluster.turn]
      exact (congrArg Prod.fst (Stream.of_enqueue customerId row.payload)).symm
  case delete ids =>
    cases ids
    case nil  => rfl
    case cons => dsimp only; split <;> rfl

-- On the platform as on `Workers`.
theorem workers_advance (r : Reconcile) (now : Timestamp) :
    (p.advance settings queue r now).workers = p.workers.advance settings r now := by
  rw [workers, advance_stream]
  rfl

section Steps

variable [Field R] [LinearOrder R] [FloorRing R] [MathExp R] [Runtime]

theorem workers_transact {op : Op} (submission : op.isSubmission) :
    (p.transact settings op).workers = p.workers.turn settings (.transact op submission) := by
  cases op
  case reconcileOutbox | cleanupOutbox | disturbStream => cases submission
  all_goals rfl

variable (settings queue p) in
-- Each turn of the platform is a happening of `Workers`, or none, and takes in the same events.
theorem turn_workers (t : PlatformTurn) :
    ∃ happenings, (p.turn settings queue t).workers = p.workers.history settings happenings ∧
      ∀ happening ∈ happenings, happening.bodies ⊆ t.bodies := by
  have hnone : ∃ happenings, p.workers = p.workers.history settings happenings ∧
      ∀ happening ∈ happenings, happening.bodies ⊆ t.bodies := ⟨[], rfl, by simp⟩
  cases t
  case request op request =>
    have submission : op.isSubmission := by cases op <;> first | rfl | cases request
    exact ⟨[.turn (.transact op submission)], workers_transact submission,
      by simp [Workers.Happening.bodies, PlatformTurn.bodies]⟩
  case start id => exact ⟨[.turn (.start id)], rfl, by simp [Workers.Happening.bodies]⟩
  case abort id => exact ⟨[.turn (.abort id)], rfl, by simp [Workers.Happening.bodies]⟩
  case advance id now =>
    refine ⟨[.turn (.advance id now)], ?_, by simp [Workers.Happening.bodies]⟩
    simp only [turn, Workers.history, List.foldl_cons, List.foldl_nil, Workers.happen, Workers.turn]
    cases hr : p.reconciles.get id
    case none   => simp [workers, hr]
    case some r => simpa [workers, hr] using workers_advance r now
  case queue t worker =>
    obtain he | ⟨messageId, he⟩ | he := Cluster.turn_stream queue p.cluster t worker
    · refine ⟨[], ?_, by simp⟩
      simp only [turn, workers, he]
      rfl
    · refine ⟨[.turn (.ack messageId)], ?_, by simp [Workers.Happening.bodies]⟩
      simp only [turn, workers, he]
      rfl
    · refine ⟨[.lose], ?_, by simp [Workers.Happening.bodies]⟩
      simp only [turn, workers, he]
      rfl
  case process name messageId now =>
    simp only [turn]
    cases p.batched name messageId
    case none      => exact hnone
    case some item =>
      exact ⟨[.turn (.transact (.processOneEvent item.fields.payload now) rfl)], workers_transact rfl,
        by simp [Workers.Happening.bodies, Op.bodies]⟩
  case fail name messageId error now =>
    simp only [turn]
    cases p.batched name messageId
    case none      => exact hnone
    case some item =>
      let op : Op := .failEvent item.fields.payload error settings.workerMaxRetries now
      exact ⟨[.turn (.transact op rfl)], workers_transact rfl,
        by simp [op, Workers.Happening.bodies, Op.bodies]⟩

theorem turn_batch (t : PlatformTurn) (name : String) {item : LogItem StreamFields}
    (hm : item ∈ ((p.turn settings queue t).cluster.queues name).batch) :
    item ∈ (p.cluster.queues name).batch ∨ item ∈ p.cluster.redis.log.items := by
  cases t
  case request | start | abort => exact .inl hm
  case queue t _ => exact Cluster.turn_batch queue t name hm
  case advance id now =>
    rw [turn] at hm
    cases hr : p.reconciles.get id
    case none =>
      rw [hr] at hm
      exact .inl hm
    case some r =>
      rw [hr] at hm
      simp only [Option.elim_some, advance] at hm
      cases hmsg : r.message
      case none =>
        rw [hmsg] at hm
        exact .inl hm
      case some message =>
        rw [hmsg] at hm
        exact Cluster.turn_batch queue (.enqueue message.1 message.2) name hm
  case process name' messageId now =>
    rw [turn] at hm
    cases hb : p.batched name' messageId <;> rw [hb] at hm <;> exact .inl hm
  case fail name' messageId error now =>
    rw [turn] at hm
    cases hb : p.batched name' messageId <;> rw [hb] at hm <;> exact .inl hm

variable (settings queue) in
theorem simulates_workers : Simulates (turn settings queue) (Workers.happen settings) workers
    fun t happening => happening.bodies ⊆ t.bodies where
  step p t := turn_workers settings queue p t

-- A run of the platform is a history of `Workers`.
theorem run_workers (p : Platform R) (turns : List PlatformTurn) :
    ∃ happenings, (p.run settings queue turns).workers = p.workers.history settings happenings ∧
      ∀ happening ∈ happenings, ∃ t ∈ turns, happening.bodies ⊆ t.bodies :=
  (simulates_workers settings queue).run p turns

end Steps

end Platform

namespace Platform

section Sound

variable [Runtime]

-- The tables and the stream are as they should be, and what a worker has in its batch says of its event
-- what is stored of it, though the message itself may be gone by now.
structure Sound (p : Platform R) : Prop where
  accurate : p.workers.Accurate
  batch    : ∀ name, ∀ item ∈ (p.cluster.queues name).batch,
    Carries p.db (payloadEventId item.fields.payload) item.fields.payload

namespace Sound

variable {settings : Settings R} {queue : QueueSettings} {p : Platform R}

theorem start {db : Db R} {sequences : Sequences} (he : db.events = ∅) (ho : db.eventOutbox = ∅) :
    (start db sequences).Sound where
  accurate     := .idle (s := ⟨db, sequences, .of .empty⟩) he ho rfl
  batch _ _ hm := by cases hm

variable [Field R] [LinearOrder R] [FloorRing R] [MathExp R]

theorem turn (h : p.Sound) {t : PlatformTurn} (hl : ∀ body ∈ t.bodies, body.Lossless) :
    (p.turn settings queue t).Sound := by
  obtain ⟨happenings, hw, hbodies⟩ := p.turn_workers settings queue t
  have haccurate : (p.workers.history settings happenings).Accurate :=
    h.accurate.history settings fun happening hm body hb => hl body (hbodies happening hm hb)
  -- A message says the same of its event later on.
  have hcarries {item : LogItem StreamFields}
      (hc : Carries p.db (payloadEventId item.fields.payload) item.fields.payload) :
      Carries (p.turn settings queue t).db (payloadEventId item.fields.payload) item.fields.payload := by
    have hlater : Carries (p.workers.history settings happenings).db
        (payloadEventId item.fields.payload) item.fields.payload :=
      Workers.history_carries happenings hc
    rwa [← hw] at hlater
  refine ⟨hw ▸ haccurate, fun name item hm => hcarries ?_⟩
  obtain hm | hm := p.turn_batch t name hm
  · exact h.batch name item hm
  · exact h.accurate.entries ⟨item.id, item.fields.customerId, item.fields.payload⟩
      (List.mem_map.mpr ⟨item, hm, rfl⟩)

theorem run (h : p.Sound) {turns : List PlatformTurn}
    (hl : ∀ t ∈ turns, ∀ body ∈ t.bodies, body.Lossless) : (p.run settings queue turns).Sound := by
  induction turns generalizing p
  case nil => exact h
  case cons t _ hi =>
    obtain ⟨hhead, hl⟩ := List.forall_mem_cons.mp hl
    exact hi (h.turn hhead) hl

end Sound
end Sound

end Platform

section Processing

variable [Field R] [LinearOrder R] [FloorRing R] [MathExp R] [Runtime]

-- Whatever the server hands out, to whom, when and how often: what a worker has in its batch is a
-- submitted event, and processing it does not raise.
theorem batch_processable (settings : Settings R) (queue : QueueSettings) {db : Db R}
    (he : db.events = ∅) (ho : db.eventOutbox = ∅) (sequences : Sequences) (turns : List PlatformTurn)
    (hl : ∀ t ∈ turns, ∀ body ∈ t.bodies, body.Lossless) :
    let p := (Platform.start db sequences).run settings queue turns
    ∀ name, ∀ item ∈ (p.cluster.queues name).batch,
      ∃ body, EventIn.modelValidate item.fields.payload = some body ∧
        (∃ evt, p.db.events.get body.eventId = some evt ∧ evt.toEventIn = some body) ∧
        ∀ now error, processOneEvent settings p.db item.fields.payload now ≠ .raised error := by
  intro p name item hm
  have h : p.Sound := (Platform.Sound.start he ho).run hl
  have hc := h.batch name item hm
  obtain ⟨body, hb, hid, hevt⟩ := hc
  exact ⟨body, hb, hid ▸ hevt, processOneEvent_not_raised h.accurate.owned ⟨body, hb, hid, hevt⟩⟩

end Processing

section Example

open EpochDay

-- An event is published, and a worker consumes its message while nothing is on record of it yet.
def consumedOnce : List PlatformTurn :=
  .request (.ingestEvent unsubscription none (6 * Timestamp.second)) rfl :: .start 1 ::
    List.replicate 3 (.advance 1 (7 * Timestamp.second)) ++
    [.queue .ensureGroup rfl, .queue (.autoclaim "worker-1" 8000) rfl,
      .queue (.readgroup "worker-1" 8000) rfl]

theorem batch_processable_consumedOnce :
    let p := (Platform.start seeded.db seeded.sequences).run .default {} consumedOnce
    (p.cluster.queues "worker-1").batch.map (·.id) = [0] ∧
    ∀ name, ∀ item ∈ (p.cluster.queues name).batch,
      ∃ body, EventIn.modelValidate item.fields.payload = some body ∧
        (∃ evt, p.db.events.get body.eventId = some evt ∧ evt.toEventIn = some body) ∧
        ∀ now error, processOneEvent .default p.db item.fields.payload now ≠ .raised error := by
  refine ⟨by decide +kernel, ?_⟩
  refine batch_processable .default {} rfl rfl seeded.sequences consumedOnce fun t ht body hb => ?_
  have hbodies : t.bodies ⊆ [unsubscription] := by
    simp only [consumedOnce, List.mem_append, List.mem_cons, List.mem_replicate, List.not_mem_nil,
      or_false] at ht
    obtain (rfl | rfl | ⟨-, rfl⟩) | rfl | rfl | rfl := ht <;> simp [PlatformTurn.bodies, Op.bodies]
  exact List.mem_singleton.mp (hbodies hb) ▸ unsubscription_lossless

end Example

end MarTech
