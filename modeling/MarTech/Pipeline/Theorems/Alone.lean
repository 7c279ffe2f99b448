import Mathlib.Logic.Relation
import MarTech.Pipeline.Reconcile

namespace MarTech

variable {R : Type} {s : State R} {r r' : Reconcile} {settings : Settings R} {now : Timestamp}

namespace Reconcile

variable {db : Db R}

theorem mark_append (marks : List (Nat × MessageId × Timestamp)) (id : Nat) (messageId : MessageId) :
    mark db (marks ++ [(id, messageId, now)]) = markPublished (mark db marks) id messageId now := by
  induction marks generalizing db
  case nil         => rfl
  case cons _ _ hi => exact hi

theorem write_of_nothing_deleted (h : r.deleted = []) : r.write db = mark db r.marks := by
  have hrows : (mark db r.marks).eventOutbox.delete (·.id ∈ r.deleted) =
      (mark db r.marks).eventOutbox := by
    ext1
    simp [Table.delete, h]
  simp only [write, hrows]

-- What is deleted row by row is what the `DELETE` chose.
theorem delete_expired (settings : Settings R) (now : Timestamp) :
    let ids := (db.eventOutbox.rows.filter (expired settings db now)).map (·.id)
    { db with eventOutbox := db.eventOutbox.delete (·.id ∈ ids.reverse) } =
      cleanupOutbox settings db now := by
  have hrows : db.eventOutbox.delete (·.id ∈ ((db.eventOutbox.rows.filter
      (expired settings db now)).map (·.id)).reverse) =
        db.eventOutbox.delete (expired settings db now) := by
    ext1
    refine List.filter_congr fun row hrow => congrArg _ ?_
    rw [Bool.eq_iff_iff, decide_eq_true_iff, List.mem_reverse, List.mem_map]
    constructor
    case mp =>
      rintro ⟨row', hm, hid⟩
      obtain ⟨hm, hx⟩ := List.mem_filter.mp hm
      exact Table.key_injective hm hrow hid ▸ hx
    case mpr => exact fun hx => ⟨row, List.mem_filter.mpr ⟨hrow, hx⟩, rfl⟩
  simp only [cleanupOutbox, hrows]

end Reconcile

namespace Workers

-- A worker that has the tables and the stream to itself.
def alone (s : State R) (r : Reconcile) : Workers R where
  toState    := s
  reconciles := ⟨[r], List.nodup_singleton _⟩

theorem alone_resume (h : r'.id = r.id) : (alone s r).resume r' = alone s r' := by
  simp [alone, resume, Table.set, h]

theorem alone_close : (alone s r).close r.id = idle s := by
  simp only [alone, close, idle, Table.delete, decide_true, Bool.not_true, List.filter_cons_of_neg,
    Bool.false_eq_true, not_false_eq_true, List.filter_nil]
  rfl

theorem alone_busy (outboxId : Nat) : (alone s r).busy r.id outboxId = false := by
  simp [alone, busy]

variable [Field R] [LinearOrder R] [FloorRing R] [MathExp R] [Runtime]

theorem alone_turn :
    (alone s r).turn settings (.advance r.id now) = (alone s r).advance settings r now := by
  simp [turn, alone, Table.get]

-- The system after some steps of one worker.
abbrev Proceeds (settings : Settings R) (id : Nat) (now : Timestamp) : Workers R → Workers R → Prop :=
  Relation.ReflTransGen fun w w' => w.turn settings (.advance id now) = w'

theorem Proceeds.alone {w : Workers R} (h : (alone s r).advance settings r now = w) {w' : Workers R}
    (hp : Proceeds settings r.id now w w') : Proceeds settings r.id now (alone s r) w' :=
  .head (alone_turn.trans h) hp

theorem Proceeds.run {id : Nat} {w w' : Workers R} (h : Proceeds settings id now w w') :
    ∃ n, w.run settings (List.replicate n (.advance id now)) = w' := by
  induction h using Relation.ReflTransGen.head_induction_on
  case refl => exact ⟨0, rfl⟩
  case head hstep _ hi =>
    obtain ⟨n, hn⟩ := hi
    exact ⟨n + 1, by rw [← hn, ← hstep]; rfl⟩

variable (s r settings now) {row : EventOutbox} {rows : List EventOutbox} {messageId : MessageId}

theorem mark_alone :
    Proceeds settings r.id now (alone s { r with stage := .mark row messageId rows })
      (alone s { r with
        stage := .contains rows, marks := r.marks ++ [(row.id, messageId, now)] }) :=
  .alone (r := { r with stage := .mark row messageId rows }) (alone_resume rfl) .refl

theorem enqueue_alone {customerId : Json} (hc : row.payload.get "customer_id" = some customerId) :
    let (stream, messageId) := s.stream.enqueue customerId row.payload
    Proceeds settings r.id now (alone s { r with stage := .enqueue row rows })
      (alone { s with stream } { r with
        stage := .contains rows
        marks := r.marks ++ [(row.id, messageId, now)]
        count := r.count + 1 }) := by
  refine .alone (r := { r with stage := .enqueue row rows }) ?_
    (mark_alone { s with stream := _ } { r with count := r.count + 1 } settings now)
  simp only [advance, hc]
  have hresume := @alone_resume _ s { r with stage := .enqueue row rows } { r with
    stage := .mark row (s.stream.enqueue customerId row.payload).2 rows, count := r.count + 1 } rfl
  exact congrArg (fun w : Workers R => { w with stream := (s.stream.enqueue customerId row.payload).1 })
    hresume

-- One turn of the loop.
theorem publishRow_alone {stream : Stream} {n : Nat}
    (h : publishRow s.stream row = .ok (messageId, stream, n)) :
    Proceeds settings r.id now (alone s { r with stage := .contains (row :: rows) })
      (alone { s with stream } { r with
        stage := .contains rows
        marks := r.marks ++ [(row.id, messageId, now)]
        count := r.count + n }) := by
  have hresume {stage : Stage} := @alone_resume _ s { r with stage := .contains (row :: rows) }
    { r with stage } rfl
  have henqueue (hstep : (alone s { r with stage := .contains (row :: rows) }).advance settings
        { r with stage := .contains (row :: rows) } now = alone s { r with stage := .enqueue row rows })
      {customerId : Json} (hc : row.payload.get "customer_id" = some customerId) :=
    Proceeds.alone hstep (enqueue_alone s r settings now hc)
  simp only [publishRow] at h
  split at h
  case h_1 messageId' hm =>
    split at h
    case isTrue hc =>
      cases h
      refine .alone (r := { r with stage := .contains (row :: rows) }) ?_ (mark_alone s r settings now)
      simp only [advance, hm]
      exact (if_pos hc).trans hresume
    case isFalse hc =>
      split at h
      case h_1 => cases h
      case h_2 hpayload =>
        cases h
        refine henqueue ?_ hpayload
        simp only [advance, hm]
        exact (if_neg hc).trans hresume
  case h_2 hm =>
    split at h
    case h_1 => cases h
    case h_2 hpayload =>
      cases h
      refine henqueue ?_ hpayload
      simp only [advance, hm]
      exact hresume

-- The loop over the claimed rows publishes what `publishRows` does.
theorem publishRows_alone (rows : List EventOutbox) {db : Db R} {stream : Stream} {n : Nat}
    (h : publishRows now (Reconcile.mark s.db r.marks) s.stream rows = (.ok (db, n), stream)) :
    ∃ marks count, Reconcile.mark s.db marks = db ∧
      Proceeds settings r.id now (alone s { r with stage := .contains rows })
        (alone { s with stream } { r with stage := .contains [], marks, count }) := by
  induction rows generalizing s r n
  case nil =>
    simp only [publishRows, Prod.mk.injEq, Except.ok.injEq] at h
    obtain ⟨⟨rfl, -⟩, rfl⟩ := h
    exact ⟨r.marks, r.count, rfl, .refl⟩
  case cons row rows hi =>
    simp only [publishRows] at h
    split at h
    case h_1 => cases h
    case h_2 messageId stream' k hrow =>
      rw [← Reconcile.mark_append] at h
      split at h
      case h_1 => cases h
      case h_2 hrows =>
        cases h
        obtain ⟨marks, count, hmarks, hp⟩ := hi { s with stream := stream' } { r with
          marks := r.marks ++ [(row.id, messageId, now)], count := r.count + k } hrows
        exact ⟨marks, count, hmarks, (publishRow_alone s r settings now hrow).trans hp⟩

theorem delete_alone (outboxIds : List Nat) :
    ∃ held, Proceeds settings r.id now (alone s { r with stage := .delete outboxIds })
      (alone s { r with
        stage := .delete [], held, deleted := outboxIds.reverse ++ r.deleted }) := by
  induction outboxIds generalizing r
  case nil => exact ⟨r.held, .refl⟩
  case cons id ids hi =>
    obtain ⟨held, hp⟩ := hi { r with held := id :: r.held, deleted := id :: r.deleted }
    have hstep : (alone s { r with stage := .delete (id :: ids) }).advance settings
        { r with stage := .delete (id :: ids) } now =
          alone s { r with stage := .delete ids, held := id :: r.held, deleted := id :: r.deleted } := by
      simp only [advance]
      exact (if_neg (by simp [alone_busy])).trans (alone_resume rfl)
    exact ⟨held, by simpa using Proceeds.alone hstep hp⟩

theorem cleanup_alone (hd : r.deleted = []) :
    Proceeds settings r.id now (alone s { r with stage := .contains [] })
      (idle { s with db := cleanupOutbox settings (Reconcile.mark s.db r.marks) now }) := by
  let db := Reconcile.mark s.db r.marks
  let ids := (db.eventOutbox.rows.filter (expired settings db now)).map (·.id)
  have hchoose : (alone s { r with stage := .contains [] }).advance settings
      { r with stage := .contains [] } now = alone s { r with stage := .delete ids } := by
    have hdb : { r with stage := .contains [] : Reconcile }.write s.db = db :=
      Reconcile.write_of_nothing_deleted hd
    simp only [advance]
    rw [alone_resume]
    · simp only [alone, hdb, ids]
    · rfl
  obtain ⟨held, hp⟩ := delete_alone s r settings now ids
  have hcommit :
      (alone s { r with stage := .delete [], held, deleted := ids.reverse ++ r.deleted }).advance settings
          { r with stage := .delete [], held, deleted := ids.reverse ++ r.deleted } now =
        idle { s with db := cleanupOutbox settings db now } := by
    have hdb :
        { r with stage := .delete [], held, deleted := ids.reverse ++ r.deleted : Reconcile }.write s.db =
          cleanupOutbox settings db now := by
      simp only [Reconcile.write, hd, List.append_nil]
      exact Reconcile.delete_expired settings now
    simp only [advance]
    rw [alone_close]
    exact congrArg (fun db => idle { s with db }) hdb
  exact (Proceeds.alone hchoose hp).trans (Proceeds.alone hcommit .refl)

-- When no other worker is at it, a `reconcile_outbox` that goes through all its statements does what
-- the transaction does at once.
theorem reconcileOutbox_alone (id : Nat) {db : Db R} {count : Nat} {stream : Stream}
    (h : reconcileOutbox settings s.db s.stream now = (.committed db count, stream)) :
    ∃ n, (idle s).run settings (.start id :: List.replicate n (.advance id now)) =
      idle (s.exec settings (.reconcileOutbox now)) := by
  have hexec : s.exec settings (.reconcileOutbox now) = { s with db, stream } := by
    simp only [State.exec, h, Outcome.db]
  simp only [reconcileOutbox] at h
  split at h
  case h_1 => cases h
  case h_2 db' n stream' hrows =>
    let rows := claimUnpublished s.db settings.outboxBatchSize now
    let r : Reconcile := { Reconcile.start id with held := rows.map (·.id) }
    have hclaim : (alone s (.start id)).advance settings (.start id) now =
        alone s { r with stage := .contains rows } := by
      have hbusy : (alone s (.start id)).busy id = fun _ => false := funext alone_busy
      have hrows : claimUnpublished s.db settings.outboxBatchSize now
          ((alone s (.start id)).busy id) = rows :=
        congrArg _ hbusy
      have hresume (rows : List EventOutbox) :
          (alone s (.start id)).resume { Reconcile.start id with
            stage := .contains rows, held := rows.map (·.id) } =
            alone s { Reconcile.start id with stage := .contains rows, held := rows.map (·.id) } :=
        alone_resume rfl
      exact (hresume _).trans <| congrArg (fun rows : List EventOutbox => alone s {
        Reconcile.start id with stage := .contains rows, held := rows.map (·.id) }) hrows
    obtain ⟨marks, count', rfl, hp⟩ := publishRows_alone s r settings now rows hrows
    have hcleanup := cleanup_alone { s with stream := stream' } { r with marks, count := count' }
      settings now rfl
    obtain ⟨m, hm⟩ := (Proceeds.alone hclaim (hp.trans hcleanup)).run
    refine ⟨m, ?_⟩
    cases h
    exact hexec ▸ hm

end Workers
end MarTech
