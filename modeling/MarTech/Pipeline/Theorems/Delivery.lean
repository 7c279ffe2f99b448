import MarTech.Pipeline.Theorems.Publication
import MarTech.Pipeline.Theorems.View

namespace MarTech

section Runs

variable {R : Type} [Field R] [LinearOrder R] [FloorRing R] [MathExp R] [Runtime]
         {settings : Settings R} {tables : Tables R} {moves : List (Move Call)}

omit [Field R] [LinearOrder R] [FloorRing R] [MathExp R] [Runtime] in
theorem Tables.Covered.empty (he : tables.db.events = ∅) (ho : tables.db.eventOutbox = ∅) :
    tables.Covered where
  taken row hm  := by simp [ho, Table.mem_iff_get] at hm
  queued evt hm := by simp [he, Table.mem_iff_get] at hm

-- On covered tables nothing but `fail_event` has a precondition.
theorem Call.allowed_of_failEvent {server : Server Call (Tables R) Lock (Except Error Reply)}
    {known : String → Prop} (h : server.Sound (discipline False) (Spec settings known))
    (hc : server.committed.Covered) {pre' : Call → Tables R → Prop}
    (hf : ∀ payload error retries dlqId now s,
      pre' (.consume (.failEvent payload error retries dlqId now)) s →
        pre known (.consume (.failEvent payload error retries dlqId now)) s)
    (hm : server.Allowed (Call.transaction settings) pre' moves) :
    server.Allowed (Call.transaction settings) (pre known) moves := by
  refine h.allowed (pre_stable _) (fun call => call.safe) (fun _ _ ha => ha.covered) hc ?_ hm
  intro call s hs hp
  cases call
  case consume call =>
    cases call
    case failEvent => exact hf _ _ _ _ _ s hp
    all_goals trivial
  case reconcileOutbox | cleanupOutbox => exact hs
  case ingestEvent | ingestBatch => trivial

theorem Call.allowed {server : Server Call (Tables R) Lock (Except Error Reply)}
    (h : server.Sound (discipline False) (Spec settings fun _ => False))
    (hc : server.committed.Covered) (moves : List (Move Call)) :
    server.Allowed (Call.transaction settings) (pre fun _ => False) moves := by
  have hm : server.Allowed (Call.transaction settings) (fun _ _ => True) moves :=
    .of_forall fun _ _ => trivial
  exact allowed_of_failEvent h hc (fun _ _ _ _ _ _ _ => False.elim) hm

-- At every moment of every run each pending event has a row of the outbox from which it can be
-- published, whatever has become of the stream, and no event is ever deleted.
theorem never_stranded (settings : Settings R) (he : tables.db.events = ∅)
    (ho : tables.db.eventOutbox = ∅) (moves later : List (Move Call)) :
    let db  := (Server.idle tables |>.run (Call.transaction settings) moves).committed.db
    let db' := (Server.idle tables |>.run (Call.transaction settings) (moves ++ later)).committed.db
    (∀ evt ∈ db.events, evt.status = .pending → ∃ row ∈ db.eventOutbox, row.eventId = evt.eventId ∧
      ∀ now, (∀ t, row.publishedAt = some t → t < now - 2 * Timestamp.minute) →
        claimable db now row) ∧
    ∀ evt ∈ db.events, (db'.events.get evt.eventId).isSome := by
  have hc : tables.Covered := .empty he ho
  have hsound : (Server.idle tables).Sound (discipline False) (Call.Spec settings fun _ => False) :=
    .idle tables
  obtain ⟨hsound, _, _, hserial⟩ := hsound.run (Call.pre_stable _) (fun call => call.safe)
    (Call.allowed hsound hc moves) [] rfl .nil
  have hc := hserial.preserves (fun _ _ _ _ h => h.right.covered) hc
  obtain ⟨_, _, _, hserial⟩ := hsound.run (Call.pre_stable _) (fun call => call.safe)
    (Call.allowed hsound hc later) _ (List.append_nil _).symm .nil
  constructor
  case left =>
    intro evt hm hs
    obtain ⟨row, hr, e, _⟩ := hc.queued evt hm hs
    refine ⟨row, hr, e, fun now => claimable_of_pending ?_ hs⟩
    exact e ▸ Table.mem_iff_get.mp hm
  case right =>
    intro evt hm
    rw [Server.run, List.foldl_append]
    refine hserial.preserves (fun _ _ _ _ h => h.right.events evt.eventId) ?_
    exact Option.isSome_iff_exists.mpr ⟨evt, Table.mem_iff_get.mp hm⟩

end Runs

section Example

open EpochDay

-- A submission, and then a publication that is aborted before it commits.
noncomputable def unpublished : List (Move Call) :=
  .start 0 (.ingestEvent unsubscription none 1 (6 * Timestamp.second)) ::
    List.replicate 4 (.advance 0) ++
    [.start 1 (.reconcileOutbox ⟨fun _ => false, fun _ => .ok 0⟩ (7 * Timestamp.second)),
     .advance 1, .advance 1, .abort 1]

-- The worker that processes the event afterwards.
noncomputable def processedLater : List (Move Call) :=
  .start 2 (.consume (.processOneEvent unsubscription.modelDump (8 * Timestamp.second))) ::
    List.replicate 7 (.advance 2)

theorem never_stranded_unpublished :
    let tables : Tables ℝ := ⟨seeded.db, []⟩
    let db  := (Server.idle tables |>.run (Call.transaction .default) unpublished).committed.db
    let db' := (Server.idle tables |>.run (Call.transaction .default)
      (unpublished ++ processedLater)).committed.db
    (∀ evt ∈ db.events, evt.status = .pending → ∃ row ∈ db.eventOutbox, row.eventId = evt.eventId ∧
      ∀ now, (∀ t, row.publishedAt = some t → t < now - 2 * Timestamp.minute) →
        claimable db now row) ∧
    ∀ evt ∈ db.events, (db'.events.get evt.eventId).isSome :=
  never_stranded .default rfl rfl unpublished processedLater

end Example
end MarTech
