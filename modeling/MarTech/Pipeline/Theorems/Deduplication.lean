import MarTech.Pipeline.Theorems.Ingestion
import MarTech.Pipeline.Theorems.View

namespace MarTech

section Runs

variable {R : Type} [Runtime]

namespace Tables.Recorded

variable {s s' s'' : Tables R} {verdicts verdicts' : Verdicts}

theorem refl : s.Recorded [] s where
  events _  := (List.append_nil _).symm
  outbox hs := ⟨hs, fun _ => (List.append_nil _).symm⟩

theorem trans (h : s.Recorded verdicts s') (h' : s'.Recorded verdicts' s'') :
    s.Recorded (verdicts ++ verdicts') s'' where
  events id := by
    rw [h'.events, h.events, Verdicts.accepted_append, List.map_append, List.append_assoc]
  outbox hs := by
    obtain ⟨hs', hrows⟩ := h.outbox hs
    obtain ⟨hs'', hrows'⟩ := h'.outbox hs'
    refine ⟨hs'', fun id => ?_⟩
    rw [hrows', hrows, Verdicts.accepted_append, List.map_append, List.append_assoc]

end Tables.Recorded

-- The verdicts of all requests, in the order in which these committed.
def ledger (log : List (Submission × Receipt)) : Verdicts :=
  log.flatMap (·.2.verdicts)

omit [Runtime] in
theorem ledger_append (log : List (Submission × Receipt)) (submission : Submission)
    (receipt : Receipt) :
    ledger (log ++ [(submission, receipt)]) = ledger log ++ receipt.verdicts := by
  simp [ledger]

variable {rules : Discipline (Tables R) Lock} {s s' : Tables R} {log : List (Submission × Receipt)}

theorem recorded_of_serial (h : Serial (rules.Commits Submission.Spec) s log s') :
    s.Recorded (ledger log) s' := by
  induction h
  case nil => exact .refl
  case snoc _ hcall hi =>
    rw [ledger_append]
    exact hi.trans hcall.left.recorded

theorem answers_of_serial (h : Serial (rules.Commits Submission.Spec) s log s') :
    ∀ entry ∈ log, entry.1.Answers entry.2 := by
  induction h
  case nil => simp
  case snoc _ hcall hi =>
    intro entry hm
    cases List.mem_append.mp hm
    case inl hm => exact hi entry hm
    case inr hm => exact List.mem_singleton.mp hm ▸ hcall.left.answers

-- However the statements of any requests interleave, and whichever of them are rolled back, an event
-- that was not there before has a row and an outbox row just if one submission was accepted. All
-- three are about the same submission.
theorem accepted_once (tables : Tables R) {id : String}
    (hd : ∀ row ∈ tables.db.eventOutbox, tables.taken row.id)
    (he : tables.db.events.get id = none) (ho : ∀ row ∈ tables.db.eventOutbox, row.eventId ≠ id)
    (moves : List (Move Submission)) :
    let server   := Server.idle tables |>.run Submission.transaction moves
    let receipts := Server.idle tables |>.run Submission.receipt moves
    let accepted := (ledger receipts.log).accepted id
    server = receipts.map Receipt.reply ∧
    (∀ entry ∈ receipts.log, entry.1.Answers entry.2) ∧
    accepted.length ≤ 1 ∧
    server.committed.db.events.rows.filter (·.eventId = id) = accepted.map EventIn.row ∧
    (server.committed.db.eventOutbox.rows.filter (·.eventId = id)).map (·.payload) =
      accepted.map EventIn.modelDump := by
  intro server receipts accepted
  have hserver : server = receipts.map Receipt.reply := by
    rw [Server.map_run]
    simp only [Submission.map_receipt]
    rfl
  have hserial : Serial ((discipline False).Commits Submission.Spec) tables receipts.log
      receipts.committed :=
    Server.run_serial (fun _ => .true) (fun submission => submission.safe)
      (.of_forall fun _ _ => trivial)
  have hrecorded := recorded_of_serial hserial
  have hevents : receipts.committed.db.events.rows.filter (·.eventId = id) =
      accepted.map EventIn.row := by
    have hnone : tables.db.events.rows.filter (·.eventId = id) = [] :=
      List.filter_eq_nil_iff.mpr fun evt hm => by simpa using Table.get_eq_none_iff.mp he evt hm
    rw [hrecorded.events, hnone, List.nil_append]
  have houtbox : (receipts.committed.db.eventOutbox.rows.filter (·.eventId = id)).map (·.payload) =
      accepted.map EventIn.modelDump := by
    have hnone : tables.db.eventOutbox.rows.filter (·.eventId = id) = [] :=
      List.filter_eq_nil_iff.mpr fun row hm => by simpa using ho row hm
    rw [(hrecorded.outbox hd).right, hnone, List.map_nil, List.nil_append]
  -- The unique index leaves room for one row.
  have hlength : accepted.length ≤ 1 := by
    have hkey := receipts.committed.db.events.filter_key id
    have hcount := congrArg List.length (hevents.symm.trans hkey)
    rw [List.length_map] at hcount
    exact hcount.trans_le Option.length_toList_le
  rw [hserver]
  exact ⟨rfl, answers_of_serial hserial, hlength, hevents, houtbox⟩

end Runs

section Example

open EpochDay

-- The id of `unsubscription` with the fields of another event.
def collision : EventIn :=
  { unsubscription with channel := .push, eventType := .purchase }

-- Two requests submit the id at the same time. The one that comes first rolls back its first item
-- and then waits to be aborted, while the other one waits for it.
def contended : List (Move Submission) :=
  [.start 0 (.ingestBatch [⟨unsubscription, some .flush⟩, ⟨collision, none⟩] (· + 1) 0),
   .start 1 (.ingestBatch [⟨unsubscription, none⟩, ⟨collision, none⟩] (· + 5) 0)] ++
    List.replicate 9 (.advance 0) ++ List.replicate 5 (.advance 1) ++ [.abort 0] ++
    List.replicate 9 (.advance 1)

example :
    let receipts := Server.idle (⟨seeded.db, []⟩ : Tables ℝ) |>.run Submission.receipt contended
    (ledger receipts.log).map (·.2) = [.accepted, .duplicate] := by
  decide +kernel

theorem accepted_once_contended :
    let tables : Tables ℝ := ⟨seeded.db, []⟩
    let server   := Server.idle tables |>.run Submission.transaction contended
    let receipts := Server.idle tables |>.run Submission.receipt contended
    let accepted := (ledger receipts.log).accepted "e1"
    server = receipts.map Receipt.reply ∧
    (∀ entry ∈ receipts.log, entry.1.Answers entry.2) ∧
    accepted.length ≤ 1 ∧
    server.committed.db.events.rows.filter (·.eventId = "e1") = accepted.map EventIn.row ∧
    (server.committed.db.eventOutbox.rows.filter (·.eventId = "e1")).map (·.payload) =
      accepted.map EventIn.modelDump :=
  accepted_once ⟨seeded.db, []⟩ (fun _ hm => absurd hm List.not_mem_nil) rfl
    (fun _ hm => absurd hm List.not_mem_nil) contended

end Example
end MarTech
