import MarTech.Pipeline.Theorems.Reconcile
import MarTech.Pipeline.Theorems.View

namespace MarTech

section Runs

variable {R : Type} [Runtime] {s : Workers R}

theorem payloadEventId_modelDump (body : EventIn) : payloadEventId body.modelDump = body.eventId :=
  rfl

omit [Runtime] in
theorem Event.toEventIn_eventId {evt : Event} {body : EventIn} (h : evt.toEventIn = some body) :
    body.eventId = evt.eventId :=
  EventIn.validate_eventId h

-- The consumer leaves the outbox alone.
def Label.isConsumption : Label → Bool
  | processed _ | deadLettered ..                                          => true
  | customerEnsured _ | accepted .. | requeued .. | outboxRewritten => false

theorem Effect.eventOutbox_eq [Field R] [LinearOrder R] [FloorRing R] [MathExp R] {settings : Settings R}
    {db db' : Db R} {l : Label} (e : Effect settings db l db') (hl : l.isConsumption) :
    db'.eventOutbox = db.eventOutbox := by
  cases e
  case applyEvent => rfl
  case deadLetter => exact deadLetter_eventOutbox ..
  all_goals cases hl

namespace Workers.Live

-- A transaction that leaves the outbox alone, and takes no event away.
theorem store (h : s.Live) {db : Db R} (ho : db.eventOutbox = s.db.eventOutbox)
    (he : ∀ id, (s.db.events.get id).isSome → (db.events.get id).isSome) : Live { s with db } where
  single    := ho ▸ h.single
  named     := ho ▸ fun row hm => (h.named row hm).imp_right (.imp_right (he _))
  distinct  := h.distinct
  known     := fun entry hm => he _ (h.known entry hm)
  recorded  := ho ▸ h.recorded
  exclusive := h.exclusive
  holds     := ho ▸ h.holds

-- A transaction that inserts a row for an event which has neither a row nor a message.
theorem enlist (h : s.Live) (body : EventIn) (outboxId : Nat) (now : Timestamp)
    (he : (s.db.events.get body.eventId).isSome)
    (hr : ∀ row ∈ s.db.eventOutbox, row.eventId ≠ body.eventId)
    (hm : ∀ entry ∈ s.stream.entries, entry.eventId ≠ body.eventId) :
    Live { s with db := enqueueOutbox s.db body.eventId body.modelDump outboxId now } := by
  have of_mem {row : EventOutbox}
      (hrow : row ∈ (enqueueOutbox s.db body.eventId body.modelDump outboxId now).eventOutbox) :
      row ∈ s.db.eventOutbox ∨
        row = ⟨outboxId, body.eventId, body.modelDump, now, none, none⟩ :=
    Table.of_mem_insert hrow
  cases hfresh : s.db.eventOutbox.get outboxId
  case some =>
    -- The insertion changes nothing.
    have hinsert := Table.insert_of_isSome (t := s.db.eventOutbox)
      (r := ⟨outboxId, body.eventId, body.modelDump, now, none, none⟩) (hfresh ▸ rfl)
    refine h.store ?_ fun _ he => he
    exact hinsert
  case none =>
    exact {
      single := by
        intro row hrow row' hrow' e
        cases of_mem hrow <;> cases of_mem hrow'
        case inl.inl h₁ h₂ => exact h.single row h₁ row' h₂ e
        case inl.inr h₁ e' => cases e'; exact absurd e (hr row h₁)
        case inr.inl e' h₂ => cases e'; exact absurd e.symm (hr row' h₂)
        case inr.inr e₁ e₂ => rw [e₁, e₂]
      named := by
        intro row hrow
        cases of_mem hrow
        case inl hrow => exact h.named row hrow
        case inr e    => cases e; exact ⟨payloadEventId_modelDump body, rfl, he⟩
      distinct  := h.distinct
      known     := h.known
      recorded  := by
        intro entry hentry row hrow e
        cases of_mem hrow
        case inl hrow => exact h.recorded entry hentry row hrow e
        case inr e'   => cases e'; exact absurd e.symm (hm entry hentry)
      exclusive := h.exclusive
      holds     := fun r hr' => { h.holds r hr' with
        present := fun id hid => by
          obtain ⟨row, hrow⟩ := Option.isSome_iff_exists.mp ((h.holds r hr').present id hid)
          exact Option.isSome_iff_exists.mpr ⟨row, Table.get_insert_of_some hrow⟩
        current := fun row hrow => Table.mem_insert_of_mem ((h.holds r hr').current row hrow)
        kept    := fun hc row hrow m ht => by
          cases of_mem hrow
          case inl hrow => exact (h.holds r hr').kept hc row hrow m ht
          case inr e    =>
            have hp := (h.holds r hr').present row.id <|
              List.mem_append_left _ (List.mem_map.mpr ⟨_, ht, rfl⟩)
            simp [e, hfresh] at hp } }

theorem accept (h : s.Live) {body : EventIn} (ha : s.db.events.get body.eventId = none)
    (outboxId : Nat) (now : Timestamp) :
    Live { s with db := acceptEvent s.db body body.modelDump outboxId now } := by
  have hstore : Live { s with db := { s.db with events := s.db.events.insert body.row } } := by
    refine h.store rfl fun id he => ?_
    obtain ⟨evt, he⟩ := Option.isSome_iff_exists.mp he
    exact Option.isSome_iff_exists.mpr ⟨evt, Table.get_insert_of_some he⟩
  refine hstore.enlist body outboxId now ?_ (fun row hrow e => ?_) fun entry hentry e => ?_
  · simp [Table.get_insert, EventIn.row]
  · simpa [e, ha] using (h.named row hrow).right.right
  · simpa [e, ha] using h.known entry hentry

theorem persistOne (h : s.Live) {body : EventIn} {fault : Option PersistStatement} {outboxId : Nat}
    {now : Timestamp} {db : Db R} {outcome : PersistOutcome}
    (hp : MarTech.persistOne s.db body fault outboxId now = .ok (db, outcome)) :
    Live { s with db } := by
  have hc : Live { s with db := ensureCustomer s.db body.customerId now } := h.store rfl fun _ he => he
  have hp := persistOne_ok hp
  cases outcome
  case duplicate => exact hp.left ▸ hc
  case accepted  => exact hp.left ▸ hc.accept hp.right outboxId now

theorem ingestItems (h : s.Live) (now : Timestamp) (outboxIds : Nat → Nat) (out : BatchEventOut)
    (items : List (BatchItem × Nat)) :
    Live { s with db := (items.foldl (ingestItem now outboxIds) (s.db, out)).1 } := by
  induction items generalizing s out
  case nil => exact h
  case cons item items hi =>
    rw [List.foldl_cons]
    cases hstep : ingestItem now outboxIds (s.db, out) item
    case mk db out' =>
      have hdb : Live { s with db } := by
        simp only [ingestItem] at hstep
        split at hstep
        case h_1 => cases hstep; exact h
        case h_2 hp =>
          split at hstep
          case isTrue  => cases hstep; exact h
          case isFalse => cases hstep; exact h.persistOne hp
      exact hi hdb out'

theorem replay (h : s.Live) {dlqId : Nat} {now : Timestamp} {submission}
    (hr : s.ReplaysAfresh (.transact (.replayDlq dlqId now) submission)) {outboxId : Nat} {db : Db R}
    {answer : ReplayAnswer} (hc : replayDlq s.db dlqId outboxId now = .committed db answer) :
    Live { s with db } := by
  obtain ⟨row, evt, body, hrow, hn, he, hf, hb, rfl, -⟩ := replayDlq_eq hc
  obtain ⟨hrows, hentries⟩ := hr dlqId rfl row hrow hn evt he hf
  rw [← Event.toEventIn_eventId hb] at hrows hentries
  have hevents (id : String) : ((s.db.events.update evt.eventId fun row =>
      { row with status := .pending, processedAt := none }).get id).isSome =
        (s.db.events.get id).isSome :=
    s.db.events.isSome_get_update evt.eventId (by intro; rfl) id
  have hstore : Live { s with db := { s.db with
      events    := s.db.events.update evt.eventId fun row =>
        { row with status := .pending, processedAt := none }
      dlqEvents := s.db.dlqEvents.update row.id fun row => { row with replayedAt := some now } } } :=
    h.store rfl fun id he => (hevents id).trans he
  have hid : evt.eventId = row.eventId := Table.key_of_get he
  have := hstore.enlist body outboxId now ?_ hrows hentries
  · rwa [Event.toEventIn_eventId hb] at this
  · rw [Event.toEventIn_eventId hb, hevents, hid, he]
    rfl

theorem draw (h : s.Live) (sequences : Sequences) : Live { s with sequences } :=
  ⟨h.single, h.named, h.distinct, h.known, h.recorded, h.exclusive, h.holds⟩

variable [Field R] [LinearOrder R] [FloorRing R] [MathExp R]

theorem transact (h : s.Live) (settings : Settings R) {op : Op} {submission : op.isSubmission}
    (hr : s.ReplaysAfresh (.transact op submission)) :
    (s.turn settings (.transact op submission)).Live := by
  have hkeep {db : Db R} {l : Label} (e : Effect settings s.db l db) (hl : l.isConsumption) :
      Live { s with db } := by
    refine h.store (e.eventOutbox_eq hl) fun id he => ?_
    obtain ⟨evt, he⟩ := Option.isSome_iff_exists.mp he
    obtain ⟨evt', he', _⟩ := e.events_kept he
    exact Option.isSome_iff_exists.mpr ⟨evt', he'⟩
  cases op
  case reconcileOutbox | cleanupOutbox | disturbStream => cases submission
  case ingestEvent body fault now =>
    refine draw (s := { s with db := _ }) ?_ _
    simp only [MarTech.ingestEvent]
    split
    case h_1 => exact h
    case h_2 hp =>
      split
      case isTrue  => exact h
      case isFalse => exact h.persistOne hp
  case ingestBatch items commits now =>
    refine draw (s := { s with db := _ }) ?_ _
    cases commits
    case false => exact h
    case true  => exact h.ingestItems ..
  case processOneEvent payload now =>
    simp only [turn, State.exec]
    cases hc : processOneEvent settings s.db payload now
    case committed =>
      obtain ⟨_, _, e⟩ := processOneEvent_committed hc
      exact hkeep e rfl
    all_goals exact h
  case failEvent payload error retries now =>
    refine draw (s := { s with db := _ }) ?_ _
    cases hc : failEvent s.db payload error retries s.sequences.dlqEvents now
    case committed => exact hkeep (failEvent_committed hc) rfl
    all_goals exact h
  case replayDlq dlqId now =>
    refine draw (s := { s with db := _ }) ?_ _
    cases hc : replayDlq s.db dlqId s.sequences.eventOutbox now
    case committed => exact h.replay hr hc
    all_goals exact h

theorem turn (h : s.Live) (settings : Settings R) {turn : Turn} (hc : s.Commits turn)
    (hr : s.ReplaysAfresh turn) : (s.turn settings turn).Live := by
  cases turn
  case transact op submission => exact h.transact settings hr
  case start id      => exact h.start id
  case abort id      => exact h.close id fun r => hc id rfl r
  case ack messageId => exact h.ack messageId
  case advance id now =>
    simp only [Workers.turn]
    cases hg : s.reconciles.get id
    case none   => exact h
    case some r => exact h.advance (Table.mem_of_get hg) settings now

theorem run (h : s.Live) (settings : Settings R) {turns : List Turn}
    (hc : s.Along settings Commits turns) (hr : s.Along settings ReplaysAfresh turns) :
    (s.run settings turns).Live := by
  induction turns generalizing s
  case nil           => exact h
  case cons _ _ hi => exact hi (h.turn settings hc.left hr.left) hc.right hr.right

omit [Field R] [LinearOrder R] [FloorRing R] [MathExp R] in
theorem idle {s : State R} (ho : s.db.eventOutbox = ∅) (hs : s.stream.entries = []) :
    (idle s).Live where
  single _ hm   := by simp [Workers.idle, ho, Table.mem_iff_get] at hm
  named _ hm    := by simp [Workers.idle, ho, Table.mem_iff_get] at hm
  distinct      := by simp [Workers.idle, hs]
  known _ hm    := by simp [Workers.idle, hs] at hm
  recorded _ hm := by simp [Workers.idle, hs] at hm
  exclusive     := nofun
  holds         := nofun

end Workers.Live

-- Where dead letters are replayed only after all that is left of the event's publication is gone, the
-- stream never has two messages for one event.
theorem one_live_message [Field R] [LinearOrder R] [FloorRing R] [MathExp R] (settings : Settings R)
    {s : State R} (ho : s.db.eventOutbox = ∅) (hs : s.stream.entries = []) {turns : List Workers.Turn}
    (hc : (Workers.idle s).Along settings Workers.Commits turns)
    (hr : (Workers.idle s).Along settings Workers.ReplaysAfresh turns) (eventId : String) :
    ((Workers.idle s).run settings turns).stream.entries.countP (·.eventId = eventId) ≤ 1 := by
  have h := (Workers.Live.idle ho hs).run settings hc hr
  have hcount := List.nodup_iff_count_le_one.mp h.distinct eventId
  rw [List.count_eq_countP, List.countP_map] at hcount
  exact (List.countP_congr fun entry _ => by simp).trans_le hcount

end Runs

section Example

open EpochDay

def reconcile (id : Nat) (now : Timestamp) (statements : Nat) : List Workers.Turn :=
  .start id :: List.replicate statements (.advance id now)

-- An event is published, fails, and is acknowledged.
noncomputable def failedOnce : List Workers.Turn :=
  .transact (.ingestEvent unsubscription none (6 * Timestamp.second)) rfl ::
    reconcile 0 (7 * Timestamp.second) 6 ++
    [.transact (.failEvent unsubscription.modelDump ⟨"ConnectionError", "lost"⟩ 3
      (8 * Timestamp.second)) rfl,
     .ack 0]

-- The replay comes after the row of the first publication has been deleted.
noncomputable def replayedLate : List Workers.Turn :=
  failedOnce ++ reconcile 1 (8 * Timestamp.day) 4 ++
    .transact (.replayDlq 1 (9 * Timestamp.day)) rfl :: reconcile 2 (9 * Timestamp.day) 6

-- The replay comes while the row is still there. The row becomes due again after two minutes, while the
-- message of the replay waits for a slow consumer.
noncomputable def replayedSoon : List Workers.Turn :=
  failedOnce ++ .transact (.replayDlq 1 (9 * Timestamp.second)) rfl ::
    reconcile 2 (10 * Timestamp.second) 6 ++ reconcile 3 (128 * Timestamp.second) 6

theorem one_live_message_replayedLate :
    ((Workers.idle seeded).run .default replayedLate).stream.entries.countP (·.eventId = "e1") ≤ 1 :=
  one_live_message .default rfl rfl (by decide +kernel) (by decide +kernel) "e1"

theorem two_live_messages :
    let workers := (Workers.idle seeded).run .default replayedSoon
    (Workers.idle seeded).Along .default Workers.Commits replayedSoon ∧
      workers.stream.entries.countP (·.eventId = "e1") = 2 := by
  decide +kernel

end Example
end MarTech
