import MarTech.Pipeline.Theorems.Delivery

namespace MarTech

variable {R : Type}

-- The dead letters of the event that have not been replayed.
def unreplayed (db : Db R) (eventId : String) : List DLQEvent :=
  db.dlqEvents.rows.filter fun row => row.eventId = eventId ∧ row.replayedAt = none

theorem mem_unreplayed {db : Db R} {eventId : String} {row : DLQEvent} :
    row ∈ unreplayed db eventId ↔
      row ∈ db.dlqEvents ∧ row.eventId = eventId ∧ row.replayedAt = none := by
  simp [unreplayed]

-- Whether the entry of the log is a replay of the row that answered `requeued`.
def requeued (dlqId : Nat) : Call × Except Error Reply → Bool
  | (.consume (.replayDlq ..), .ok (.replay answer)) =>
    answer.status = "requeued" && answer.dlqId = dlqId
  | _ => false

section Letters

variable {db : Db R}

theorem unreplayed_deadLetter (evt : Option Event) (eventId : String) (payload : Json.Object)
    (error : Error) (retries : Nat) {dlqId : Nat} (now : Timestamp)
    (hk : db.dlqEvents.get dlqId = none) (id : String) :
    (unreplayed (deadLetter db evt eventId payload error retries dlqId now) id).length =
      (unreplayed db id).length + if eventId = id then 1 else 0 := by
  let row : DLQEvent := ⟨dlqId, eventId, payload, error.text, retries, none, now⟩
  have hrows : (deadLetter db evt eventId payload error retries dlqId now).dlqEvents.rows =
      db.dlqEvents.rows ++ [row] := by
    rw [deadLetter_dlqEvents]
    exact Table.rows_insert (r := row) hk
  simp only [unreplayed, hrows, List.filter_append, List.length_append]
  split <;> simp [row, *]

theorem filter_map_replace {α : Type} {p q : α → Bool} {y : α} (hy : p y = false) (xs : List α) :
    (xs.map fun x => if q x then y else x).filter p = (xs.filter p).filter (!q ·) := by
  induction xs
  case nil => rfl
  case cons x xs hi => cases hq : q x <;> cases hp : p x <;> simp [hq, hp, hy, hi]

-- A replay settles its row and no other one.
theorem unreplayed_requeue [Runtime] {row : DLQEvent} (evt : Event) (body : EventIn)
    (outboxId : Nat) (now : Timestamp) (hr : db.dlqEvents.get row.id = some row) (id : String) :
    unreplayed (requeue db row evt body outboxId now) id =
      (unreplayed db id).filter fun x => !decide (x.id = row.id) := by
  have hrows : (requeue db row evt body outboxId now).dlqEvents.rows =
      db.dlqEvents.rows.map fun x =>
        if decide (x.id = row.id) then { row with replayedAt := some now } else x := by
    simp only [requeue, enqueueOutbox, Table.update, hr, decide_eq_true_eq]
    rfl
  rw [unreplayed, hrows, unreplayed]
  exact filter_map_replace (by simp only [reduceCtorEq, and_false, decide_false]) _

end Letters

-- The account of an event: its unreplayed dead letters are its failure that is still to be replayed.
structure Accounted (db : Db R) (eventId : String) : Prop where
  absent : db.events.get eventId = none → unreplayed db eventId = []
  valid  : ∀ evt, db.events.get eventId = some evt → evt.toEventIn.isSome
  count  : ∀ evt, db.events.get eventId = some evt →
    (unreplayed db eventId).length = if evt.status = .failed then 1 else 0

namespace Accounted

variable {db : Db R} {id : String}

theorem empty (he : db.events = ∅) (hd : db.dlqEvents = ∅) : Accounted db id where
  absent _     := by rw [unreplayed, hd]; rfl
  valid evt h  := by simp [he] at h
  count evt h  := by simp [he] at h

-- Where the dead letters are left alone and the event does not become or cease to be failed.
theorem of_letters_eq {db' : Db R} (h : Accounted db id) (hd : db'.dlqEvents = db.dlqEvents)
    (he : db'.events.get id = db.events.get id ∨
      ∃ evt, db'.events.get id = some evt ∧ evt.toEventIn.isSome ∧ evt.status ≠ .failed ∧
        ∀ old, db.events.get id = some old → old.status ≠ .failed) : Accounted db' id := by
  have hu : unreplayed db' id = unreplayed db id := by simp only [unreplayed, hd]
  cases he
  case inl he =>
    constructor
    case absent => simpa only [hu, he] using h.absent
    case valid  => simpa only [he] using h.valid
    case count  => simpa only [hu, he] using h.count
  case inr he =>
    obtain ⟨evt, hg, hv, hs, hold⟩ := he
    constructor
    case absent => simp [hg]
    case valid  => simp [hg, hv]
    case count  =>
      have : unreplayed db id = [] := by
        cases ho : db.events.get id
        case none     => exact h.absent ho
        case some old => simpa [hold old ho] using h.count old ho
      simp [hg, hu, this, hs]

theorem ingested {s s' : Tables R} (h : Accounted s.db id) (hi : s.Ingested s') :
    Accounted s'.db id := by
  apply h.of_letters_eq hi.dlqEvents
  refine (hi.events id).imp_right fun ⟨hn, body, hg⟩ => ⟨_, hg, ?_, nofun, by simp [hn]⟩
  rw [Event.toEventIn, EventIn.row, EventIn.validate_self]
  rfl

theorem deadLetter {evt : Option Event} {eventId : String} {payload : Json.Object} {error : Error}
    {retries dlqId : Nat} {now : Timestamp} (h : Accounted db id)
    (hevt : ∀ e ∈ evt, db.events.get eventId = some e ∧ e.status = .pending)
    (hk : db.dlqEvents.get dlqId = none) (hknown : eventId = id → evt.isSome) :
    Accounted (MarTech.deadLetter db evt eventId payload error retries dlqId now) id := by
  by_cases hid : eventId = id
  case neg =>
    have he := deadLetter_events_get db evt eventId payload error retries dlqId now id
    rw [if_neg (hid ·.right)] at he
    have hl := unreplayed_deadLetter evt eventId payload error retries now hk id
    simp only [if_neg hid, Nat.add_zero] at hl
    constructor
    case absent => exact fun hn => List.length_eq_zero_iff.mp (by simp [hl, h.absent (he ▸ hn)])
    case valid  => simpa only [he] using h.valid
    case count  => simpa only [he, hl] using h.count
  case pos =>
    subst hid
    obtain ⟨e, he⟩ := Option.isSome_iff_exists.mp (hknown rfl)
    subst he
    obtain ⟨hg, hp⟩ := hevt e rfl
    have hg' := deadLetter_events_get db (some e) eventId payload error retries dlqId now eventId
    simp only [Option.isSome_some, true_and, if_true, hg, Option.map_some] at hg'
    have hl := unreplayed_deadLetter (some e) eventId payload error retries now hk eventId
    simp only [h.count e hg, hp, reduceCtorEq, if_true, if_false] at hl
    constructor
    case absent => simp [hg']
    case valid  => exact fun _ h' => Option.some.inj (hg'.symm.trans h') ▸ h.valid e hg
    case count  => simp [hg', hl]

theorem requeue [Runtime] {row : DLQEvent} {evt : Event} {body : EventIn} {outboxId : Nat}
    {now : Timestamp} (h : Accounted db id) (hr : db.dlqEvents.get row.id = some row)
    (hu : row.replayedAt = none) (hsame : row.eventId = evt.eventId)
    (he : db.events.get evt.eventId = some evt) (hf : evt.status = .failed) :
    Accounted (MarTech.requeue db row evt body outboxId now) id := by
  have hg' := requeue_events_get db row evt body outboxId now id
  have hl := unreplayed_requeue evt body outboxId now hr id
  by_cases hid : evt.eventId = id
  case neg =>
    rw [if_neg hid] at hg'
    have : unreplayed (MarTech.requeue db row evt body outboxId now) id = unreplayed db id := by
      rw [hl, List.filter_eq_self]
      intro x hm
      obtain ⟨hx, hxe, _⟩ := mem_unreplayed.mp hm
      simp only [Bool.not_eq_true', decide_eq_false_iff_not]
      intro e
      have : x = row := Table.key_injective hx (Table.mem_of_get hr) e
      exact hid (hsame ▸ this ▸ hxe)
    constructor
    case absent => simpa only [hg', this] using h.absent
    case valid  => simpa only [hg'] using h.valid
    case count  => simpa only [hg', this] using h.count
  case pos =>
    subst hid
    simp only [if_true, he, Option.map_some] at hg'
    have hcount := h.count evt he
    simp only [hf, if_true, List.length_eq_one_iff] at hcount
    obtain ⟨x, hx⟩ := hcount
    have hrow : row ∈ unreplayed db evt.eventId :=
      mem_unreplayed.mpr ⟨Table.mem_of_get hr, hsame, hu⟩
    have : row = x := by simpa [hx] using hrow
    have : unreplayed (MarTech.requeue db row evt body outboxId now) evt.eventId = [] := by
      rw [hl, hx, this]
      simp
    constructor
    case absent => simp [hg']
    case valid  => exact fun _ h' => Option.some.inj (hg'.symm.trans h') ▸ h.valid evt he
    case count  => simp [hg', this]

section Calls

variable [Field R] [LinearOrder R] [FloorRing R] [MathExp R] [Runtime] {settings : Settings R}
         {tables tables' : Tables R}

theorem processed {db' : Db R} {eventId : String} (h : Accounted db id)
    (e : Effect settings db (.processed eventId) db') : Accounted db' id := by
  cases e
  case applyEvent evt customer now event pending owner =>
    have hg := applyEvent_events_get settings db evt customer
      (db.engagementScores.get evt.customerId) now id
    by_cases hid : evt.eventId = id
    case neg => exact h.of_letters_eq rfl (.inl (by rw [hg, if_neg hid]))
    case pos =>
      subst hid
      simp only [if_true, event, Option.map_some] at hg
      refine h.of_letters_eq rfl (.inr ⟨_, hg, h.valid evt event, by simp, ?_⟩)
      intro old ho
      cases event.symm.trans ho
      simp [pending]

theorem requeued {db' : Db R} {eventId : String} {dlqId outboxId : Nat} (h : Accounted db id)
    (e : Effect settings db (.requeued eventId dlqId outboxId) db') : Accounted db' id := by
  cases e
  case requeue row evt body now letter unreplayed same event failed =>
    exact h.requeue letter unreplayed same event failed

-- Every call that commits keeps the account, if it dead-letters the event only when it is there.
theorem step {s s' : Tables R} {call : Call} {answer : Except Error Reply} (h : Accounted s.db id)
    (hc : call.Spec settings (· = id) answer s s') : Accounted s'.db id := by
  cases call
  case ingestEvent | ingestBatch => exact h.ingested hc
  case reconcileOutbox | cleanupOutbox =>
    rw [hc]
    exact h.of_letters_eq rfl (.inl rfl)
  case consume call =>
    obtain ⟨reply, _, hserial⟩ := hc.serial
    cases call
    case processOneEvent payload now =>
      obtain ⟨_, hcom, _⟩ := Outcome.of_map_committed (hserial.resolve_right (·.right))
      obtain ⟨body, _, e⟩ := processOneEvent_committed hcom
      exact h.processed e
    case failEvent payload error retries dlqId now =>
      cases hserial
      case inl hserial =>
        obtain ⟨_, hcom, _⟩ := Outcome.of_map_committed hserial
        obtain ⟨hdb, hp⟩ := failEvent_eq hcom
        rw [hdb]
        refine h.deadLetter (fun e he => ⟨he, hp e he⟩) hc.keyed fun e => ?_
        exact (hc.pre e).resolve_left not_false
      case inr hserial =>
        obtain ⟨_, hne, hdb⟩ := hserial
        rw [hdb]
        exact h.deadLetter nofun hc.keyed fun e => absurd e hne
    case replayDlq dlqId outboxId now =>
      obtain ⟨answer, hcom, _⟩ := Outcome.of_map_committed (hserial.resolve_right (·.right))
      obtain ⟨eventId, e, _⟩ := replayDlq_committed settings hcom
      exact h.requeued e

end Calls

end Accounted

section Log

variable [Field R] [LinearOrder R] [FloorRing R] [MathExp R] [Runtime] {settings : Settings R}
         {tables tables' : Tables R} {known : String → Prop}

def replayed (db : Db R) (dlqId : Nat) : Bool :=
  (db.dlqEvents.get dlqId).any (·.replayedAt.isSome)

theorem replayed_processed {db db' : Db R} {eventId : String}
    (e : Effect settings db (.processed eventId) db') (id : Nat) : replayed db' id = replayed db id := by
  cases e
  rfl

theorem replayed_requeued {db db' : Db R} {eventId : String} {dlqId outboxId : Nat}
    (e : Effect settings db (.requeued eventId dlqId outboxId) db') :
    replayed db dlqId = false ∧
      ∀ id, replayed db' id = if dlqId = id then true else replayed db id := by
  cases e
  case requeue row evt body now letter unreplayed _ _ _ =>
    refine ⟨by simp [replayed, letter, unreplayed], fun id => ?_⟩
    simp only [replayed, requeue_dlqEvents_get]
    by_cases e : row.id = id
    case neg => simp only [if_neg e]
    case pos => simp [← e, letter]

-- A commit marks a row as replayed just when it answers `requeued` for it, once.
theorem Call.Spec.replayed {s s' : Tables R} {call : Call} {answer : Except Error Reply}
    (h : call.Spec settings known answer s s') (dlqId : Nat) :
    (MarTech.replayed s'.db dlqId = MarTech.replayed s.db dlqId ∧
        requeued dlqId (call, answer) = false) ∨
      (MarTech.replayed s'.db dlqId ∧ ¬MarTech.replayed s.db dlqId ∧
        requeued dlqId (call, answer)) := by
  cases call
  case ingestEvent | ingestBatch => exact .inl ⟨by rw [MarTech.replayed, h.dlqEvents]; rfl, rfl⟩
  case reconcileOutbox | cleanupOutbox => exact .inl ⟨by rw [h]; rfl, rfl⟩
  case consume call =>
    obtain ⟨reply, hreply, hserial⟩ := h.serial
    cases call
    case processOneEvent payload now =>
      obtain ⟨_, hcom, _⟩ := Outcome.of_map_committed (hserial.resolve_right (·.right))
      obtain ⟨body, _, e⟩ := processOneEvent_committed hcom
      exact .inl ⟨replayed_processed e dlqId, rfl⟩
    case failEvent payload error retries fresh now =>
      refine .inl ⟨?_, rfl⟩
      have hk : s.db.dlqEvents.get fresh = none := h.keyed
      have hl : ∃ evt, s'.db = deadLetter s.db evt (payloadEventId payload) payload error retries
          fresh now := by
        cases hserial
        case inl hserial =>
          obtain ⟨_, hcom, _⟩ := Outcome.of_map_committed hserial
          exact ⟨_, (failEvent_eq hcom).left⟩
        case inr hserial => exact ⟨none, hserial.right.right⟩
      obtain ⟨evt, hl⟩ := hl
      simp only [MarTech.replayed, hl, deadLetter_dlqEvents, moveToDlq, Table.get_insert,
        DLQEvent.key_eq]
      cases hg : s.db.dlqEvents.get dlqId
      case some => rfl
      case none => by_cases e : fresh = dlqId <;> simp [e]
    case replayDlq replayedId outboxId now =>
      obtain ⟨answer', hcom, hans⟩ := Outcome.of_map_committed (hserial.resolve_right (·.right))
      obtain ⟨eventId, e, ha⟩ := replayDlq_committed settings hcom
      obtain ⟨hbefore, hafter⟩ := replayed_requeued e
      have hentry : requeued dlqId (.consume (.replayDlq replayedId outboxId now), answer) =
          decide (replayedId = dlqId) := by
        simp [requeued, hreply, ← hans, ha]
      rw [hentry, hafter]
      by_cases hid : replayedId = dlqId
      case neg => exact .inl ⟨if_neg hid, decide_eq_false hid⟩
      case pos => exact .inr ⟨if_pos hid, by simp [← hid, hbefore], decide_eq_true hid⟩

-- The log answers `requeued` exactly once for each row that has been replayed.
theorem requeued_count {log : List (Call × Except Error Reply)}
    (h : Serial ((discipline False).Commits (Call.Spec settings known)) tables log tables')
    (hd : tables.db.dlqEvents = ∅) (dlqId : Nat) :
    log.countP (requeued dlqId) = if replayed tables'.db dlqId then 1 else 0 := by
  induction h
  case nil => simp [replayed, hd]
  case snoc call answer s s' _ hcall hi =>
    rw [List.countP_append, hi]
    cases hcall.left.replayed dlqId
    case inl h => simp [h.left, h.right]
    case inr h => simp [h.left, h.right.left, h.right.right]

end Log

-- The event is there when the call is to dead-letter it.
def Call.Knows [Runtime] (eventId : String) : Call → Tables R → Prop
  | consume (.failEvent payload ..), s =>
    payloadEventId payload = eventId → (s.db.events.get eventId).isSome
  | _, _ => True

section Runs

variable [Field R] [LinearOrder R] [FloorRing R] [MathExp R] [Runtime] {tables : Tables R}

theorem Call.allowed_of_knows {settings : Settings R} {eventId : String}
    {server : Server Call (Tables R) Lock (Except Error Reply)}
    (h : server.Sound (discipline False) (Spec settings (· = eventId)))
    (hc : server.committed.Covered) {moves : List (Move Call)}
    (hm : server.Allowed (Call.transaction settings) (Knows eventId) moves) :
    server.Allowed (Call.transaction settings) (pre (· = eventId)) moves :=
  allowed_of_failEvent h hc (fun _ _ _ _ _ _ hk e => .inr (e ▸ hk e)) hm

omit [Field R] [LinearOrder R] [FloorRing R] [MathExp R] in
-- A failed event of which the account is kept can be requeued.
theorem Accounted.replayable {db : Db R} {evt : Event} (h : Accounted db evt.eventId)
    (he : db.events.get evt.eventId = some evt) (hf : evt.status = .failed) :
    ∃ row ∈ unreplayed db evt.eventId, ∀ outboxId now, ∃ db',
      replayDlq db row.id outboxId now = .committed db' ⟨"requeued", evt.eventId, row.id⟩ := by
  have hcount := h.count evt he
  simp only [hf, if_true, List.length_eq_one_iff] at hcount
  obtain ⟨row, hrow⟩ := hcount
  have hm : row ∈ unreplayed db evt.eventId := by simp [hrow]
  obtain ⟨hr, hre, hu⟩ := mem_unreplayed.mp hm
  obtain ⟨body, hb⟩ := Option.isSome_iff_exists.mp (h.valid evt he)
  refine ⟨row, hm, fun outboxId now => ⟨MarTech.requeue db row evt body outboxId now, ?_⟩⟩
  have hg : db.dlqEvents.get row.id = some row := Table.mem_iff_get.mp hr
  simp only [replayDlq, hg, hre, hu, he, hf, hb, Option.filter, Option.isSome_none,
    Bool.false_eq_true, if_false, decide_true, if_true]

-- A move that changes the tables is a commit, and that of a replay answers `requeued`.
theorem Call.move_requeues {settings : Settings R} {known : String → Prop}
    {server : Server Call (Tables R) Lock (Except Error Reply)}
    (h : server.Sound (discipline False) (Spec settings known)) (m : Move Call) :
    (server.move (Call.transaction settings) m).committed = server.committed ∨
      ∃ call answer,
        (server.move (Call.transaction settings) m).log = server.log ++ [(call, answer)] ∧
        ∀ dlqId outboxId now, call = .consume (.replayDlq dlqId outboxId now) →
          requeued dlqId (call, answer) := by
  cases m
  case start => exact .inl rfl
  case abort => exact .inl rfl
  case advance id =>
    have hm : ∀ id' call, Move.advance id = .start id' call → pre known call server.committed := by
      intro _ _ e
      cases e
    obtain ⟨_, hstep⟩ := h.move (pre_stable known) (fun call => call.safe) hm
    cases hstep
    case inl hstep => exact .inl hstep.left
    case inr hstep =>
      obtain ⟨call, answer, hlog, hspec, _⟩ := hstep
      refine .inr ⟨call, answer, hlog, fun dlqId outboxId now e => ?_⟩
      subst e
      obtain ⟨reply, hreply, hserial⟩ := hspec.serial
      obtain ⟨answer', hcom, hans⟩ := Outcome.of_map_committed (hserial.resolve_right (·.right))
      obtain ⟨eventId, _, ha⟩ := replayDlq_committed settings hcom
      simp [requeued, hreply, ← hans, ha]

-- However failures and replays interleave, an event has one dead letter to replay when it is failed
-- and none otherwise, each dead letter is requeued once at most, and nothing else comes of a replay.
theorem dead_letter_accounting (settings : Settings R) (he : tables.db.events = ∅)
    (hd : tables.db.dlqEvents = ∅) (ho : tables.db.eventOutbox = ∅) (moves : List (Move Call)) :
    let program := Call.transaction settings
    let server  := Server.idle tables |>.run program moves
    let db      := server.committed.db
    (∀ evt ∈ db.events, (Server.idle tables).Allowed program (Call.Knows evt.eventId) moves →
      (unreplayed db evt.eventId).length = (if evt.status = .failed then 1 else 0) ∧
      (evt.status = .failed → ∃ row ∈ unreplayed db evt.eventId, ∀ outboxId now, ∃ db',
        replayDlq db row.id outboxId now = .committed db' ⟨"requeued", evt.eventId, row.id⟩)) ∧
    (∀ dlqId, server.log.countP (requeued dlqId) = if replayed db dlqId then 1 else 0) ∧
    ∀ m, (server.move program m).committed = server.committed ∨
      ∃ call answer, (server.move program m).log = server.log ++ [(call, answer)] ∧
        ∀ dlqId outboxId now, call = .consume (.replayDlq dlqId outboxId now) →
          requeued dlqId (call, answer) := by
  have hc : tables.Covered := .empty he ho
  constructor
  case left =>
    intro evt hm hk
    have hg : Table.get _ evt.eventId = some evt := Table.mem_iff_get.mp hm
    have hserial : Serial ((discipline False).Commits (Call.Spec settings (· = evt.eventId))) tables
        _ _ :=
      Server.run_serial (Call.pre_stable _) (fun call => call.safe)
        (Call.allowed_of_knows (.idle tables) hc hk)
    have h := hserial.preserves (I := fun s => Accounted s.db evt.eventId)
      (fun _ _ _ _ h ha => ha.step h.left) (.empty he hd)
    exact ⟨h.count evt hg, h.replayable hg⟩
  case right =>
    have hsound : (Server.idle tables).Sound (discipline False)
        (Call.Spec settings fun _ => False) := .idle tables
    obtain ⟨hsound, log, hlog, hserial⟩ := hsound.run (Call.pre_stable _) (fun call => call.safe)
      (Call.allowed hsound hc moves) [] rfl .nil
    simp only [List.nil_append] at hlog
    exact ⟨fun dlqId => hlog ▸ requeued_count hserial hd dlqId, fun m => Call.move_requeues hsound m⟩

end Runs

section Example

open EpochDay

-- An event that fails twice at once, in two workers, and is then replayed.
noncomputable def failedTwice : List (Move Call) :=
  let fail (dlqId : Nat) : Call := .consume <|
    .failEvent unsubscription.modelDump ⟨"ConnectionError", "lost"⟩ 3 dlqId (8 * Timestamp.second)
  .start 0 (.ingestEvent unsubscription none 1 (6 * Timestamp.second)) ::
    List.replicate 4 (.advance 0) ++
    [.start 1 (fail 1), .start 2 (fail 2), .advance 1, .advance 2, .advance 1, .advance 1,
     .advance 1, .advance 2, .advance 2,
     .start 3 (.consume (.replayDlq 1 2 (9 * Timestamp.second)))] ++
    List.replicate 7 (.advance 3)

theorem dead_letter_accounting_failedTwice :
    let tables : Tables ℝ := ⟨seeded.db, []⟩
    let program := Call.transaction .default
    let server  := Server.idle tables |>.run program failedTwice
    let db      := server.committed.db
    (∀ evt ∈ db.events, (Server.idle tables).Allowed program (Call.Knows evt.eventId) failedTwice →
      (unreplayed db evt.eventId).length = (if evt.status = .failed then 1 else 0) ∧
      (evt.status = .failed → ∃ row ∈ unreplayed db evt.eventId, ∀ outboxId now, ∃ db',
        replayDlq db row.id outboxId now = .committed db' ⟨"requeued", evt.eventId, row.id⟩)) ∧
    (∀ dlqId, server.log.countP (requeued dlqId) = if replayed db dlqId then 1 else 0) ∧
    ∀ m, (server.move program m).committed = server.committed ∨
      ∃ call answer, (server.move program m).log = server.log ++ [(call, answer)] ∧
        ∀ dlqId outboxId now, call = .consume (.replayDlq dlqId outboxId now) →
          requeued dlqId (call, answer) :=
  dead_letter_accounting .default rfl rfl rfl failedTwice

end Example
end MarTech
