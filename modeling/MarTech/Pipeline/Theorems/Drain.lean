import MarTech.Pipeline.Theorems.Alone
import MarTech.Pipeline.Theorems.Wire
import MarTech.Pipeline.Watch

namespace MarTech

variable {R : Type}

namespace State

section Remaining

variable {s s' : State R}

-- Whether the row's event waits for a message that is not in the stream.
def isUnsent (s : State R) (row : EventOutbox) : Bool :=
  isPending s.db row.eventId && !row.messageId.any s.stream.contains

def unsent (s : State R) : List Nat :=
  (s.db.eventOutbox.rows.filter s.isUnsent).map (·.id)

-- How much there is to do: what is not in the stream has to be published and then consumed.
def remaining (s : State R) : Nat :=
  2 * s.unsent.length + s.stream.entries.length

theorem unsent_nodup (s : State R) : s.unsent.Nodup :=
  (List.filter_sublist.map _).nodup s.db.eventOutbox.unique

theorem mem_unsent {id : Nat} :
    id ∈ s.unsent ↔ ∃ row, s.db.eventOutbox.get id = some row ∧ s.isUnsent row := by
  simp only [unsent, List.mem_map, List.mem_filter, Table.get_eq_some_iff, EventOutbox.key_eq,
    Table.mem_rows]
  exact exists_congr fun row => by tauto

theorem isUnsent_iff {row : EventOutbox} : s.isUnsent row ↔ isPending s.db row.eventId ∧
    ∀ m ∈ row.messageId, ∀ entry ∈ s.stream.entries, entry.id ≠ m := by
  cases hm : row.messageId <;> simp [isUnsent, hm, Stream.contains]

theorem unsent_length_le (h : s'.unsent ⊆ s.unsent) : s'.unsent.length ≤ s.unsent.length :=
  (s'.unsent_nodup.subperm h).length_le

theorem unsent_length_lt (h : s'.unsent ⊆ s.unsent) {id : Nat} (hm : id ∈ s.unsent)
    (hn : id ∉ s'.unsent) : s'.unsent.length < s.unsent.length := by
  have hsub : id :: s'.unsent ⊆ s.unsent := List.cons_subset.mpr ⟨hm, h⟩
  exact ((List.nodup_cons.mpr ⟨hn, s'.unsent_nodup⟩).subperm hsub).length_le

end Remaining

section Publication

variable {s s' s'' : State R} {now : Timestamp} {row : EventOutbox} {m : MessageId}

-- What publishing does, and that it takes the work forward by as much as it publishes.
structure Published (s s' : State R) (count : Nat) : Prop where
  events  : s'.db.events = s.db.events
  entries : s.stream.entries ⊆ s'.stream.entries
  length  : s'.stream.entries.length = s.stream.entries.length + count
  unsent  : s'.unsent.length + count ≤ s.unsent.length

theorem Published.trans {count count' : Nat} (h : Published s s' count)
    (h' : Published s' s'' count') : Published s s'' (count + count') where
  events  := h'.events.trans h.events
  entries := List.Subset.trans h.entries h'.entries
  length  := by rw [h'.length, h.length, Nat.add_assoc]
  unsent  := by have := h.unsent; have := h'.unsent; omega

-- A claimed row, as it stands in the outbox.
structure Claimed (s : State R) (row : EventOutbox) : Prop where
  current  : s.db.eventOutbox.get row.id = some row
  pending  : isPending s.db row.eventId
  customer : (row.payload.get "customer_id").isSome

-- The state after a turn of the loop in `reconcile_outbox`.
def mark (s : State R) (row : EventOutbox) (m : MessageId) (now : Timestamp) (stream : Stream) :
    State R :=
  { s with db := markPublished s.db row.id m now, stream }

theorem mark_get (id : Nat) {stream : Stream} :
    (s.mark row m now stream).db.eventOutbox.get id = if row.id = id then
      (s.db.eventOutbox.get id).map fun row => { row with publishedAt := some now, messageId := some m }
    else
      s.db.eventOutbox.get id :=
  markPublished_get ..

theorem Claimed.mark (h : s.Claimed row) {row' : EventOutbox} (hne : row'.id ≠ row.id)
    (stream : Stream) : (s.mark row' m now stream).Claimed row where
  current  := by rw [mark_get, if_neg hne, h.current]
  pending  := h.pending
  customer := h.customer

-- Once a message in the stream is on record for the row, it is not unsent, and others are no more so.
theorem unsent_mark (s : State R) (row : EventOutbox) (now : Timestamp) {stream : Stream}
    (hs : s.stream.entries ⊆ stream.entries)
    (hm : ∃ entry ∈ stream.entries, entry.id = m) :
    (s.mark row m now stream).unsent ⊆ s.unsent ∧ row.id ∉ (s.mark row m now stream).unsent := by
  have hself : row.id ∉ (s.mark row m now stream).unsent := by
    intro hid
    obtain ⟨row', hg, hu⟩ := mem_unsent.mp hid
    rw [mark_get, if_pos rfl] at hg
    obtain ⟨row, -, rfl⟩ := Option.map_eq_some_iff.mp hg
    obtain ⟨entry, he, rfl⟩ := hm
    exact (isUnsent_iff.mp hu).right _ rfl entry he rfl
  refine ⟨fun id hid => ?_, hself⟩
  obtain ⟨row', hg, hu⟩ := mem_unsent.mp hid
  rw [mark_get] at hg
  split at hg
  case isTrue he  => exact absurd (he ▸ hid) hself
  case isFalse =>
    obtain ⟨hp, hn⟩ := isUnsent_iff.mp hu
    exact mem_unsent.mpr ⟨row', hg, isUnsent_iff.mpr ⟨hp, fun m' hm' entry he => hn m' hm' entry (hs he)⟩⟩

theorem publishRow_published (h : s.Claimed row) (now : Timestamp) :
    ∃ m stream n, publishRow s.stream row = .ok (m, stream, n) ∧
      Published s (s.mark row m now stream) n ∧ (s.stream.entries = [] → n = 1) := by
  obtain ⟨customerId, hc⟩ := Option.isSome_iff_exists.mp h.customer
  by_cases hlive : ∃ m ∈ row.messageId, s.stream.contains m
  case pos =>
    obtain ⟨m, hm, hlive⟩ := hlive
    obtain ⟨entry, he, hid⟩ : ∃ entry ∈ s.stream.entries, entry.id = m := by
      simpa [Stream.contains] using hlive
    refine ⟨m, s.stream, 0, ?_, ?_, fun hn => by rw [hn] at he; cases he⟩
    · rw [Option.mem_def] at hm
      simp [publishRow, hm, hlive]
    · obtain ⟨hsub, -⟩ := s.unsent_mark row now (List.Subset.refl _)
        ⟨entry, he, hid⟩
      exact ⟨rfl, List.Subset.refl _, rfl, unsent_length_le hsub⟩
  case neg =>
    let stream := (s.stream.enqueue customerId row.payload).1
    have hpublish : publishRow s.stream row = .ok (s.stream.nextId, stream, 1) := by
      cases hm : row.messageId
      case none => simp [publishRow, hm, hc, stream, Stream.enqueue]
      case some m =>
        have hgone : s.stream.contains m = false := by simpa [hm] using hlive
        simp [publishRow, hm, hc, hgone, stream, Stream.enqueue]
    have hs : s.stream.entries ⊆ stream.entries := List.subset_append_left ..
    obtain ⟨hsub, hnot⟩ := s.unsent_mark row now hs
      ⟨⟨s.stream.nextId, customerId, row.payload⟩, by simp [stream, Stream.enqueue], rfl⟩
    have hmem : row.id ∈ s.unsent := by
      refine mem_unsent.mpr ⟨row, h.current, isUnsent_iff.mpr ⟨h.pending, fun m hm entry he hid => ?_⟩⟩
      exact hlive ⟨m, hm, by simpa [Stream.contains] using ⟨entry, he, hid⟩⟩
    refine ⟨_, stream, 1, hpublish, ⟨rfl, hs, ?_, unsent_length_lt hsub hmem hnot⟩, fun _ => rfl⟩
    simp [State.mark, stream, Stream.enqueue]

theorem publishRows_published {rows : List EventOutbox} (h : ∀ row ∈ rows, s.Claimed row)
    (hn : (rows.map (·.id)).Nodup) (now : Timestamp) :
    ∃ db count stream, publishRows now s.db s.stream rows = (.ok (db, count), stream) ∧
      Published s { s with db, stream } count ∧
      (s.stream.entries = [] → rows ≠ [] → count ≠ 0) := by
  induction rows generalizing s
  case nil =>
    exact ⟨s.db, 0, s.stream, rfl, ⟨rfl, List.Subset.refl _, rfl, le_refl _⟩, fun _ h => absurd rfl h⟩
  case cons row rows hi =>
    obtain ⟨hrow, hrows⟩ := List.forall_mem_cons.mp h
    obtain ⟨hne, hn⟩ := List.nodup_cons.mp hn
    obtain ⟨m, stream, n, hpublish, hfirst, hnew⟩ := publishRow_published hrow now
    have hclaimed : ∀ row' ∈ rows, (s.mark row m now stream).Claimed row' := fun row' hm =>
      (hrows row' hm).mark (fun he => hne <| List.mem_map.mpr ⟨row', hm, he.symm⟩) stream
    obtain ⟨db, count, stream', hrest, hpublished, -⟩ := hi hclaimed hn
    refine ⟨db, n + count, stream', ?_, hfirst.trans hpublished, fun hs _ => ?_⟩
    · simp only [State.mark] at hrest
      simp only [publishRows, hpublish, hrest]
    · rw [hnew hs]
      omega

-- Cleaning up takes away no row of a pending event.
theorem unsent_cleanup (settings : Settings R) (s : State R) (now : Timestamp) :
    State.unsent { s with db := cleanupOutbox settings s.db now } ⊆ s.unsent := by
  intro id hid
  obtain ⟨row, hg, hu⟩ := mem_unsent.mp hid
  rw [cleanupOutbox, Table.get_delete] at hg
  obtain ⟨hg, -⟩ := Option.filter_eq_some_iff.mp hg
  exact mem_unsent.mpr ⟨row, hg, hu⟩

end Publication

end State

section Runs

variable [Runtime]

-- A payload that can be validated has a customer.
theorem EventIn.modelValidate_customerId {payload : Json.Object} {body : EventIn}
    (h : modelValidate payload = some body) : (payload.get "customer_id").isSome := by
  cases hc : payload.get "customer_id"
  case some => rfl
  case none => simp [modelValidate, hc] at h

namespace Workers

variable {s : Workers R}

-- What is left when all workers have died.
theorem Accurate.quiet (h : s.Accurate) : (Workers.idle s.toState).Accurate where
  owned    := h.owned
  stored   := h.stored
  drawn    := h.drawn
  rows     := h.rows
  recorded := h.recorded
  fresh    := h.fresh
  entries  := h.entries
  queued evt hm hp := by
    obtain ⟨row, hr, hid, -⟩ := h.queued evt hm hp
    exact ⟨row, hr, hid, fun r hr => by simp [Workers.idle, Table.mem_iff_get] at hr⟩
  holds r hr := by simp [Workers.idle, Table.mem_iff_get] at hr

variable [Field R] [LinearOrder R] [FloorRing R] [MathExp R] {settings : Settings R}

variable (settings) in
-- `reconcile_outbox` does not raise.
theorem Accurate.reconcile {s : State R} (h : (Workers.idle s).Accurate) (now : Timestamp) :
    ∃ db count stream, reconcileOutbox settings s.db s.stream now = (.committed db count, stream) ∧
      State.Published s (s.exec settings (.reconcileOutbox now)) count ∧
      (s.stream.entries = [] → claimUnpublished s.db settings.outboxBatchSize now ≠ [] →
        count ≠ 0) := by
  have hclaimed : ∀ row ∈ claimUnpublished s.db settings.outboxBatchSize now, s.Claimed row := by
    intro row hm
    obtain ⟨hmem, hc, -⟩ := claimUnpublished_subset hm
    obtain ⟨body, hb, -⟩ := h.rows row hmem
    rw [claimable, Bool.and_eq_true] at hc
    exact ⟨Table.mem_iff_get.mp hmem, hc.left, EventIn.modelValidate_customerId hb⟩
  obtain ⟨db, count, stream, hrows, hpublished, hcount⟩ :=
    State.publishRows_published hclaimed (claimUnpublished_nodup ..) now
  have hreconcile : reconcileOutbox settings s.db s.stream now =
      (.committed (cleanupOutbox settings db now) count, stream) := by
    rw [reconcileOutbox, hrows]
  refine ⟨_, count, stream, hreconcile, ?_, hcount⟩
  rw [State.exec, hreconcile]
  refine ⟨hpublished.events, hpublished.entries, hpublished.length, ?_⟩
  have hcleanup := State.unsent_length_le <| State.unsent_cleanup settings { s with db, stream } now
  exact (Nat.add_le_add_right hcleanup _).trans hpublished.unsent

theorem history_turns (turns : List Turn) :
    s.history settings (turns.map .turn) = s.run settings turns := by
  rw [history, run, List.foldl_map]
  rfl

theorem Accurate.reconciled {s : State R} (h : (Workers.idle s).Accurate) (now : Timestamp) :
    (Workers.idle (s.exec settings (.reconcileOutbox now))).Accurate := by
  obtain ⟨db, count, stream, hr, -⟩ := h.reconcile settings now
  obtain ⟨n, hn⟩ := reconcileOutbox_alone s settings now 0 hr
  rw [← hn, ← history_turns]
  refine h.history settings fun happening hm body hb => ?_
  obtain ⟨turn, ht, rfl⟩ := List.mem_map.mp hm
  obtain rfl | ht := List.mem_cons.mp ht
  · cases hb
  · rw [List.eq_of_mem_replicate ht] at hb
    cases hb

end Workers

namespace State

variable {s s' s'' : State R}

-- What the consumer may do to the events: a pending one may be processed, and no letter is added.
structure Consumed (s s' : State R) : Prop where
  events  : ∀ id evt, s.db.events.get id = some evt → ∃ evt', s'.db.events.get id = some evt' ∧
    (evt' = evt ∨ evt.status = .pending ∧ evt'.status = .processed)
  absent  : ∀ id, s.db.events.get id = none → s'.db.events.get id = none
  letters : s'.db.dlqEvents = s.db.dlqEvents

omit [Runtime] in
theorem Consumed.of_eq (he : s'.db.events = s.db.events) (hd : s'.db.dlqEvents = s.db.dlqEvents) :
    Consumed s s' where
  events _ evt h := ⟨evt, he ▸ h, .inl rfl⟩
  absent _ h     := he ▸ h
  letters        := hd

omit [Runtime] in
theorem Consumed.trans (h : Consumed s s') (h' : Consumed s' s'') : Consumed s s'' where
  absent id hn := h'.absent id (h.absent id hn)
  letters      := h'.letters.trans h.letters
  events id evt he := by
    obtain ⟨evt', he', hevt⟩ := h.events id evt he
    obtain ⟨evt'', he'', hevt'⟩ := h'.events id evt' he'
    refine ⟨evt'', he'', ?_⟩
    obtain rfl | ⟨hp, hd⟩ := hevt
    · exact hevt'
    · obtain rfl | ⟨hp', -⟩ := hevt'
      · exact .inr ⟨hp, hd⟩
      · rw [hd] at hp'
        cases hp'

variable [Field R] [LinearOrder R] [FloorRing R] [MathExp R] {settings : Settings R}
         {now : Timestamp}

-- What the handling of a message makes of the state, if it does not raise.
structure Handled (s s' : State R) (entry : StreamEntry) : Prop extends Consumed s s' where
  outbox   : s'.db.eventOutbox = s.db.eventOutbox
  terminal : isTerminal s'.db entry.eventId
  stream   : s'.stream = s.stream.ack entry.id
  carries  : ∀ eventId payload, Carries s.db eventId payload → Carries s'.db eventId payload

theorem handleMessage_eq {entry : StreamEntry}
    (h : ∀ error, processOneEvent settings s.db entry.payload now ≠ .raised error) :
    s.handleMessage settings now entry =
      { s.exec settings (.processOneEvent entry.payload now) with stream := s.stream.ack entry.id } := by
  simp only [handleMessage, exec]

variable (settings now) in
theorem handled (hl : (Workers.idle s).Accurate) {entry : StreamEntry}
    (hc : Carries s.db entry.eventId entry.payload) :
    (Workers.idle (s.handleMessage settings now entry)).Accurate ∧
      Handled s (s.handleMessage settings now entry) entry := by
  have hraise : ∀ error, processOneEvent settings s.db entry.payload now ≠ .raised error :=
    processOneEvent_not_raised hl.owned hc now
  rw [handleMessage_eq hraise]
  let happenings : List Workers.Happening :=
    [.turn (.transact (.processOneEvent entry.payload now) rfl), .turn (.ack entry.id)]
  have haccurate : ((Workers.idle s).history settings happenings).Accurate :=
    hl.history settings (by simp [happenings, Workers.Happening.bodies, Op.bodies])
  have hcarries (eventId : String) (payload : Json.Object) (hc : Carries s.db eventId payload) :
      Carries ((Workers.idle s).history settings happenings).db eventId payload :=
    Workers.history_carries happenings hc
  refine ⟨haccurate, ?_⟩
  have hdb : ((Workers.idle s).history settings happenings).db =
      (processOneEvent settings s.db entry.payload now).db s.db :=
    rfl
  rw [hdb] at hcarries
  simp only [exec]
  cases hp : processOneEvent settings s.db entry.payload now
  case raised error => exact absurd hp (hraise error)
  case returned =>
    rw [hp] at hcarries
    exact ⟨.of_eq rfl rfl, rfl, isTerminal_of_returned hp, rfl, hcarries⟩
  case committed db' =>
    rw [hp] at hcarries
    have hterminal := isTerminal_of_committed hp
    obtain ⟨body, -, e⟩ := processOneEvent_committed hp
    generalize body.eventId = eventId at e
    cases e
    case applyEvent evt _ _ hevt hpending _ =>
      refine ⟨⟨fun id evt' he => ?_, fun id hn => ?_, rfl⟩, rfl, hterminal, rfl, hcarries⟩
      case refine_1 =>
        simp only [Outcome.db, applyEvent_events_get]
        split
        case isFalse => exact ⟨evt', he, .inl rfl⟩
        case isTrue h =>
          rw [← h, hevt, Option.some.injEq] at he
          rw [← h, hevt, Option.map_some, ← he]
          exact ⟨_, rfl, .inr ⟨hpending, rfl⟩⟩
      case refine_2 => simp [Outcome.db, applyEvent_events_get, hn]

omit [Field R] [LinearOrder R] [FloorRing R] [MathExp R] in
-- A message that has been consumed is one less, and nothing new has to be published.
theorem Handled.remaining_le {entry : StreamEntry} (h : Handled s s' entry)
    (hl : (Workers.idle s).Accurate)
    (hrow : ∀ row ∈ s.db.eventOutbox, row.messageId = some entry.id → row.eventId = entry.eventId) :
    s'.remaining ≤ s.remaining ∧ (entry ∈ s.stream.entries → s'.remaining < s.remaining) := by
  have hunsent : s'.unsent ⊆ s.unsent := by
    intro id hid
    obtain ⟨row, hg, hu⟩ := mem_unsent.mp hid
    obtain ⟨hp, hn⟩ := isUnsent_iff.mp hu
    rw [h.outbox] at hg
    -- Its event would be pending, but it has come to its end if the message was the row's.
    have hother : row.messageId ≠ some entry.id := by
      intro hm
      rw [hrow row (Table.mem_of_get hg) hm] at hp
      have hterminal := h.terminal
      cases he : s'.db.events.get entry.eventId <;> simp [isPending, isTerminal, he] at hp hterminal
      simp [hp] at hterminal
    obtain ⟨evt', he', hs'⟩ := Option.any_eq_true _ _ |>.mp hp
    obtain ⟨evt, he⟩ : ∃ evt, s.db.events.get row.eventId = some evt := by
      obtain ⟨-, -, -, evt, he, -⟩ := hl.rows row (Table.mem_of_get hg)
      exact ⟨evt, he⟩
    obtain ⟨evt'', he'', hevt⟩ := h.events _ evt he
    have hpending : isPending s.db row.eventId := by
      rw [isPending, he]
      obtain rfl | ⟨hpending, -⟩ := hevt
      · rw [he', Option.some.injEq] at he''
        exact he'' ▸ hs'
      · simpa using hpending
    refine mem_unsent.mpr ⟨row, hg, isUnsent_iff.mpr ⟨hpending, fun m hm e hmem hid => ?_⟩⟩
    refine hn m hm e ?_ hid
    rw [h.stream]
    refine List.mem_filter.mpr ⟨hmem, ?_⟩
    rw [Option.mem_def] at hm
    simpa [hid, hm] using hother
  have hlength := unsent_length_le hunsent
  have hentries : s'.stream.entries.length ≤ s.stream.entries.length := by
    rw [h.stream]
    exact List.length_filter_le ..
  refine ⟨by unfold remaining; omega, fun hm => ?_⟩
  have hlt : s'.stream.entries.length < s.stream.entries.length := by
    rw [h.stream]
    exact List.length_filter_lt_length_iff_exists.mpr ⟨entry, hm, by simp⟩
  unfold remaining
  omega

variable (settings now) in
-- Handling the messages that a worker has got goes on with the work, if these are any.
theorem handle_all (hl : (Workers.idle s).Accurate) {messages : List StreamEntry}
    (hc : ∀ entry ∈ messages, Carries s.db entry.eventId entry.payload)
    (hrow : ∀ entry ∈ messages, ∀ row ∈ s.db.eventOutbox, row.messageId = some entry.id →
      row.eventId = entry.eventId) :
    let s' := messages.foldl (handleMessage settings now) s
    (Workers.idle s').Accurate ∧ Consumed s s' ∧ s'.remaining ≤ s.remaining ∧
      ((∃ entry ∈ messages.head?, entry ∈ s.stream.entries) → s'.remaining < s.remaining) := by
  induction messages generalizing s
  case nil => exact ⟨hl, .of_eq rfl rfl, le_refl _, by simp⟩
  case cons entry messages hi =>
    obtain ⟨hentry, hc⟩ := List.forall_mem_cons.mp hc
    obtain ⟨hrowEntry, hrow⟩ := List.forall_mem_cons.mp hrow
    obtain ⟨hl', hhandled⟩ := handled settings now hl hentry
    obtain ⟨hle, hlt⟩ := hhandled.remaining_le hl hrowEntry
    obtain ⟨hfinal, hconsumed, hrest, -⟩ := hi hl'
      (fun entry hm => hhandled.carries _ _ (hc entry hm))
      (fun entry hm row hr => hrow entry hm row (hhandled.outbox ▸ hr))
    refine ⟨hfinal, hhandled.toConsumed.trans hconsumed, hrest.trans hle, fun hm => ?_⟩
    exact hrest.trans_lt (hlt (by simpa using hm))

omit [Runtime] [Field R] [LinearOrder R] [FloorRing R] [MathExp R] in
-- With nothing in the stream, an unsent row is there to be claimed.
theorem unsent_eq_nil {poll : Poll} (hb : 0 < settings.outboxBatchSize)
    (hs : s.stream.entries = []) (hrest : s.Rested poll)
    (hc : claimUnpublished s.db settings.outboxBatchSize poll.now = []) : s.unsent = [] := by
  refine List.eq_nil_iff_forall_not_mem.mpr fun id hid => ?_
  obtain ⟨row, hg, hu⟩ := mem_unsent.mp hid
  have hdue : claimable s.db poll.now row := by
    rw [claimable, (isUnsent_iff.mp hu).left, Bool.true_and]
    exact (hrest.resolve_left (not_not.mpr hs)) row (Table.mem_of_get hg)
  obtain hzero | hnil := List.take_eq_nil_iff.mp hc
  · exact hb.ne' hzero
  · have hrows := (List.mergeSort_perm ..).length_eq.symm.trans (congrArg List.length hnil)
    have hm := List.filter_eq_nil_iff.mp (List.eq_nil_of_length_eq_zero hrows) row
      (Table.mem_of_get hg)
    exact hm (by simpa using hdue)

-- An iteration that does not come too early takes the work forward, until all is done.
theorem iterate (hl : (Workers.idle s).Accurate) (hb : 0 < settings.outboxBatchSize) {poll : Poll}
    (hserve : poll.Serves) (hrest : s.Rested poll) :
    let s' := s.iteration settings poll
    (Workers.idle s').Accurate ∧ Consumed s s' ∧ s'.remaining ≤ s.remaining - 1 := by
  obtain ⟨db, count, stream, hr, hpublished, hcount⟩ := hl.reconcile settings poll.now
  have hl' : (Workers.idle (s.exec settings (.reconcileOutbox poll.now))).Accurate :=
    hl.reconciled poll.now
  have hconsumed : Consumed s (s.exec settings (.reconcileOutbox poll.now)) := by
    refine .of_eq hpublished.events ?_
    have e := reconcileOutbox_committed hr
    simp only [exec, hr, Outcome.db]
    cases e
    rfl
  have hiteration : s.iteration settings poll =
      (poll.consume (s.exec settings (.reconcileOutbox poll.now)).stream).foldl
        (handleMessage settings poll.now) (s.exec settings (.reconcileOutbox poll.now)) := by
    simp only [iteration, hr]
  have hle : (s.exec settings (.reconcileOutbox poll.now)).remaining + count ≤ s.remaining := by
    have := hpublished.unsent
    have := hpublished.length
    unfold remaining
    omega
  have hempty : (s.exec settings (.reconcileOutbox poll.now)).stream.entries = [] →
      s.remaining = 0 := by
    intro hn
    have hlen := hpublished.length
    rw [hn, List.length_nil] at hlen
    have hs : s.stream.entries = [] := List.eq_nil_of_length_eq_zero (by omega)
    have hclaim : claimUnpublished s.db settings.outboxBatchSize poll.now = [] := by
      by_contra hne
      exact hcount hs hne (by omega)
    rw [remaining, unsent_eq_nil hb hs hrest hclaim, hs]
    rfl
  rw [hiteration]
  generalize s.exec settings (.reconcileOutbox poll.now) = s₁ at hl' hconsumed hle hempty
  obtain ⟨hsub, hne⟩ := hserve s₁.stream
  have hcarries : ∀ entry ∈ poll.consume s₁.stream, Carries s₁.db entry.eventId entry.payload :=
    fun entry hm => hl'.entries entry (hsub hm)
  have hrow : ∀ entry ∈ poll.consume s₁.stream, ∀ row ∈ s₁.db.eventOutbox,
      row.messageId = some entry.id → row.eventId = entry.eventId := by
    intro entry hm row hrow hid
    obtain ⟨body, hbody, he, -⟩ := hl'.rows row hrow
    have hpayload := (hl'.recorded row hrow entry.id hid).right entry (hsub hm) rfl
    rw [StreamEntry.eventId, hpayload, payloadEventId_of_modelValidate hbody, he]
  obtain ⟨hfinal, hconsumed', hrest', hlt⟩ := handle_all settings poll.now hl' hcarries hrow
  refine ⟨hfinal, hconsumed.trans hconsumed', ?_⟩
  by_cases hs : s₁.stream.entries = []
  case pos =>
    have hzero := hempty hs
    omega
  case neg =>
    obtain ⟨entry, hhead⟩ := Option.isSome_iff_exists.mp <| List.isSome_head?.mpr (hne hs)
    have := hlt ⟨entry, hhead, hsub (List.mem_of_head? hhead)⟩
    omega

theorem iterations_remaining (hl : (Workers.idle s).Accurate) (hb : 0 < settings.outboxBatchSize)
    {polls : List Poll} (hserve : ∀ poll ∈ polls, poll.Serves) (hrest : s.Along settings Rested polls) :
    let s' := s.iterations settings polls
    (Workers.idle s').Accurate ∧ Consumed s s' ∧ s'.remaining ≤ s.remaining - polls.length := by
  induction polls generalizing s
  case nil => exact ⟨hl, .of_eq rfl rfl, le_refl _⟩
  case cons poll polls hi =>
    obtain ⟨hpoll, hserve⟩ := List.forall_mem_cons.mp hserve
    obtain ⟨hl', hconsumed, hle⟩ := iterate hl hb hpoll hrest.left
    obtain ⟨hfinal, hconsumed', hle'⟩ := hi hl' hserve hrest.right
    refine ⟨hfinal, hconsumed.trans hconsumed', ?_⟩
    simp only [iterations, List.foldl_cons, List.length_cons] at hle' ⊢
    omega

omit [Field R] [LinearOrder R] [FloorRing R] [MathExp R] in
-- Nothing is left to do, so that no event is pending.
theorem not_pending (hl : (Workers.idle s).Accurate) (h : s.remaining = 0) {id : String} {evt : Event}
    (he : s.db.events.get id = some evt) : evt.status ≠ .pending := by
  intro hp
  obtain ⟨row, hrow, hid, -⟩ := hl.queued evt (Table.mem_of_get he) hp
  have hid' : evt.eventId = id := Table.key_of_get he
  obtain ⟨hunsent, hentries⟩ : s.unsent.length = 0 ∧ s.stream.entries.length = 0 := by
    unfold remaining at h
    omega
  have hm : row.id ∈ s.unsent := by
    refine mem_unsent.mpr ⟨row, Table.mem_iff_get.mp hrow, isUnsent_iff.mpr ⟨?_, ?_⟩⟩
    · rw [isPending, hid, hid', he]
      simpa using hp
    · simp [List.eq_nil_of_length_eq_zero hentries]
  rw [List.eq_nil_of_length_eq_zero hunsent] at hm
  cases hm

-- Enough iterations leave nothing to do.
theorem iterations_done (hl : (Workers.idle s).Accurate) (hb : 0 < settings.outboxBatchSize)
    {polls : List Poll} (hserve : ∀ poll ∈ polls, poll.Serves) (hrest : s.Along settings Rested polls)
    (hlength : 2 * s.db.eventOutbox.rows.length + s.stream.entries.length ≤ polls.length) :
    let s' := s.iterations settings polls
    Consumed s s' ∧ s'.stream.entries = [] ∧
      ∀ id evt, s'.db.events.get id = some evt → evt.status ≠ .pending := by
  intro s'
  obtain ⟨hl', hconsumed, hremaining⟩ := iterations_remaining hl hb hserve hrest
  have hremaining : s'.remaining ≤ s.remaining - polls.length := hremaining
  have hle : s.unsent.length ≤ s.db.eventOutbox.rows.length := by
    rw [unsent, List.length_map]
    exact List.length_filter_le ..
  have hdone : s'.remaining = 0 := by
    have : s.remaining ≤ polls.length := by
      unfold remaining
      omega
    omega
  refine ⟨hconsumed, ?_, fun id evt => not_pending hl' hdone⟩
  refine List.eq_nil_of_length_eq_zero ?_
  unfold remaining at hdone
  omega

end State

variable [Field R] [LinearOrder R] [FloorRing R] [MathExp R]

-- Whatever the system has been through, one worker that goes on undisturbed gets it all done: after an
-- iteration for each message and two for each row of the outbox, the pending events are processed, the
-- others are as they were, the stream is empty, and nothing has become a dead letter.
theorem drained (settings : Settings R) (hb : 0 < settings.outboxBatchSize) {s₀ : State R}
    (he : s₀.db.events = ∅) (ho : s₀.db.eventOutbox = ∅) (hs : s₀.stream.entries = [])
    (happenings : List Workers.Happening)
    (hl : ∀ happening ∈ happenings, ∀ body ∈ happening.bodies, body.Lossless) :
    let s := ((Workers.idle s₀).history settings happenings).toState
    ∀ polls : List Poll, (∀ poll ∈ polls, poll.Serves) → s.Along settings State.Rested polls →
      2 * s.db.eventOutbox.rows.length + s.stream.entries.length ≤ polls.length →
      let s' := s.iterations settings polls
      (∀ id evt, s.db.events.get id = some evt → ∃ evt', s'.db.events.get id = some evt' ∧
        if evt.status = .pending then evt'.status = .processed else evt' = evt) ∧
      s'.stream.entries = [] ∧ s'.db.dlqEvents = s.db.dlqEvents := by
  intro s polls hserve hrest hlength s'
  have haccurate : (Workers.idle s).Accurate :=
    ((Workers.Accurate.idle he ho hs).history settings hl).quiet
  obtain ⟨hconsumed, hstream, hdone⟩ := State.iterations_done haccurate hb hserve hrest hlength
  refine ⟨fun id evt hevt => ?_, hstream, hconsumed.letters⟩
  obtain ⟨evt', hevt', h⟩ := hconsumed.events id evt hevt
  refine ⟨evt', hevt', ?_⟩
  split
  case isTrue hp =>
    obtain rfl | ⟨-, hd⟩ := h
    · exact absurd hp (hdone id evt' hevt')
    · exact hd
  case isFalse hp => exact h.resolve_right fun h => hp h.left

end Runs

section Example

open EpochDay

def pollAt (now : Timestamp) : Poll where
  now     := now
  consume := Stream.entries

theorem pollAt_serves (now : Timestamp) : (pollAt now).Serves :=
  fun _ => ⟨List.Subset.refl _, id⟩

-- Redis loses the message of a worker that has died before it put the message on record.
theorem drained_lostMessage :
    let s  := ((Workers.idle seeded).history .default (publishedOnce ++ [.lose])).toState
    let s' := s.iterations .default [pollAt (10 * Timestamp.second), pollAt (200 * Timestamp.second)]
    (∀ id evt, s.db.events.get id = some evt → ∃ evt', s'.db.events.get id = some evt' ∧
      if evt.status = .pending then evt'.status = .processed else evt' = evt) ∧
    s'.stream.entries = [] ∧ s'.db.dlqEvents = s.db.dlqEvents := by
  refine drained .default (by decide) rfl rfl rfl _ publishedOnce_lossless _ ?_ ?_ ?_
  · simp [pollAt_serves]
  · exact ⟨.inr <| List.all_eq_true.mp <| by decide +kernel,
      .inr <| List.all_eq_true.mp <| by decide +kernel, trivial⟩
  · decide +kernel

end Example
end MarTech
