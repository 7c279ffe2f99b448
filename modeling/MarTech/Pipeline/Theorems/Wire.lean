import MarTech.Pipeline.System
import MarTech.Pipeline.Theorems.LiveMessage

namespace MarTech

section Runs

variable {R : Type} [Runtime]

-- A lossless event comes back from its message as it was.
theorem EventIn.modelValidate_modelDump {body : EventIn} (h : body.Lossless) :
    modelValidate body.modelDump = some body := by
  have hfields : modelValidate body.modelDump =
      (parseDatetime (.str (dumpDatetime body.timestamp))).bind fun timestamp =>
        validate body.eventId body.customerId body.channel.value body.eventType.value timestamp
          body.metadata :=
    rfl
  rw [hfields, h]
  exact validate_self body

-- What has been stored can be validated again, and sent.
def Event.Storable (evt : Event) : Prop :=
  ∃ body, evt.toEventIn = some body ∧ body.Lossless

-- The payload says of the event what is stored of it.
def Carries (db : Db R) (eventId : String) (payload : Json.Object) : Prop :=
  ∃ body, EventIn.modelValidate payload = some body ∧ body.eventId = eventId ∧
    ∃ evt, db.events.get eventId = some evt ∧ evt.toEventIn = some body

-- What submissions and consumers make of the tables: no event is rewritten, and the rows of the outbox
-- stay. What is new among them has an id from `lo` to `hi`, and there is one for each event that has
-- become pending.
structure Grown (db db' : Db R) (lo hi : Nat) : Prop where
  le      : lo ≤ hi
  events  : ∀ id evt, db.events.get id = some evt → ∃ evt', db'.events.get id = some evt' ∧
    evt' = { evt with status := evt'.status, processedAt := evt'.processedAt }
  stored  : (∀ evt ∈ db.events, evt.Storable) → ∀ evt ∈ db'.events, evt.Storable
  kept    : ∀ row ∈ db.eventOutbox, row ∈ db'.eventOutbox
  rows    : ∀ row ∈ db'.eventOutbox, row ∈ db.eventOutbox ∨ lo ≤ row.id ∧ row.id < hi ∧
    row.messageId = none ∧ Carries db' row.eventId row.payload
  pending : ∀ evt ∈ db'.events, evt.status = .pending →
    (∃ evt' ∈ db.events, evt'.eventId = evt.eventId ∧ evt'.status = .pending) ∨
      ∃ row ∈ db'.eventOutbox, row.eventId = evt.eventId ∧ lo ≤ row.id

theorem Carries.grown {db db' : Db R} {lo hi : Nat} (hg : Grown db db' lo hi) {eventId : String}
    {payload : Json.Object} (h : Carries db eventId payload) : Carries db' eventId payload := by
  obtain ⟨body, hb, hid, evt, he, hs⟩ := h
  obtain ⟨evt', he', e⟩ := hg.events eventId evt he
  refine ⟨body, hb, hid, evt', he', ?_⟩
  rw [e]
  exact hs

namespace Grown

variable {db db₁ db₂ db₃ db' : Db R} {lo mid hi : Nat}

theorem refl (db : Db R) (lo : Nat) : Grown db db lo lo where
  le               := le_refl _
  events _ evt h   := ⟨evt, h, rfl⟩
  stored h         := h
  kept _ h         := h
  rows _ h         := .inl h
  pending evt h hs := .inl ⟨evt, h, rfl, hs⟩

theorem mono (h : Grown db db' lo mid) (hle : mid ≤ hi) : Grown db db' lo hi where
  le      := h.le.trans hle
  events  := h.events
  stored  := h.stored
  kept    := h.kept
  rows row hm := (h.rows row hm).imp_right fun ⟨h₁, h₂, h₃⟩ => ⟨h₁, h₂.trans_le hle, h₃⟩
  pending := h.pending

theorem trans (h : Grown db₁ db₂ lo mid) (h' : Grown db₂ db₃ mid hi) : Grown db₁ db₃ lo hi where
  le     := h.le.trans h'.le
  events id evt he := by
    obtain ⟨evt', he', e⟩ := h.events id evt he
    obtain ⟨evt'', he'', e'⟩ := h'.events id evt' he'
    exact ⟨evt'', he'', by rw [e', e]⟩
  stored hs  := h'.stored (h.stored hs)
  kept row hm := h'.kept row (h.kept row hm)
  rows row hm := by
    obtain hm | ⟨hlo, hhi, hn, hc⟩ := h'.rows row hm
    · refine (h.rows row hm).imp_right fun hnew => ?_
      obtain ⟨hlo, hhi, hn, hc⟩ := hnew
      exact ⟨hlo, hhi.trans_le h'.le, hn, hc.grown h'⟩
    · exact .inr ⟨h.le.trans hlo, hhi, hn, hc⟩
  pending evt hm hs := by
    obtain ⟨evt', hm', hid, hs'⟩ | ⟨row, hr, hid, hlo⟩ := h'.pending evt hm hs
    · obtain ⟨evt'', hm'', hid', hs''⟩ | ⟨row, hr, hid', hlo⟩ := h.pending evt' hm' hs'
      · exact .inl ⟨evt'', hm'', hid'.trans hid, hs''⟩
      · exact .inr ⟨row, h'.kept row hr, hid'.trans hid, hlo⟩
    · exact .inr ⟨row, hr, hid, h.le.trans hlo⟩

theorem below (h : Grown db db' lo hi) (hb : ∀ row ∈ db.eventOutbox, row.id < lo) :
    ∀ row ∈ db'.eventOutbox, row.id < hi := by
  intro row hm
  obtain hm | ⟨-, hlt, -⟩ := h.rows row hm
  · exact (hb row hm).trans_le h.le
  · exact hlt

-- A transaction that writes no event and no row of the outbox.
theorem of_eq (he : db'.events = db.events) (ho : db'.eventOutbox = db.eventOutbox) (lo : Nat) :
    Grown db db' lo lo where
  le               := le_refl _
  events _ evt h   := ⟨evt, he ▸ h, rfl⟩
  stored h         := he ▸ h
  kept _ h         := ho ▸ h
  rows _ h         := .inl (ho ▸ h)
  pending evt h hs := .inl ⟨evt, he ▸ h, rfl, hs⟩

section

variable {body : EventIn} {now : Timestamp}

omit [Runtime] in
theorem mem_enqueueOutbox (db : Db R) (hb : ∀ row ∈ db.eventOutbox, row.id < lo) {eventId : String}
    {payload : Json.Object} {row : EventOutbox} :
    row ∈ (enqueueOutbox db eventId payload lo now).eventOutbox ↔
      row ∈ db.eventOutbox ∨ row = ⟨lo, eventId, payload, now, none, none⟩ :=
  Table.mem_insert <| Table.get_eq_none_iff.mpr fun row hm => (hb row hm).ne

theorem accept (ha : db.events.get body.eventId = none) (hl : body.Lossless)
    (hb : ∀ row ∈ db.eventOutbox, row.id < lo) :
    Grown db (acceptEvent db body body.modelDump lo now) lo (lo + 1) := by
  have hrow : body.row.toEventIn = some body := EventIn.validate_self body
  have hget := fun id => acceptEvent_events_get db ha body.modelDump lo now id
  have hmem {row : EventOutbox} : row ∈ (acceptEvent db body body.modelDump lo now).eventOutbox ↔
      row ∈ db.eventOutbox ∨ row = ⟨lo, body.eventId, body.modelDump, now, none, none⟩ :=
    mem_enqueueOutbox { db with events := db.events.insert body.row } hb
  constructor
  case le   => exact Nat.le_succ _
  case kept => exact fun row hm => hmem.mpr (.inl hm)
  case events =>
    intro id evt he
    refine ⟨evt, ?_, rfl⟩
    rw [hget, if_neg, he]
    rintro rfl
    rw [ha] at he
    cases he
  case stored =>
    intro hs evt hm
    obtain hm | rfl := Table.of_mem_insert hm
    · exact hs evt hm
    · exact ⟨body, hrow, hl⟩
  case rows =>
    intro row hm
    obtain hm | rfl := hmem.mp hm
    · exact .inl hm
    · refine .inr ⟨le_refl _, Nat.lt_succ_self _, rfl, body, EventIn.modelValidate_modelDump hl, rfl,
        body.row, ?_, hrow⟩
      rw [hget, if_pos rfl]
  case pending =>
    intro evt hm hs
    obtain hm | rfl := Table.of_mem_insert hm
    · exact .inl ⟨evt, hm, rfl, hs⟩
    · exact .inr ⟨_, hmem.mpr (.inr rfl), rfl, le_refl _⟩

theorem requeue {row : DLQEvent} {evt : Event} (he : db.events.get evt.eventId = some evt)
    (hbody : evt.toEventIn = some body) (hb : ∀ row ∈ db.eventOutbox, row.id < lo)
    (hs : ∀ evt ∈ db.events, evt.Storable) :
    Grown db (requeue db row evt body lo now) lo (lo + 1) := by
  have hget := fun id => requeue_events_get db row evt body lo now id
  have hl : body.Lossless := by
    obtain ⟨body', hbody', hl⟩ := hs evt (Table.mem_of_get he)
    rw [hbody, Option.some.injEq] at hbody'
    exact hbody' ▸ hl
  have hfrom {evt' : Event} (hm : evt' ∈ (MarTech.requeue db row evt body lo now).events) :
      evt' ∈ db.events ∨ evt' = { evt with status := .pending, processedAt := none } := by
    rw [Table.mem_iff_get, hget] at hm
    split at hm
    case isFalse => exact .inl (Table.mem_of_get hm)
    case isTrue h =>
      rw [← h, he, Option.map_some, Option.some.injEq] at hm
      exact .inr hm.symm
  have hmem {row' : EventOutbox} : row' ∈ (MarTech.requeue db row evt body lo now).eventOutbox ↔
      row' ∈ db.eventOutbox ∨ row' = ⟨lo, evt.eventId, body.modelDump, now, none, none⟩ :=
    mem_enqueueOutbox { db with events := _, dlqEvents := _ } hb
  constructor
  case le   => exact Nat.le_succ _
  case kept => exact fun row' hm => hmem.mpr (.inl hm)
  case events =>
    intro id evt' he'
    rw [hget]
    split
    case isFalse => exact ⟨evt', he', rfl⟩
    case isTrue  => exact ⟨_, by rw [he', Option.map_some], rfl⟩
  case stored =>
    intro _ evt' hm
    obtain hm | rfl := hfrom hm
    · exact hs evt' hm
    · exact ⟨body, hbody, hl⟩
  case rows =>
    intro row' hm
    obtain hm | rfl := hmem.mp hm
    · exact .inl hm
    · refine .inr ⟨le_refl _, Nat.lt_succ_self _, rfl, body, EventIn.modelValidate_modelDump hl,
        Event.toEventIn_eventId hbody, { evt with status := .pending, processedAt := none }, ?_, hbody⟩
      rw [hget, if_pos rfl, he, Option.map_some]
  case pending =>
    intro evt' hm hp
    obtain hm | rfl := hfrom hm
    · exact .inl ⟨evt', hm, rfl, hp⟩
    · exact .inr ⟨_, hmem.mpr (.inr rfl), rfl, le_refl _⟩

theorem persistOne {fault : Option PersistStatement} {outcome : PersistOutcome}
    (hp : persistOne db body fault lo now = .ok (db', outcome)) (hl : body.Lossless)
    (hb : ∀ row ∈ db.eventOutbox, row.id < lo) :
    Grown db db' lo (lo + if outcome = .accepted then 1 else 0) := by
  have hc : Grown db (ensureCustomer db body.customerId now) lo lo := by
    refine of_eq ?_ ?_ lo <;> rfl
  have hp := persistOne_ok hp
  cases outcome
  case duplicate => exact hp.left ▸ hc
  case accepted =>
    have ha : (ensureCustomer db body.customerId now).events.get body.eventId = none := hp.right
    exact hp.left ▸ hc.trans (accept ha hl hb)

theorem ingestItems {base : Nat} {out : BatchEventOut} {items : List (BatchItem × Nat)}
    (hl : ∀ item ∈ items, item.1.body.Lossless)
    (hb : ∀ row ∈ db.eventOutbox, row.id < base + out.accepted) :
    let state := items.foldl (ingestItem now (base + ·)) (db, out)
    Grown db state.1 (base + out.accepted) (base + state.2.accepted) ∧
      state.2.accepted ≤ out.accepted + items.length := by
  induction items generalizing db out
  case nil => exact ⟨.refl _ _, le_refl _⟩
  case cons item items hi =>
    obtain ⟨hitem, hl⟩ := List.forall_mem_cons.mp hl
    have hstep : Grown db (ingestItem now (base + ·) (db, out) item).1 (base + out.accepted)
          (base + (ingestItem now (base + ·) (db, out) item).2.accepted) ∧
        (ingestItem now (base + ·) (db, out) item).2.accepted ≤ out.accepted + 1 := by
      simp only [ingestItem]
      split
      case h_1 => exact ⟨.refl _ _, Nat.le_succ _⟩
      case h_2 outcome hp =>
        have hgrown := persistOne hp hitem hb
        split
        case isTrue  => exact ⟨.refl _ _, Nat.le_succ _⟩
        case isFalse => cases outcome <;> exact ⟨hgrown, by simp [BatchEventOut.count]⟩
    obtain ⟨hgrown, hle⟩ := hstep
    obtain ⟨hrest, hle'⟩ := hi hl (hgrown.below hb)
    exact ⟨hgrown.trans hrest, hle'.trans (by rw [List.length_cons]; omega)⟩

end

section Exec

variable [Field R] [LinearOrder R] [FloorRing R] [MathExp R] (settings : Settings R)

-- The consumer leaves all but the status of an event alone, and makes no event pending.
theorem consume {settings : Settings R} {l : Label} (e : Effect settings db l db')
    (hl : l.isConsumption) (lo : Nat) : Grown db db' lo lo := by
  have ho := e.eventOutbox_eq hl
  have hfrom : ∀ evt' ∈ db'.events, ∃ evt ∈ db.events, evt'.eventId = evt.eventId ∧
      evt'.toEventIn = evt.toEventIn ∧ (evt'.status = .pending → evt.status = .pending) := by
    intro evt' hm
    rw [Table.mem_iff_get] at hm
    cases e
    case ensureCustomer | acceptEvent | requeue | rewriteOutbox => cases hl
    case' applyEvent => rw [applyEvent_events_get] at hm
    case' deadLetter => rw [deadLetter_events_get] at hm
    all_goals
      split at hm
      case isFalse => exact ⟨evt', Table.mem_of_get hm, rfl, rfl, fun hs => hs⟩
      case isTrue =>
        obtain ⟨evt, he, rfl⟩ := Option.map_eq_some_iff.mp hm
        exact ⟨evt, Table.mem_of_get he, rfl, rfl, fun hs => by cases hs⟩
  constructor
  case le     => exact le_refl _
  case events => exact fun id evt he => e.events_kept he
  case kept   => exact fun row hm => ho ▸ hm
  case rows   => exact fun row hm => .inl (ho ▸ hm)
  case stored =>
    intro hs evt' hm
    obtain ⟨evt, hm, -, hbody, -⟩ := hfrom evt' hm
    obtain ⟨body, hb, hl⟩ := hs evt hm
    exact ⟨body, hbody.trans hb, hl⟩
  case pending =>
    intro evt' hm hp
    obtain ⟨evt, hm, hid, -, hs⟩ := hfrom evt' hm
    exact .inl ⟨evt, hm, hid.symm, hs hp⟩

theorem exec {s : State R} {op : Op} (hsub : op.isSubmission) (hl : ∀ body ∈ op.bodies, body.Lossless)
    (hs : ∀ evt ∈ s.db.events, evt.Storable)
    (hb : ∀ row ∈ s.db.eventOutbox, row.id < s.sequences.eventOutbox) :
    Grown s.db (s.exec settings op).db s.sequences.eventOutbox
      (s.exec settings op).sequences.eventOutbox := by
  have hrefl := Grown.refl s.db s.sequences.eventOutbox
  cases op
  case reconcileOutbox | cleanupOutbox | disturbStream => cases hsub
  case ingestEvent body fault now =>
    simp only [State.exec, State.drawOutbox, ingestEvent]
    split
    case h_1 => exact hrefl.mono (Nat.le_succ _)
    case h_2 outcome hp =>
      split
      case isTrue => exact hrefl.mono (Nat.le_succ _)
      case isFalse =>
        refine (persistOne hp (hl body (List.mem_singleton_self _)) hb).mono ?_
        split <;> omega
  case ingestBatch items commits now =>
    simp only [State.exec, State.drawOutbox, ingestBatch]
    cases commits
    case false => exact hrefl.mono (Nat.le_add_right ..)
    case true =>
      have hitems : ∀ item ∈ items.zipIdx, item.1.body.Lossless := by
        intro item hm
        exact hl _ <| List.mem_map_of_mem (List.fst_mem_of_mem_zipIdx hm)
      have hb : ∀ row ∈ s.db.eventOutbox,
          row.id < s.sequences.eventOutbox + ({} : BatchEventOut).accepted := hb
      obtain ⟨hgrown, hle⟩ := ingestItems hitems hb
      exact hgrown.mono (by simpa using hle)
  case processOneEvent payload now =>
    simp only [State.exec]
    cases h : processOneEvent settings s.db payload now
    case committed =>
      obtain ⟨body, -, e⟩ := processOneEvent_committed h
      exact consume e rfl _
    all_goals exact hrefl
  case failEvent payload error retries now =>
    simp only [State.exec, State.drawDlq]
    cases h : failEvent s.db payload error retries s.sequences.dlqEvents now
    case committed db' _ =>
      have e : Effect settings s.db _ db' := failEvent_committed h
      exact consume e rfl _
    all_goals exact hrefl
  case replayDlq dlqId now =>
    simp only [State.exec, State.drawOutbox]
    cases h : replayDlq s.db dlqId s.sequences.eventOutbox now
    case committed =>
      obtain ⟨row, evt, body, -, -, he, -, hbody, rfl, -⟩ := replayDlq_eq h
      have hid : evt.eventId = row.eventId := Table.key_of_get he
      exact requeue (hid ▸ he) hbody hb hs
    all_goals exact hrefl.mono (Nat.le_succ _)

end Exec
end Grown

section Streams

-- Whoever sent this message sent the payload, and if its entry is still there then so is the payload.
def Stream.Sent (stream : Stream) (messageId : MessageId) (payload : Json.Object) : Prop :=
  messageId < stream.nextId ∧
    ∀ entry ∈ stream.entries, entry.id = messageId → entry.payload = payload

-- What becomes of the stream: entries go, and those that come have new ids.
structure Stream.Follows (stream stream' : Stream) : Prop where
  nextId  : stream.nextId ≤ stream'.nextId
  entries : ∀ entry ∈ stream'.entries, entry ∈ stream.entries ∨ stream.nextId ≤ entry.id

variable {stream stream' : Stream}

omit [Runtime] in
theorem Stream.Sent.follows {messageId : MessageId} {payload : Json.Object}
    (h : stream.Sent messageId payload) (hf : stream.Follows stream') :
    stream'.Sent messageId payload where
  left := h.left.trans_le hf.nextId
  right entry hm hid := by
    obtain hm | hle := hf.entries entry hm
    · exact h.right entry hm hid
    · exact absurd h.left (not_lt.mpr (hid ▸ hle))

omit [Runtime] in
theorem Stream.follows_enqueue (stream : Stream) (customerId : Json) (payload : Json.Object) :
    stream.Follows (stream.enqueue customerId payload).1 where
  nextId := Nat.le_succ _
  entries _ hm := (List.mem_append.mp hm).imp_right fun hm => by
    rw [List.mem_singleton.mp hm]

omit [Runtime] in
theorem Stream.follows_of_subset (hn : stream'.nextId = stream.nextId)
    (he : stream'.entries ⊆ stream.entries) : stream.Follows stream' where
  nextId       := hn.ge
  entries _ hm := .inl (he hm)

end Streams

namespace Reconcile

section Writes

variable {db : Db R} {marks : List (Nat × MessageId × Timestamp)}

omit [Runtime] in
theorem mark_customers : (mark db marks).customers = db.customers := by
  induction marks generalizing db
  case nil         => rfl
  case cons _ _ hi => exact hi

omit [Runtime] in
theorem mem_mark {row : EventOutbox} (h : row ∈ db.eventOutbox) :
    ∃ row' ∈ (mark db marks).eventOutbox, row'.id = row.id ∧ row'.eventId = row.eventId := by
  induction marks generalizing db row
  case nil => exact ⟨row, h, rfl, rfl⟩
  case cons mark marks hi =>
    obtain ⟨id, m, now⟩ := mark
    have hg : db.eventOutbox.get row.id = some row := Table.mem_iff_get.mp h
    have hget := markPublished_get db id m now row.id
    split at hget
    case isFalse => exact hi (Table.mem_of_get (hget.trans hg))
    case isTrue =>
      rw [hg, Option.map_some] at hget
      obtain ⟨row', hm, hid, heq⟩ := hi (Table.mem_of_get hget)
      exact ⟨row', hm, hid, heq⟩

end Writes

-- The rows of the outbox that it is going to delete.
def doomed (r : Reconcile) : List Nat :=
  r.deleted ++ match r.stage with
    | .delete outboxIds => outboxIds
    | _                 => []

-- What a transaction knows of the rows that it has claimed is so.
structure Accurate (s : State R) (r : Reconcile) : Prop where
  rows   : ∀ row ∈ r.stage.rows, row.id < s.sequences.eventOutbox ∧
    (∀ row' ∈ s.db.eventOutbox, row'.id = row.id → row'.payload = row.payload) ∧
    Carries s.db row.eventId row.payload ∧ ∀ m ∈ row.messageId, s.stream.Sent m row.payload
  taken  : ∀ mark ∈ r.taken, mark.1 < s.sequences.eventOutbox ∧
    ∀ row ∈ s.db.eventOutbox, row.id = mark.1 → s.stream.Sent mark.2 row.payload
  doomed : ∀ id ∈ r.doomed, id < s.sequences.eventOutbox

theorem Accurate.start (s : State R) (id : Nat) : (start id).Accurate s where
  rows _ h   := by cases h
  taken _ h  := by cases h
  doomed _ h := by cases h

theorem Accurate.follows {s : State R} {r : Reconcile} (h : r.Accurate s) {stream : Stream}
    (hf : s.stream.Follows stream) : r.Accurate { s with stream } where
  rows row hm := by
    obtain ⟨hid, hp, hc, hs⟩ := h.rows row hm
    exact ⟨hid, hp, hc, fun m hm => (hs m hm).follows hf⟩
  taken mark hm := by
    obtain ⟨hid, hs⟩ := h.taken mark hm
    exact ⟨hid, fun row hr he => (hs row hr he).follows hf⟩
  doomed := h.doomed

theorem Accurate.grown {s s' : State R} {r : Reconcile} (h : r.Accurate s)
    (hg : Grown s.db s'.db s.sequences.eventOutbox s'.sequences.eventOutbox)
    (hs : s'.stream = s.stream) : r.Accurate s' where
  rows row hm := by
    obtain ⟨hid, hp, hc, hsent⟩ := h.rows row hm
    refine ⟨hid.trans_le hg.le, fun row' hr he => ?_, hc.grown hg, hs ▸ hsent⟩
    obtain hr | ⟨hlo, -⟩ := hg.rows row' hr
    · exact hp row' hr he
    · exact absurd hid (not_lt.mpr (he ▸ hlo))
  taken mark hm := by
    obtain ⟨hid, hsent⟩ := h.taken mark hm
    refine ⟨hid.trans_le hg.le, fun row hr he => ?_⟩
    obtain hr | ⟨hlo, -⟩ := hg.rows row hr
    · exact hs ▸ hsent row hr he
    · exact absurd hid (not_lt.mpr (he ▸ hlo))
  doomed id hm := (h.doomed id hm).trans_le hg.le

end Reconcile

-- The tables can be read back, and all that is in the outbox and in the stream says of an event what is
-- stored of it. A pending event has a row of the outbox that nobody is about to delete.
structure Workers.Accurate (s : Workers R) : Prop where
  owned    : s.db.Owned
  stored   : ∀ evt ∈ s.db.events, evt.Storable
  drawn    : ∀ row ∈ s.db.eventOutbox, row.id < s.sequences.eventOutbox
  rows     : ∀ row ∈ s.db.eventOutbox, Carries s.db row.eventId row.payload
  recorded : ∀ row ∈ s.db.eventOutbox, ∀ m ∈ row.messageId, s.stream.Sent m row.payload
  fresh    : ∀ entry ∈ s.stream.entries, entry.id < s.stream.nextId
  entries  : ∀ entry ∈ s.stream.entries, Carries s.db entry.eventId entry.payload
  queued   : ∀ evt ∈ s.db.events, evt.status = .pending → ∃ row ∈ s.db.eventOutbox,
    row.eventId = evt.eventId ∧ ∀ r ∈ s.reconciles, row.id ∉ r.doomed
  holds    : ∀ r ∈ s.reconciles, r.Accurate s.toState

theorem Effects.owned [Field R] [LinearOrder R] [FloorRing R] [MathExp R] {settings : Settings R}
    {db db' : Db R} {ls : List Label} (e : Effects settings db ls db') (h : db.Owned) : db'.Owned := by
  induction e
  case refl         => exact h
  case step e _ hi  => exact hi (e.owned h)

namespace Workers.Accurate

variable {s : Workers R} {r r' : Reconcile}

theorem idle {s : State R} (he : s.db.events = ∅) (ho : s.db.eventOutbox = ∅)
    (hs : s.stream.entries = []) : (Workers.idle s).Accurate where
  owned := Db.owned_of_no_events he
  stored evt hm    := by simp [Workers.idle, he, Table.mem_iff_get] at hm
  drawn row hm     := by simp [Workers.idle, ho, Table.mem_iff_get] at hm
  rows row hm      := by simp [Workers.idle, ho, Table.mem_iff_get] at hm
  recorded row hm  := by simp [Workers.idle, ho, Table.mem_iff_get] at hm
  fresh entry hm   := by simp [Workers.idle, hs] at hm
  entries entry hm := by simp [Workers.idle, hs] at hm
  queued evt hm    := by simp [Workers.idle, he, Table.mem_iff_get] at hm
  holds r hm       := by simp [Workers.idle, Table.mem_iff_get] at hm

-- A transaction that writes neither to the stream nor to the rows that are in the outbox.
theorem grown (h : s.Accurate) {s' : State R}
    (hg : Grown s.db s'.db s.sequences.eventOutbox s'.sequences.eventOutbox)
    (hs : s'.stream = s.stream) (ho : s'.db.Owned) : Accurate { s with toState := s' } where
  owned  := ho
  stored := hg.stored h.stored
  drawn  := hg.below h.drawn
  rows row hm := by
    obtain hm | ⟨-, -, -, hc⟩ := hg.rows row hm
    · exact (h.rows row hm).grown hg
    · exact hc
  recorded row hm m hrec := by
    obtain hm | ⟨-, -, hn, -⟩ := hg.rows row hm
    · exact hs ▸ h.recorded row hm m hrec
    · rw [hn] at hrec
      cases hrec
  fresh            := hs ▸ h.fresh
  entries entry hm := (h.entries entry (hs ▸ hm)).grown hg
  queued evt hm hp := by
    obtain ⟨evt', hm', hid, hp'⟩ | ⟨row, hr, hid, hlo⟩ := hg.pending evt hm hp
    · obtain ⟨row, hr, hid', hsafe⟩ := h.queued evt' hm' hp'
      exact ⟨row, hg.kept row hr, hid'.trans hid, hsafe⟩
    · refine ⟨row, hr, hid, fun r hr' hd => ?_⟩
      exact absurd ((h.holds r hr').doomed row.id hd) (not_lt.mpr hlo)
  holds r hr := (h.holds r hr).grown hg hs

theorem follows (h : s.Accurate) {stream : Stream} (hf : s.stream.Follows stream)
    (hnew : ∀ entry ∈ stream.entries, entry ∈ s.stream.entries ∨
      entry.id < stream.nextId ∧ Carries s.db entry.eventId entry.payload) :
    Accurate { s with stream } where
  owned    := h.owned
  stored   := h.stored
  drawn    := h.drawn
  rows     := h.rows
  recorded row hm m hrec := (h.recorded row hm m hrec).follows hf
  fresh entry hm := by
    obtain hm | ⟨hlt, -⟩ := hnew entry hm
    · exact (h.fresh entry hm).trans_le hf.nextId
    · exact hlt
  entries entry hm := by
    obtain hm | ⟨-, hc⟩ := hnew entry hm
    · exact h.entries entry hm
    · exact hc
  queued   := h.queued
  holds r hr := (h.holds r hr).follows hf

theorem close (h : s.Accurate) (id : Nat) : (s.close id).Accurate where
  owned    := h.owned
  stored   := h.stored
  drawn    := h.drawn
  rows     := h.rows
  recorded := h.recorded
  fresh    := h.fresh
  entries  := h.entries
  queued evt hm hp := by
    obtain ⟨row, hr, hid, hsafe⟩ := h.queued evt hm hp
    exact ⟨row, hr, hid, fun r hr' => hsafe r (Table.mem_delete.mp hr').left⟩
  holds r hr := h.holds r (Table.mem_delete.mp hr).left

theorem resume (h : s.Accurate) (hid : r'.id = r.id) (ha : r'.Accurate s.toState)
    (hd : ∀ id ∈ r'.doomed, id ∈ r.doomed ∨
      ∀ row ∈ s.db.eventOutbox, row.id = id → isPending s.db row.eventId = false)
    (hm : r ∈ s.reconciles) : (s.resume r').Accurate where
  owned    := h.owned
  stored   := h.stored
  drawn    := h.drawn
  rows     := h.rows
  recorded := h.recorded
  fresh    := h.fresh
  entries  := h.entries
  queued evt he hp := by
    obtain ⟨row, hr, heq, hsafe⟩ := h.queued evt he hp
    refine ⟨row, hr, heq, fun o ho hdoom => ?_⟩
    obtain ⟨ho, -⟩ | rfl := of_mem_resume hid ho
    · exact hsafe o ho hdoom
    · obtain hdoom | hdone := hd row.id hdoom
      · exact hsafe r hm hdoom
      · have hpending := hdone row hr rfl
        have hg : s.db.events.get evt.eventId = some evt := Table.mem_iff_get.mp he
        rw [isPending, heq, hg] at hpending
        simp [hp] at hpending
  holds o ho := by
    obtain ⟨ho, -⟩ | rfl := of_mem_resume hid ho
    · exact h.holds o ho
    · exact ha

-- What a transaction has written shows when it commits.
theorem commit (h : s.Accurate) (hm : r ∈ s.reconciles) :
    Accurate { s.close r.id with db := r.write s.db } := by
  have hevents : (r.write s.db).events = s.db.events := Reconcile.mark_events
  have hcustomers : (r.write s.db).customers = s.db.customers := Reconcile.mark_customers
  have hcarries {eventId : String} {payload : Json.Object} (hc : Carries s.db eventId payload) :
      Carries (r.write s.db) eventId payload := by
    obtain ⟨body, hb, hid, evt, he, hbody⟩ := hc
    exact ⟨body, hb, hid, evt, hevents ▸ he, hbody⟩
  -- The rows that are left are what they were, but for the messages that have been recorded.
  have hrow {row' : EventOutbox} (hr : row' ∈ (r.write s.db).eventOutbox) :
      ∃ row ∈ s.db.eventOutbox, Reconcile.Marked r.marks row row' :=
    Reconcile.of_mem_mark (Table.mem_delete.mp hr).left
  have htaken {id : Nat} {m : MessageId}
      (ht : (id, m) ∈ r.marks.map fun mark => (mark.1, mark.2.1)) : (id, m) ∈ r.taken :=
    List.mem_append_left _ ht
  constructor
  case owned  => exact fun evt he => hcustomers ▸ h.owned evt (hevents ▸ he)
  case stored => exact hevents ▸ h.stored
  case fresh  => exact h.fresh
  case drawn =>
    intro row' hr
    obtain ⟨row, hr, hmark⟩ := hrow hr
    exact hmark.id ▸ h.drawn row hr
  case rows =>
    intro row' hr
    obtain ⟨row, hr, hmark⟩ := hrow hr
    rw [hmark.eventId, hmark.payload]
    exact hcarries (h.rows row hr)
  case recorded =>
    intro row' hr m hrec
    obtain ⟨row, hr, hmark⟩ := hrow hr
    rw [hmark.payload]
    obtain ⟨m', ht, e⟩ | ⟨-, e⟩ := hmark.message
    · rw [e, Option.mem_some] at hrec
      exact hrec ▸ ((h.holds r hm).taken _ (htaken ht)).right row hr rfl
    · exact h.recorded row hr m (e ▸ hrec)
  case entries => exact fun entry he => hcarries (h.entries entry he)
  case queued =>
    intro evt he hp
    obtain ⟨row, hr, hid, hsafe⟩ := h.queued evt (hevents ▸ he) hp
    obtain ⟨row', hr', hid', heq⟩ : ∃ row' ∈ (Reconcile.mark s.db r.marks).eventOutbox,
        row'.id = row.id ∧ row'.eventId = row.eventId :=
      Reconcile.mem_mark hr
    have hkept : row'.id ∉ r.deleted := hid' ▸ fun hd => hsafe r hm (List.mem_append_left _ hd)
    refine ⟨row', Table.mem_delete.mpr ⟨hr', by simpa using hkept⟩, heq.trans hid, ?_⟩
    exact fun o ho => hid' ▸ hsafe o (Table.mem_delete.mp ho).left
  case holds =>
    intro o ho
    have hold := h.holds o (Table.mem_delete.mp ho).left
    constructor
    case doomed => exact hold.doomed
    case rows =>
      intro row hrow'
      obtain ⟨hlt, hp, hc, hsent⟩ := hold.rows row hrow'
      refine ⟨hlt, fun row' hr he => ?_, hcarries hc, hsent⟩
      obtain ⟨row₀, hr, hmark⟩ := hrow hr
      rw [hmark.payload]
      exact hp row₀ hr (hmark.id ▸ he)
    case taken =>
      intro mark hm'
      obtain ⟨hlt, hsent⟩ := hold.taken mark hm'
      refine ⟨hlt, fun row' hr he => ?_⟩
      obtain ⟨row₀, hr, hmark⟩ := hrow hr
      rw [hmark.payload]
      exact hsent row₀ hr (hmark.id ▸ he)

theorem start (h : s.Accurate) (id : Nat) :
    Accurate { s with reconciles := s.reconciles.insert (.start id) } where
  owned    := h.owned
  stored   := h.stored
  drawn    := h.drawn
  rows     := h.rows
  recorded := h.recorded
  fresh    := h.fresh
  entries  := h.entries
  queued evt hm hp := by
    obtain ⟨row, hr, hid, hsafe⟩ := h.queued evt hm hp
    refine ⟨row, hr, hid, fun o ho hd => ?_⟩
    obtain ho | rfl := Table.of_mem_insert ho
    · exact hsafe o ho hd
    · cases hd
  holds o ho := by
    obtain ho | rfl := Table.of_mem_insert ho
    · exact h.holds o ho
    · exact .start _ id

section Steps

variable (settings : Settings R) (now : Timestamp)

-- A step that deals with nothing new: it knows of fewer rows, or has put a message on record.
theorem proceed (h : s.Accurate) (hm : r ∈ s.reconciles) (hid : r'.id = r.id)
    (hrows : r'.stage.rows ⊆ r.stage.rows) (htaken : r'.taken ⊆ r.taken)
    (hdoomed : r'.doomed ⊆ r.doomed) : (s.resume r').Accurate := by
  have hr := h.holds r hm
  refine h.resume hid ?_ (fun id hd => .inl (hdoomed hd)) hm
  exact ⟨fun row hrow => hr.rows row (hrows hrow), fun mark ht => hr.taken mark (htaken ht),
    fun id hd => hr.doomed id (hdoomed hd)⟩

-- The message that it has sent or found for a row is the row's.
theorem take (h : s.Accurate) (hm : r ∈ s.reconciles) {row : EventOutbox} {rows : List EventOutbox}
    {m : MessageId} (hrow : row ∈ r.stage.rows) (hrows : rows ⊆ r.stage.rows)
    (hsent : s.stream.Sent m row.payload) (count : Nat) :
    (s.resume { r with stage := .mark row m rows, count }).Accurate := by
  have hr := h.holds r hm
  obtain ⟨hlt, hp, -⟩ := hr.rows row hrow
  have ht : ({ r with stage := .mark row m rows, count } : Reconcile).Accurate s.toState := by
    refine ⟨fun row' hrow' => hr.rows row' (hrows hrow'), fun mark ht => ?_, fun id hd => ?_⟩
    · obtain ht | ht := List.mem_append.mp ht
      · exact hr.taken mark (List.mem_append_left _ ht)
      · rw [List.mem_singleton.mp ht]
        exact ⟨hlt, fun row' hr' he => hp row' hr' he ▸ hsent⟩
    · exact hr.doomed id <| List.mem_append_left _ (by simpa [Reconcile.doomed] using hd)
  refine h.resume (r := r) rfl ht (fun id hd => .inl ?_) hm
  exact List.mem_append_left _ (by simpa [Reconcile.doomed] using hd)

theorem enqueue (h : s.Accurate) (hm : r ∈ s.reconciles) {row : EventOutbox} {rows : List EventOutbox}
    (hs : r.stage = .enqueue row rows) (customerId : Json) :
    let (stream, m) := s.stream.enqueue customerId row.payload
    Accurate { s.resume { r with stage := .mark row m rows, count := r.count + 1 } with stream } := by
  obtain ⟨-, -, hc, -⟩ := (h.holds r hm).rows row (by simp [hs])
  have hid : payloadEventId row.payload = row.eventId := by
    obtain ⟨body, hb, hid, -⟩ := hc
    exact (payloadEventId_of_modelValidate hb).trans hid
  have hstream : Accurate { s with stream := (s.stream.enqueue customerId row.payload).1 } := by
    refine h.follows (s.stream.follows_enqueue customerId row.payload) fun entry he => ?_
    refine (List.mem_append.mp he).imp_right fun he => ?_
    obtain rfl := List.mem_singleton.mp he
    refine ⟨Nat.lt_succ_self _, ?_⟩
    rw [StreamEntry.eventId, hid]
    exact hc
  refine hstream.take hm (by simp [hs]) (by simp [hs]) ⟨Nat.lt_succ_self _, fun entry he heq => ?_⟩ _
  obtain he | he := List.mem_append.mp he
  · exact absurd (h.fresh entry he) (not_lt.mpr heq.ge)
  · rw [List.mem_singleton.mp he]

theorem advance (h : s.Accurate) (hm : r ∈ s.reconciles) : (s.advance settings r now).Accurate := by
  have hr := h.holds r hm
  unfold Workers.advance
  split
  case h_1 hs =>
    refine h.resume (r := r) rfl ⟨fun row hrow => ?_, fun mark ht => ?_, fun id hd => ?_⟩
      (fun id hd => .inl ?_) hm
    · have hmem := (claimUnpublished_subset hrow).left
      refine ⟨h.drawn row hmem, fun row' hr' he => ?_, h.rows row hmem, h.recorded row hmem⟩
      rw [Table.key_injective hr' hmem he]
    · exact hr.taken mark (by simpa [Reconcile.taken, hs] using ht)
    · exact hr.doomed id (by simpa [Reconcile.doomed, hs] using hd)
    · simpa [Reconcile.doomed, hs] using hd
  case h_2 row rows hs =>
    have hrow : row ∈ r.stage.rows := by simp [hs]
    have hrows : rows ⊆ r.stage.rows := by simp [hs]
    have henqueue : (s.resume { r with stage := .enqueue row rows }).Accurate := by
      refine h.proceed hm rfl ?_ ?_ ?_ <;> simp [hs, Reconcile.taken, Reconcile.doomed]
    split
    case h_1 => exact henqueue
    case h_2 m hmsg =>
      split
      case isTrue  => exact h.take hm hrow hrows ((hr.rows row hrow).right.right.right m hmsg) _
      case isFalse => exact henqueue
  case h_3 row rows hs =>
    split
    case h_1 => exact h.close r.id
    case h_2 customerId _ => exact h.enqueue hm hs customerId
  case h_4 row m rows hs =>
    refine h.proceed hm rfl ?_ ?_ ?_ <;> simp [hs, Reconcile.taken, Reconcile.doomed]
  case h_5 hs =>
    have hdoomed : r.doomed = r.deleted := by simp [Reconcile.doomed, hs]
    -- The rows that are chosen have come to their end.
    have hchosen {id : Nat} (hd : id ∈ ((r.write s.db).eventOutbox.rows.filter
        (expired settings (r.write s.db) now)).map (·.id)) :
        ∃ row ∈ s.db.eventOutbox, row.id = id ∧ isPending s.db row.eventId = false := by
      obtain ⟨row', hrow', rfl⟩ := List.mem_map.mp hd
      obtain ⟨hrow', hexp⟩ := List.mem_filter.mp hrow'
      obtain ⟨row, hrow, hmark⟩ := Reconcile.of_mem_mark (Table.mem_delete.mp hrow').left
      refine ⟨row, hrow, hmark.id.symm, ?_⟩
      have hevents : (r.write s.db).events = s.db.events := Reconcile.mark_events
      rw [expired, isTerminal, hevents, hmark.eventId, Bool.and_eq_true] at hexp
      obtain ⟨evt, he, hterminal⟩ := Option.any_eq_true _ _ |>.mp hexp.right
      rw [isPending, he]
      cases hst : evt.status <;> simp_all
    refine h.resume (r := r) rfl ⟨fun row hrow => (by cases hrow), fun mark ht => ?_, fun id hd => ?_⟩
      (fun id hd => ?_) hm
    · exact hr.taken mark (by simpa [Reconcile.taken, hs] using ht)
    · obtain hd | hd := List.mem_append.mp hd
      · exact hr.doomed id (hdoomed ▸ hd)
      · obtain ⟨row, hrow, rfl, -⟩ := hchosen hd
        exact h.drawn row hrow
    · refine (List.mem_append.mp hd).imp (fun hd => hdoomed ▸ hd) fun hd row' hrow' he => ?_
      obtain ⟨row, hrow, hid, hpending⟩ := hchosen hd
      rwa [Table.key_injective hrow' hrow (he.trans hid.symm)]
  case h_6 id ids hs =>
    split
    case isTrue => exact h
    case isFalse =>
      refine h.proceed hm rfl ?_ ?_ ?_
      · simp [hs]
      · simp [hs, Reconcile.taken]
      · simp [hs, Reconcile.doomed]
  case h_7 hs => exact h.commit hm

end Steps

section Runs

variable [Field R] [LinearOrder R] [FloorRing R] [MathExp R] (settings : Settings R)

theorem transact (h : s.Accurate) {op : Op} (submission : op.isSubmission)
    (hl : ∀ body ∈ op.bodies, body.Lossless) :
    (s.turn settings (.transact op submission)).Accurate := by
  obtain ⟨ls, e, -⟩ := s.toState.exec_effects settings op
  refine h.grown (Grown.exec settings submission hl h.stored h.drawn) ?_ (e.owned h.owned)
  cases op
  case reconcileOutbox | cleanupOutbox | disturbStream => cases submission
  all_goals rfl

theorem happen (h : s.Accurate) {happening : Happening}
    (hl : ∀ body ∈ happening.bodies, body.Lossless) : (s.happen settings happening).Accurate := by
  cases happening
  case lose =>
    refine h.follows (Stream.follows_of_subset rfl (List.nil_subset _)) fun entry hm => ?_
    cases hm
  case turn turn =>
    cases turn
    case transact op submission => exact h.transact settings submission hl
    case abort id               => exact h.close id
    case start id               => exact h.start id
    case advance id now =>
      simp only [Workers.happen, turn]
      cases hr : s.reconciles.get id
      case none   => exact h
      case some r => exact h.advance settings now (Table.mem_of_get hr)
    case ack messageId =>
      have hsub : (s.stream.ack messageId).entries ⊆ s.stream.entries := List.filter_subset_self _
      exact h.follows (Stream.follows_of_subset rfl hsub) fun entry hm => .inl (hsub hm)

theorem history (h : s.Accurate) {happenings : List Happening}
    (hl : ∀ happening ∈ happenings, ∀ body ∈ happening.bodies, body.Lossless) :
    (s.history settings happenings).Accurate := by
  induction happenings generalizing s
  case nil => exact h
  case cons happening _ hi =>
    obtain ⟨hhead, hl⟩ := List.forall_mem_cons.mp hl
    exact hi (h.happen settings hhead) hl

end Runs

end Workers.Accurate

section Processing

variable [Field R] [LinearOrder R] [FloorRing R] [MathExp R] {settings : Settings R}

theorem processOneEvent_not_raised {db : Db R} (ho : db.Owned) {eventId : String}
    {payload : Json.Object} (hc : Carries db eventId payload) (now : Timestamp) (error : Error) :
    processOneEvent settings db payload now ≠ .raised error := by
  obtain ⟨body, hb, rfl, evt, he, -⟩ := hc
  obtain ⟨customer, hcust⟩ := Option.isSome_iff_exists.mp (ho evt (Table.mem_of_get he))
  simp only [processOneEvent, hb, he, hcust]
  split <;> rintro ⟨⟩

namespace Workers

variable {s : Workers R}

omit [Runtime] [Field R] [LinearOrder R] [FloorRing R] [MathExp R] in
theorem advance_events (r : Reconcile) (now : Timestamp) :
    (s.advance settings r now).db.events = s.db.events := by
  unfold advance
  split
  case h_7 => exact Reconcile.mark_events
  case h_1 | h_4 | h_5 => rfl
  case h_2 =>
    split
    case h_1 => rfl
    case h_2 => split <;> rfl
  case h_3 => split <;> rfl
  case h_6 => split <;> rfl

variable (settings) in
theorem happen_events (happening : Happening) {id : String} {evt : Event}
    (h : s.db.events.get id = some evt) : ∃ evt', (s.happen settings happening).db.events.get id =
      some evt' ∧ evt' = { evt with status := evt'.status, processedAt := evt'.processedAt } := by
  cases happening
  case lose => exact ⟨evt, h, rfl⟩
  case turn turn =>
    cases turn
    case transact op _ =>
      obtain ⟨ls, e, -⟩ := s.toState.exec_effects settings op
      exact e.events_kept h
    case advance id now =>
      simp only [happen, turn]
      cases hr : s.reconciles.get id
      case none   => exact ⟨evt, h, rfl⟩
      case some r => exact ⟨evt, (advance_events r now).symm ▸ h, rfl⟩
    all_goals exact ⟨evt, h, rfl⟩

theorem history_carries (happenings : List Happening) {eventId : String} {payload : Json.Object}
    (h : Carries s.db eventId payload) :
    Carries (s.history settings happenings).db eventId payload := by
  induction happenings generalizing s
  case nil => exact h
  case cons happening _ hi =>
    refine hi ?_
    obtain ⟨body, hb, hid, evt, he, hbody⟩ := h
    obtain ⟨evt', he', e⟩ := happen_events settings happening he
    exact ⟨body, hb, hid, evt', he', by rw [e]; exact hbody⟩

end Workers

-- A message of the stream says of its event what was submitted, and whenever it is processed,
-- processing does not raise: what the system publishes is no poison.
theorem published_processable (settings : Settings R) {s : State R} (he : s.db.events = ∅)
    (ho : s.db.eventOutbox = ∅) (hs : s.stream.entries = []) (before after : List Workers.Happening)
    (hl : ∀ happening ∈ before ++ after, ∀ body ∈ happening.bodies, body.Lossless) :
    let w  := (Workers.idle s).history settings before
    let w' := (Workers.idle s).history settings (before ++ after)
    ∀ entry ∈ w.stream.entries, ∃ body, EventIn.modelValidate entry.payload = some body ∧
      (∃ evt, w'.db.events.get body.eventId = some evt ∧ evt.toEventIn = some body) ∧
      ∀ now error, processOneEvent settings w'.db entry.payload now ≠ .raised error := by
  intro w w' entry hm
  have hidle : (Workers.idle s).Accurate := .idle he ho hs
  have hw : w.Accurate := hidle.history settings fun happening hm =>
    hl happening (List.mem_append_left _ hm)
  have hrun : w' = w.history settings after := List.foldl_append
  have hc : Carries w'.db entry.eventId entry.payload :=
    hrun ▸ Workers.history_carries after (hw.entries entry hm)
  have howned : w'.db.Owned := (hidle.history settings hl).owned
  obtain ⟨body, hb, hid, hevt⟩ := hc
  exact ⟨body, hb, hid ▸ hevt, processOneEvent_not_raised howned ⟨body, hb, hid, hevt⟩⟩

end Processing
end Runs

section Example

open EpochDay

-- An event is accepted and published, and before this is on record the worker dies.
def publishedOnce : List Workers.Happening :=
  .ingest unsubscription (6 * Timestamp.second) ::
    .turn (.start 1) :: List.replicate 3 (.turn (.advance 1 (7 * Timestamp.second)))

theorem unsubscription_lossless : unsubscription.Lossless :=
  (by decide : parseDatetime (.str (dumpDatetime (5 * Timestamp.second))) =
    some (5 * Timestamp.second))

theorem publishedOnce_lossless (happening : Workers.Happening)
    (hm : happening ∈ publishedOnce ++ [.lose]) (body : EventIn) (hb : body ∈ happening.bodies) :
    body.Lossless := by
  have hbodies : happening.bodies ⊆ [unsubscription] := by
    simp only [publishedOnce, List.mem_cons, List.cons_append, List.mem_append, List.mem_replicate,
      List.not_mem_nil, or_false] at hm
    obtain rfl | rfl | ⟨-, rfl⟩ | rfl := hm <;>
      simp [Workers.Happening.ingest, Workers.Happening.bodies, Op.bodies]
  exact List.mem_singleton.mp (hbodies hb) ▸ unsubscription_lossless

theorem published_processable_lost :
    let w  := (Workers.idle seeded).history .default publishedOnce
    let w' := (Workers.idle seeded).history .default (publishedOnce ++ [.lose])
    ∀ entry ∈ w.stream.entries, ∃ body, EventIn.modelValidate entry.payload = some body ∧
      (∃ evt, w'.db.events.get body.eventId = some evt ∧ evt.toEventIn = some body) ∧
      ∀ now error, processOneEvent .default w'.db entry.payload now ≠ .raised error :=
  published_processable .default rfl rfl rfl publishedOnce [.lose] publishedOnce_lossless

end Example
end MarTech
