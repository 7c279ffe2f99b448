import MarTech.Pipeline.Reconcile

namespace MarTech

namespace Stage

-- The claimed rows that have not been dealt with.
def rows : Stage → List EventOutbox
  | claim | delete _               => []
  | contains rows | mark _ _ rows  => rows
  | enqueue row rows               => row :: rows

-- The message that is to be recorded next.
def taken : Stage → List (Nat × MessageId)
  | mark row messageId _ => [(row.id, messageId)]
  | _                    => []

section

variable (row : EventOutbox) (rows : List EventOutbox) (messageId : MessageId) (outboxIds : List Nat)

@[simp] theorem rows_claim : claim.rows = [] := rfl
@[simp] theorem rows_contains : (contains rows).rows = rows := rfl
@[simp] theorem rows_enqueue : (enqueue row rows).rows = row :: rows := rfl
@[simp] theorem rows_mark : (mark row messageId rows).rows = rows := rfl
@[simp] theorem rows_delete : (delete outboxIds).rows = [] := rfl
@[simp] theorem taken_claim : claim.taken = [] := rfl
@[simp] theorem taken_contains : (contains rows).taken = [] := rfl
@[simp] theorem taken_enqueue : (enqueue row rows).taken = [] := rfl
@[simp] theorem taken_mark : (mark row messageId rows).taken = [(row.id, messageId)] := rfl
@[simp] theorem taken_delete : (delete outboxIds).taken = [] := rfl

end
end Stage

namespace Reconcile

-- The messages that the transaction has for the rows that it has dealt with.
def taken (r : Reconcile) : List (Nat × MessageId) :=
  r.marks.map (fun mark => (mark.1, mark.2.1)) ++ r.stage.taken

def claimed (r : Reconcile) : List Nat :=
  r.taken.map (·.1) ++ r.stage.rows.map (·.id)

variable [Runtime] {r r' : Reconcile} {t : Table EventOutbox} {entries : List StreamEntry}

-- What a transaction may rely on as long as it holds its locks.
structure Holds (t : Table EventOutbox) (entries : List StreamEntry) (r : Reconcile) : Prop where
  fresh   : r.stage = .claim → r = .start r.id
  once    : r.claimed.Nodup
  locked  : r.claimed ⊆ r.held
  deletes : r.deleted ⊆ r.held
  present : ∀ id ∈ r.claimed, (t.get id).isSome
  current : ∀ row ∈ r.stage.rows, row ∈ t
  -- As long as it has sent nothing, it has nothing new to record.
  kept    : r.count = 0 → ∀ row ∈ t, ∀ messageId, (row.id, messageId) ∈ r.taken →
    row.messageId = some messageId
  absent  : ∀ row rows, r.stage = .enqueue row rows → ∀ entry ∈ entries, entry.eventId ≠ row.eventId

theorem Holds.start (id : Nat) : (start id).Holds t entries where
  fresh _  := rfl
  once     := .nil
  locked   := nofun
  deletes  := nofun
  present  := nofun
  current  := nofun
  kept     := nofun
  absent   := nofun

-- A row is dealt with by one transaction, once.
theorem Holds.not_taken (h : r.Holds t entries) {row : EventOutbox} (hr : row ∈ r.stage.rows)
    (messageId : MessageId) : (row.id, messageId) ∉ r.taken := by
  intro ht
  have hd := List.disjoint_of_nodup_append h.once
  exact hd (List.mem_map.mpr ⟨_, ht, rfl⟩) (List.mem_map.mpr ⟨row, hr, rfl⟩)

theorem Holds.taken_unique (h : r.Holds t entries) {id : Nat} {m m' : MessageId}
    (hm : (id, m) ∈ r.taken) (hm' : (id, m') ∈ r.taken) : m = m' := by
  have hn := List.Nodup.of_append_left h.once
  exact congrArg Prod.snd (List.inj_on_of_nodup_map hn hm hm' rfl)

theorem Holds.held_of_taken (h : r.Holds t entries) {id : Nat} {messageId : MessageId}
    (hm : (id, messageId) ∈ r.taken) : id ∈ r.held :=
  h.locked <| List.mem_append_left _ <| List.mem_map.mpr ⟨_, hm, rfl⟩

theorem Holds.held_of_row (h : r.Holds t entries) {row : EventOutbox} (hr : row ∈ r.stage.rows) :
    row.id ∈ r.held :=
  h.locked <| List.mem_append_right _ <| List.mem_map.mpr ⟨row, hr, rfl⟩

section Writes

variable {R : Type} {db : Db R} {marks : List (Nat × MessageId × Timestamp)}

omit [Runtime] in
theorem mark_events : (mark db marks).events = db.events := by
  induction marks generalizing db
  case nil          => rfl
  case cons _ _ hi  => exact hi

omit [Runtime] in
theorem mark_get {id : Nat} (h : id ∉ marks.map (·.1)) :
    (mark db marks).eventOutbox.get id = db.eventOutbox.get id := by
  induction marks generalizing db
  case nil             => rfl
  case cons entry _ hi =>
    have hne := List.ne_of_not_mem_cons h
    have hn  := List.not_mem_of_not_mem_cons h
    exact (hi hn).trans <| (markPublished_get ..).trans <| if_neg hne.symm

-- A row keeps what it was, except for the message that is recorded for it.
structure Marked (marks : List (Nat × MessageId × Timestamp)) (row row' : EventOutbox) : Prop where
  id      : row'.id = row.id
  eventId : row'.eventId = row.eventId
  payload : row'.payload = row.payload
  message : (∃ m, (row.id, m) ∈ marks.map (fun mark => (mark.1, mark.2.1)) ∧ row'.messageId = some m) ∨
    row.id ∉ marks.map (·.1) ∧ row'.messageId = row.messageId

omit [Runtime] in
theorem of_mem_mark {row' : EventOutbox} (h : row' ∈ (mark db marks).eventOutbox) :
    ∃ row ∈ db.eventOutbox, Marked marks row row' := by
  induction marks generalizing db
  case nil => exact ⟨row', h, rfl, rfl, rfl, .inr ⟨nofun, rfl⟩⟩
  case cons entry marks hi =>
    obtain ⟨id, m, now⟩ := entry
    obtain ⟨row, hr, hmark⟩ := hi h
    rw [Table.mem_iff_get, EventOutbox.key_eq, markPublished_get] at hr
    have hmessage {row₀ : EventOutbox} (hid : row₀.id = row.id)
        (hmsg : id = row.id ∧ row.messageId = some m ∨ id ≠ row.id ∧ row.messageId = row₀.messageId) :
        (∃ m', (row₀.id, m') ∈ ((id, m, now) :: marks).map (fun mark => (mark.1, mark.2.1)) ∧
          row'.messageId = some m') ∨
        row₀.id ∉ ((id, m, now) :: marks).map (·.1) ∧ row'.messageId = row₀.messageId := by
      rw [hid]
      obtain ⟨m', hm', e⟩ | ⟨hn, e⟩ := hmark.message
      · exact .inl ⟨m', List.mem_cons_of_mem _ hm', e⟩
      · obtain ⟨rfl, hm⟩ | ⟨hne, hm⟩ := hmsg
        · exact .inl ⟨m, List.mem_cons_self, e.trans hm⟩
        · exact .inr ⟨List.not_mem_cons_of_ne_of_not_mem (Ne.symm hne) hn, e.trans hm⟩
    split at hr
    case isFalse hne =>
      exact ⟨row, Table.mem_of_get hr, hmark.id, hmark.eventId, hmark.payload,
        hmessage rfl (.inr ⟨hne, rfl⟩)⟩
    case isTrue e =>
      obtain ⟨row₀, hg, rfl⟩ := Option.map_eq_some_iff.mp hr
      exact ⟨row₀, Table.mem_of_get hg, hmark.id, hmark.eventId, hmark.payload,
        hmessage rfl (.inl ⟨e, rfl⟩)⟩

end Writes

end Reconcile

namespace Workers

variable {R : Type} [Runtime]

-- The message that is on record for a row, as the transaction that has locked the row sees it.
def Records (s : Workers R) (row : EventOutbox) (messageId : MessageId) : Prop :=
  (∃ r ∈ s.reconciles, (row.id, messageId) ∈ r.taken) ∨
    row.messageId = some messageId ∧ ∀ r ∈ s.reconciles, ∀ m, (row.id, m) ∉ r.taken

structure Live (s : Workers R) : Prop where
  single    : ∀ row ∈ s.db.eventOutbox, ∀ row' ∈ s.db.eventOutbox, row.eventId = row'.eventId →
    row = row'
  named     : ∀ row ∈ s.db.eventOutbox, payloadEventId row.payload = row.eventId ∧
    (row.payload.get "customer_id").isSome ∧ (s.db.events.get row.eventId).isSome
  distinct  : (s.stream.entries.map (·.eventId)).Nodup
  known     : ∀ entry ∈ s.stream.entries, (s.db.events.get entry.eventId).isSome
  recorded  : ∀ entry ∈ s.stream.entries, ∀ row ∈ s.db.eventOutbox, row.eventId = entry.eventId →
    s.Records row entry.id
  exclusive : ∀ r₁ ∈ s.reconciles, ∀ r₂ ∈ s.reconciles, r₁.id ≠ r₂.id →
    ∀ id ∈ r₁.held, id ∉ r₂.held
  holds     : ∀ r ∈ s.reconciles, r.Holds s.db.eventOutbox s.stream.entries

variable {s : Workers R} {r r' : Reconcile}

omit [Runtime] in
theorem not_mem_of_not_busy {id outboxId : Nat} (h : ¬s.busy id outboxId) {other : Reconcile}
    (hm : other ∈ s.reconciles) (hid : other.id ≠ id) : outboxId ∉ other.held := by
  intro hl
  exact h <| List.any_eq_true.mpr ⟨other, hm, by simpa using ⟨hid, hl⟩⟩

omit [Runtime] in
theorem mem_resume (hm : r ∈ s.reconciles) (hid : r'.id = r.id) : r' ∈ (s.resume r').reconciles := by
  refine Table.mem_set.mpr (.inr ⟨rfl, ?_⟩)
  rw [Reconcile.key_eq, hid]
  exact Option.isSome_iff_exists.mpr ⟨r, Table.mem_iff_get.mp hm⟩

omit [Runtime] in
theorem of_mem_resume (hid : r'.id = r.id) {other : Reconcile}
    (ho : other ∈ (s.resume r').reconciles) :
    other ∈ s.reconciles ∧ other.id ≠ r.id ∨ other = r' :=
  (Table.mem_set.mp ho).imp (fun ho => ⟨ho.left, hid ▸ ho.right⟩) (·.left)

namespace Live

theorem resume (h : s.Live) (hm : r ∈ s.reconciles) (hid : r'.id = r.id)
    (hheld : ∀ id ∈ r'.held, ∀ other ∈ s.reconciles, other.id ≠ r.id → id ∉ other.held)
    (hholds : r'.Holds s.db.eventOutbox s.stream.entries) (hkept : r.taken ⊆ r'.taken)
    (hnew : ∀ row ∈ s.db.eventOutbox, ∀ m, (row.id, m) ∈ r'.taken → (row.id, m) ∈ r.taken ∨
      ∀ entry ∈ s.stream.entries, row.eventId = entry.eventId → entry.id = m) :
    (s.resume r').Live := by
  have hr' := mem_resume (s := s) hm hid
  have of_mem {other : Reconcile} := @of_mem_resume _ s _ _ hid other
  exact { h with
    recorded := by
      intro entry he row hr hrow
      obtain ⟨o, ho, ht⟩ | ⟨hmsg, hno⟩ := h.recorded entry he row hr hrow
      · by_cases hne : o.id = r.id
        case pos =>
          cases Table.key_injective ho hm hne
          exact .inl ⟨r', hr', hkept ht⟩
        case neg => exact .inl ⟨o, Table.mem_set.mpr (.inl ⟨ho, by simpa [hid] using hne⟩), ht⟩
      · by_cases hex : ∃ m, (row.id, m) ∈ r'.taken
        case pos =>
          obtain ⟨m, ht⟩ := hex
          obtain hr' | he' := hnew row hr m ht
          · exact absurd hr' (hno r hm m)
          · cases he' entry he hrow
            exact .inl ⟨r', ‹_›, ht⟩
        case neg =>
          refine .inr ⟨hmsg, fun o ho m ht => ?_⟩
          cases of_mem ho
          case inl ho => exact hno o ho.left m ht
          case inr e  => exact hex ⟨m, e ▸ ht⟩
    exclusive := by
      intro r₁ h₁ r₂ h₂ hne id hl hl'
      cases of_mem h₁ <;> cases of_mem h₂
      case inl.inl h₁ h₂ => exact h.exclusive r₁ h₁.left r₂ h₂.left hne id hl hl'
      case inl.inr h₁ e  => exact hheld id (e ▸ hl') r₁ h₁.left h₁.right hl
      case inr.inl e h₂  => exact hheld id (e ▸ hl) r₂ h₂.left h₂.right hl'
      case inr.inr e e'  => exact hne (by rw [e, e'])
    holds := by
      intro o ho
      cases of_mem ho
      case inl ho => exact h.holds o ho.left
      case inr e  => exact e ▸ hholds }

-- A transaction that has sent nothing may be given up.
theorem close (h : s.Live) (id : Nat) (hc : ∀ r ∈ s.reconciles.get id, r.count = 0) :
    (s.close id).Live := by
  have of_mem {other : Reconcile} (ho : other ∈ (s.close id).reconciles) :
      other ∈ s.reconciles ∧ other.id ≠ id := by
    simpa using Table.mem_delete.mp ho
  exact { h with
    recorded := by
      intro entry he row hr hrow
      obtain ⟨o, ho, ht⟩ | ⟨hmsg, hno⟩ := h.recorded entry he row hr hrow
      · by_cases hid : o.id = id
        case neg => exact .inl ⟨o, Table.mem_delete.mpr ⟨ho, by simpa using hid⟩, ht⟩
        case pos =>
          have hzero := hc o (Table.get_eq_some_iff.mpr ⟨ho, hid⟩)
          refine .inr ⟨(h.holds o ho).kept hzero row hr _ ht, fun o' ho' m ht' => ?_⟩
          obtain ⟨ho', hne⟩ := of_mem ho'
          exact h.exclusive o' ho' o ho (hid ▸ hne) row.id ((h.holds o' ho').held_of_taken ht')
            ((h.holds o ho).held_of_taken ht)
      · exact .inr ⟨hmsg, fun o ho => hno o (of_mem ho).left⟩
    exclusive := fun r₁ h₁ r₂ h₂ => h.exclusive r₁ (of_mem h₁).left r₂ (of_mem h₂).left
    holds     := fun o ho => h.holds o (of_mem ho).left }

theorem start (h : s.Live) (id : Nat) :
    Live { s with reconciles := s.reconciles.insert (.start id) } where
  single   := h.single
  named    := h.named
  distinct := h.distinct
  known    := h.known
  recorded := by
    intro entry he row hr hrow
    obtain ⟨o, ho, ht⟩ | ⟨hmsg, hno⟩ := h.recorded entry he row hr hrow
    · exact .inl ⟨o, Table.mem_insert_of_mem ho, ht⟩
    · refine .inr ⟨hmsg, fun o ho m ht => ?_⟩
      cases Table.of_mem_insert ho
      case inl ho => exact hno o ho m ht
      case inr e  => cases e; cases ht
  exclusive := by
    intro r₁ h₁ r₂ h₂ hne id hl hl'
    cases Table.of_mem_insert h₁ <;> cases Table.of_mem_insert h₂
    case inl.inl h₁ h₂ => exact h.exclusive r₁ h₁ r₂ h₂ hne id hl hl'
    case inl.inr e     => cases e; cases hl'
    case inr.inl e _   => cases e; cases hl
    case inr.inr e _   => cases e; cases hl
  holds := by
    intro o ho
    cases Table.of_mem_insert ho
    case inl ho => exact h.holds o ho
    case inr e  => cases e; exact .start id

theorem ack (h : s.Live) (messageId : MessageId) :
    Live { s with stream := s.stream.ack messageId } := by
  have of_mem {entry : StreamEntry} (he : entry ∈ (s.stream.ack messageId).entries) :
      entry ∈ s.stream.entries :=
    (List.mem_filter.mp he).left
  exact { h with
    distinct := (List.filter_sublist.map StreamEntry.eventId).nodup h.distinct
    known    := fun entry he => h.known entry (of_mem he)
    recorded := fun entry he => h.recorded entry (of_mem he)
    holds    := fun o ho => { h.holds o ho with
      absent := fun row rows e entry he => (h.holds o ho).absent row rows e entry (of_mem he) } }

-- A message may be sent for an event that has none, if it is about to be recorded for the event's row.
theorem publish (h : s.Live) {entry : StreamEntry} {nextId : MessageId}
    (hn : ∀ other ∈ s.stream.entries, other.eventId ≠ entry.eventId)
    (hk : (s.db.events.get entry.eventId).isSome)
    (hr : ∀ row ∈ s.db.eventOutbox, row.eventId = entry.eventId →
      ∃ r ∈ s.reconciles, (row.id, entry.id) ∈ r.taken)
    (ha : ∀ r ∈ s.reconciles, ∀ row rows, r.stage = .enqueue row rows →
      entry.eventId ≠ row.eventId) :
    Live { s with stream := ⟨s.stream.entries ++ [entry], nextId⟩ } := by
  have of_mem {other : StreamEntry} (he : other ∈ s.stream.entries ++ [entry]) :
      other ∈ s.stream.entries ∨ other = entry := by
    simpa using he
  exact { h with
    distinct := by
      rw [List.map_append, List.nodup_append]
      refine ⟨h.distinct, List.nodup_singleton _, fun id hid id' hid' e => ?_⟩
      obtain ⟨other, ho, rfl⟩ := List.mem_map.mp hid
      cases List.mem_singleton.mp hid'
      exact hn other ho e
    known    := fun other ho => (of_mem ho).elim (h.known other) (· ▸ hk)
    recorded := by
      intro other ho row hrow e
      cases of_mem ho
      case inl ho => exact h.recorded other ho row hrow e
      case inr e' => cases e'; exact .inl (hr row hrow e)
    holds := fun o ho => { h.holds o ho with
      absent := fun row rows e other ho' => (of_mem ho').elim
        ((h.holds o ho).absent row rows e other) (· ▸ ha o ho row rows e) } }

-- What a transaction has written shows when it commits, and the others have not touched those rows.
theorem commit (h : s.Live) (hm : r ∈ s.reconciles) (hs : r.stage = .delete []) :
    Live { s.close r.id with db := r.write s.db } := by
  have hr := h.holds r hm
  have of_mem {other : Reconcile} (ho : other ∈ (s.close r.id).reconciles) :
      other ∈ s.reconciles ∧ other.id ≠ r.id := by
    simpa using Table.mem_delete.mp ho
  have htaken : r.taken = r.marks.map fun mark => (mark.1, mark.2.1) := by
    simp [Reconcile.taken, hs]
  have of_row {row' : EventOutbox} (hm : row' ∈ (r.write s.db).eventOutbox) :
      ∃ row ∈ s.db.eventOutbox, Reconcile.Marked r.marks row row' :=
    Reconcile.of_mem_mark (Table.mem_delete.mp hm).left
  have hevents : (r.write s.db).events = s.db.events := Reconcile.mark_events
  -- The rows that others have locked are as they were.
  have get_of_held {other : Reconcile} (ho : other ∈ (s.close r.id).reconciles) {id : Nat}
      (hid : id ∈ other.held) : (r.write s.db).eventOutbox.get id = s.db.eventOutbox.get id := by
    obtain ⟨ho, hne⟩ := of_mem ho
    have hn : id ∉ r.held := h.exclusive other ho r hm hne id hid
    have hmarks : id ∉ r.marks.map (·.1) := by
      refine fun hid => hn (hr.locked (List.mem_append_left _ ?_))
      simpa [htaken, List.map_map] using hid
    refine (Table.get_delete ..).trans ((congrArg _ (Reconcile.mark_get hmarks)).trans ?_)
    cases hg : s.db.eventOutbox.get id
    case none     => rfl
    case some row =>
      have hid : row.id = id := Table.key_of_get hg
      refine Option.filter_eq_some_iff.mpr ⟨rfl, ?_⟩
      simpa [hid] using fun hd => hn (hr.deletes hd)
  have mem_of_held {other : Reconcile} (ho : other ∈ (s.close r.id).reconciles) {row : EventOutbox}
      (hid : row.id ∈ other.held) : row ∈ (r.write s.db).eventOutbox ↔ row ∈ s.db.eventOutbox := by
    rw [Table.mem_iff_get, Table.mem_iff_get, EventOutbox.key_eq, get_of_held ho hid]
  constructor
  case single =>
    intro row₁ h₁ row₂ h₂ e
    obtain ⟨row, hrow, hmark⟩ := of_row h₁
    obtain ⟨row', hrow', hmark'⟩ := of_row h₂
    have e := h.single row hrow row' hrow' (hmark.eventId.symm.trans (e.trans hmark'.eventId))
    exact Table.key_injective h₁ h₂ (hmark.id.trans (e ▸ hmark'.id.symm))
  case named =>
    intro row' hm'
    obtain ⟨row, hrow, hmark⟩ := of_row hm'
    rw [hmark.payload, hmark.eventId, hevents]
    exact h.named row hrow
  case distinct => exact h.distinct
  case known    => exact hevents ▸ h.known
  case recorded =>
    intro entry he row' hm' e
    obtain ⟨row, hrow, hmark⟩ := of_row hm'
    have hnot {m m'} (ht : (row.id, m) ∈ r.taken) {o : Reconcile} (ho : o ∈ (s.close r.id).reconciles) :
        (row.id, m') ∉ o.taken := by
      intro ht'
      obtain ⟨ho, hne⟩ := of_mem ho
      exact h.exclusive o ho r hm hne row.id ((h.holds o ho).held_of_taken ht') (hr.held_of_taken ht)
    obtain ⟨o, ho, ht⟩ | ⟨hmsg, hno⟩ := h.recorded entry he row hrow (hmark.eventId ▸ e)
    · by_cases hne : o.id = r.id
      case neg =>
        exact .inl ⟨o, Table.mem_delete.mpr ⟨ho, by simpa using hne⟩, hmark.id ▸ ht⟩
      case pos =>
        cases Table.key_injective ho hm hne
        obtain ⟨m, hmem, e⟩ | ⟨hn, _⟩ := hmark.message
        · cases hr.taken_unique (htaken ▸ hmem) ht
          exact .inr ⟨e, fun o ho m => hmark.id ▸ hnot ht ho⟩
        · obtain ⟨mark, hmem, e⟩ := List.mem_map.mp (htaken ▸ ht)
          exact absurd (List.mem_map.mpr ⟨mark, hmem, (Prod.mk.inj e).left⟩) hn
    · obtain ⟨m, hmem, _⟩ | ⟨_, e⟩ := hmark.message
      · exact absurd (htaken ▸ hmem) (hno r hm m)
      · exact .inr ⟨e.trans hmsg, fun o ho m => hmark.id ▸ hno o (of_mem ho).left m⟩
  case exclusive => exact fun r₁ h₁ r₂ h₂ => h.exclusive r₁ (of_mem h₁).left r₂ (of_mem h₂).left
  case holds =>
    intro o ho
    have hholds := h.holds o (of_mem ho).left
    exact { hholds with
      present := fun id hid => get_of_held ho (hholds.locked hid) ▸ hholds.present id hid
      current := fun row hrow =>
        (mem_of_held ho (hholds.held_of_row hrow)).mpr (hholds.current row hrow)
      kept    := fun hc row hrow m ht =>
        hholds.kept hc row ((mem_of_held ho (hholds.held_of_taken ht)).mp hrow) m ht }

-- While a row waits to be dealt with, a message about its event can only be the one that the row names.
theorem message_of_row (h : s.Live) (hm : r ∈ s.reconciles) {row : EventOutbox}
    (hr : row ∈ r.stage.rows) {entry : StreamEntry} (he : entry ∈ s.stream.entries)
    (e : row.eventId = entry.eventId) : row.messageId = some entry.id := by
  have hholds := h.holds r hm
  obtain ⟨o, ho, ht⟩ | ⟨hmsg, _⟩ := h.recorded entry he row (hholds.current row hr) e
  · by_cases hne : o.id = r.id
    case pos =>
      cases Table.key_injective ho hm hne
      exact absurd ht (hholds.not_taken hr _)
    case neg =>
      exact absurd (hholds.held_of_row hr)
        (h.exclusive o ho r hm hne row.id ((h.holds o ho).held_of_taken ht))
  · exact hmsg

-- A step that neither deals with a row nor records a message.
theorem proceed (h : s.Live) (hm : r ∈ s.reconciles) (hid : r'.id = r.id) (hc : r'.count = r.count)
    (ht : r'.taken = r.taken) (hrows : r'.stage.rows = r.stage.rows) (hn : r'.stage ≠ .claim)
    (hl : r.held ⊆ r'.held) (hd : r'.deleted ⊆ r'.held)
    (hheld : ∀ id ∈ r'.held, ∀ other ∈ s.reconciles, other.id ≠ r.id → id ∉ other.held)
    (ha : ∀ row rows, r'.stage = .enqueue row rows →
      ∀ entry ∈ s.stream.entries, entry.eventId ≠ row.eventId) : (s.resume r').Live := by
  have hr := h.holds r hm
  have hclaimed : r'.claimed = r.claimed := by
    rw [Reconcile.claimed, ht, hrows, Reconcile.claimed]
  refine h.resume hm hid hheld ?_ (ht ▸ List.Subset.refl _) fun _ _ _ hm => .inl (ht ▸ hm)
  exact {
    fresh e := absurd e hn
    once    := hclaimed ▸ hr.once
    locked  := hclaimed ▸ List.Subset.trans hr.locked hl
    deletes := hd
    present := hclaimed ▸ hr.present
    current := hrows ▸ hr.current
    kept    := hc ▸ ht ▸ hr.kept
    absent  := ha }

-- A step that deals with a row, which finds the row's message in the stream or a message that is new.
theorem take (h : s.Live) (hm : r ∈ s.reconciles) (hid : r'.id = r.id) {row : EventOutbox}
    {messageId : MessageId} {rows : List EventOutbox} (hs : r.stage.rows = row :: rows)
    (hs' : r'.stage = .mark row messageId rows) (hmarks : r'.marks = r.marks)
    (ht : r.stage.taken = []) (hl : r'.held = r.held) (hd : r'.deleted = r.deleted)
    (hc : r'.count = 0 → r.count = 0 ∧ row.messageId = some messageId)
    (he : ∀ entry ∈ s.stream.entries, row.eventId = entry.eventId → entry.id = messageId) :
    (s.resume r').Live := by
  have hr := h.holds r hm
  have hrow : row ∈ s.db.eventOutbox := hr.current row (hs ▸ List.mem_cons_self)
  have htaken : r'.taken = r.taken ++ [(row.id, messageId)] := by
    simp [Reconcile.taken, hs', hmarks, ht]
  have hclaimed : r'.claimed = r.claimed := by
    simp [Reconcile.claimed, htaken, hs, hs']
  have of_taken {row' : EventOutbox} (hrow' : row' ∈ s.db.eventOutbox) {m : MessageId}
      (hm : (row'.id, m) ∈ r'.taken) : (row'.id, m) ∈ r.taken ∨ row' = row ∧ m = messageId := by
    rw [htaken, List.mem_append, List.mem_singleton, Prod.mk.injEq] at hm
    exact hm.imp_right fun e => ⟨Table.key_injective hrow' hrow e.left, e.right⟩
  refine h.resume hm hid ?_ ?_ (htaken ▸ List.subset_append_left ..) ?_
  · exact fun id hid other ho hne hid' => h.exclusive other ho r hm hne id hid' (hl ▸ hid)
  · exact {
      fresh e := by simp [hs'] at e
      once    := hclaimed ▸ hr.once
      locked  := hclaimed ▸ hl ▸ hr.locked
      deletes := hd ▸ hl ▸ hr.deletes
      present := hclaimed ▸ hr.present
      current := fun row' hrow' => hr.current row' <| by
        rw [hs', Stage.rows_mark] at hrow'
        exact hs ▸ List.mem_cons_of_mem _ hrow'
      kept    := fun hzero row' hrow' m hm => by
        obtain ⟨hzero, hmsg⟩ := hc hzero
        obtain hm | ⟨rfl, rfl⟩ := of_taken hrow' hm
        · exact hr.kept hzero row' hrow' m hm
        · exact hmsg
      absent  := fun row' rows' e => by simp [hs'] at e }
  · intro row' hrow' m hm
    obtain hm | ⟨rfl, rfl⟩ := of_taken hrow' hm
    · exact .inl hm
    · exact .inr he

theorem advance (h : s.Live) (hm : r ∈ s.reconciles) (settings : Settings R) (now : Timestamp) :
    (s.advance settings r now).Live := by
  have hr := h.holds r hm
  have hheld : ∀ id ∈ r.held, ∀ other ∈ s.reconciles, other.id ≠ r.id → id ∉ other.held :=
    fun id hid other ho hne hid' => h.exclusive other ho r hm hne id hid' hid
  cases hs : r.stage <;> simp only [Workers.advance, hs]
  case claim =>
    have hstart := hr.fresh hs
    have hmarks : r.marks = [] := congrArg Reconcile.marks hstart
    have hdel : r.deleted = [] := congrArg Reconcile.deleted hstart
    have hsub {row} := @claimUnpublished_subset R s.db settings.outboxBatchSize now (s.busy r.id) row
    have htaken (rows : List EventOutbox) (held : List Nat) :
        Reconcile.taken { r with stage := .contains rows, held } = [] := by
      simp [Reconcile.taken, hmarks]
    refine h.resume hm rfl ?_ ?_ (by simp [Reconcile.taken, hmarks, hs]) fun _ _ _ ht => ?_
    · intro id hid other ho hne
      obtain ⟨row, hrow, rfl⟩ := List.mem_map.mp hid
      exact not_mem_of_not_busy (hsub hrow).right.right ho hne
    · constructor
      case fresh   => exact nofun
      case once    => simpa [Reconcile.claimed, htaken] using claimUnpublished_nodup ..
      case locked  => simp [Reconcile.claimed, htaken]
      case deletes => simp [hdel]
      case present =>
        intro id hid
        rw [Reconcile.claimed, htaken] at hid
        obtain ⟨row, hrow, rfl⟩ := List.mem_map.mp hid
        exact Option.isSome_iff_exists.mpr ⟨row, Table.mem_iff_get.mp (hsub hrow).left⟩
      case current => exact fun row hrow => (hsub hrow).left
      case kept    => intro _ _ _ _ ht; rw [htaken] at ht; cases ht
      case absent  => exact nofun
    · rw [htaken] at ht
      cases ht
  case contains rows =>
    cases rows
    case nil =>
      exact h.proceed hm rfl rfl (by simp [Reconcile.taken, hs]) (by simp [hs])
        nofun (List.Subset.refl _) hr.deletes hheld nofun
    case cons row rows =>
      have hrow : row ∈ r.stage.rows := hs ▸ List.mem_cons_self
      have hmsg {entry} (he : entry ∈ s.stream.entries) (e : row.eventId = entry.eventId) :=
        h.message_of_row hm hrow he e
      have hmiss (hn : ∀ entry ∈ s.stream.entries, row.messageId ≠ some entry.id) :
          (s.resume { r with stage := .enqueue row rows }).Live := by
        refine h.proceed hm rfl rfl (by simp [Reconcile.taken, hs]) (by simp [hs]) nofun
          (List.Subset.refl _) hr.deletes hheld ?_
        rintro _ _ e entry he hrow
        cases e
        exact hn entry he (hmsg he hrow.symm)
      simp only
      split
      case h_1 hnone => exact hmiss fun entry _ => by simp [hnone]
      case h_2 messageId hsome =>
        split
        case isFalse hc =>
          refine hmiss fun entry he hmsg => hc ?_
          simpa [Stream.contains] using ⟨entry, he, Option.some.inj (hmsg.symm.trans hsome)⟩
        case isTrue =>
          refine h.take hm rfl (hs ▸ rfl) rfl rfl (hs ▸ rfl) rfl rfl (fun hc => ⟨hc, hsome⟩) ?_
          exact fun entry he e => Option.some.inj ((hmsg he e).symm.trans hsome)
  case enqueue row rows =>
    have hrow : row ∈ s.db.eventOutbox := hr.current row (hs ▸ List.mem_cons_self)
    obtain ⟨hid, hc, hevent⟩ := h.named row hrow
    have hno := hr.absent row rows hs
    obtain ⟨customerId, hc⟩ := Option.isSome_iff_exists.mp hc
    simp only [hc, Stream.enqueue]
    have h' : (s.resume { r with
        stage := .mark row s.stream.nextId rows, count := r.count + 1 }).Live := by
      refine h.take hm rfl (hs ▸ rfl) rfl rfl (hs ▸ rfl) rfl rfl nofun fun entry he e => ?_
      exact absurd e.symm (hno entry he)
    have hid : StreamEntry.eventId ⟨s.stream.nextId, customerId, row.payload⟩ = row.eventId := hid
    refine h'.publish (hid ▸ hno) (hid ▸ hevent) ?_ ?_
    · intro row' hrow' e
      cases h.single row' hrow' row hrow (e.trans hid)
      exact ⟨_, mem_resume hm rfl, by simp [Reconcile.taken]⟩
    · intro o ho row' rows' e he
      cases of_mem_resume rfl ho
      case inr e' => cases e'; cases e
      case inl ho =>
        have ho' := h.holds o ho.left
        have hrow' : row' ∈ o.stage.rows := e ▸ List.mem_cons_self
        cases h.single row' (ho'.current row' hrow') row hrow (he.symm.trans hid)
        exact hheld row.id (hr.held_of_row (hs ▸ List.mem_cons_self)) o ho.left ho.right
          (ho'.held_of_row hrow')
  case mark row messageId rows =>
    exact h.proceed hm rfl rfl (by simp [Reconcile.taken, hs]) (by simp [hs])
      nofun (List.Subset.refl _) hr.deletes hheld nofun
  case delete ids =>
    cases ids
    case nil => exact h.commit hm hs
    case cons id ids =>
      simp only
      split
      case isTrue      => exact h
      case isFalse hid =>
        refine h.proceed hm rfl rfl (by simp [Reconcile.taken, hs])
          (by simp [hs]) nofun (List.subset_cons_self ..)
          (List.cons_subset_cons _ hr.deletes) ?_ nofun
        intro id' hid' other ho hne
        obtain rfl | hid' := List.mem_cons.mp hid'
        · exact not_mem_of_not_busy hid ho hne
        · exact hheld id' hid' other ho hne

end Live
end Workers
end MarTech
