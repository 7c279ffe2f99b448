import MarTech.Pipeline.Effect
import MarTech.Pipeline.Transactions

namespace MarTech

variable {R : Type}

namespace Tables

-- The outbox row of the event's latest submission or replay.
def current (s : Tables R) (eventId : String) : Option Nat :=
  s.drawn.lookup eventId

-- Every pending event can be published from the row of its latest submission or replay.
structure Covered (s : Tables R) : Prop where
  taken  : ∀ row ∈ s.db.eventOutbox, s.taken row.id
  queued : ∀ evt ∈ s.db.events, evt.status = .pending →
    ∃ row ∈ s.db.eventOutbox, row.eventId = evt.eventId ∧ s.current evt.eventId = some row.id

-- No pending event needs any of the rows.
structure Clear (s : Tables R) (ids : List Nat) : Prop where
  taken  : ∀ id ∈ ids, s.taken id
  unused : ∀ evt ∈ s.db.events, evt.status = .pending → ∀ id ∈ ids, s.current evt.eventId ≠ some id

theorem Covered.get_of_fresh {s : Tables R} (h : s.Covered) {id : Nat} (hf : s.taken id = false) :
    s.db.eventOutbox.get id = none := by
  refine Table.get_eq_none_iff.mpr fun row hm e => ?_
  have e : row.id = id := e
  have := h.taken row hm
  simp [e, hf] at this

-- What no transaction takes back. In a closed world none creates an event either.
structure Progress (closed : Prop) (s s' : Tables R) : Prop where
  events    : ∀ id, (s.db.events.get id).isSome → (s'.db.events.get id).isSome
  customers : ∀ id, (s.db.customers.get id).isSome → (s'.db.customers.get id).isSome
  letters   : ∀ id row, s.db.dlqEvents.get id = some row →
    ∃ row', s'.db.dlqEvents.get id = some row' ∧ row'.eventId = row.eventId
  covered   : s.Covered → s'.Covered
  clear     : ∀ ids, s.Clear ids → s'.Clear ids
  closed    : closed → ∀ id, s.db.events.get id = none → s'.db.events.get id = none

section Cover

variable {s s' : Tables R}

-- A change that keeps the events covered: the outbox only gains rows, their ids are fresh, and an
-- event which becomes pending is one that they are for.
structure Enqueues (new : List (String × Nat)) (s s' : Tables R) : Prop where
  drawn   : s'.drawn = new ++ s.drawn
  fresh   : ∀ p ∈ new, s.taken p.2 = false
  kept    : ∀ row ∈ s.db.eventOutbox, row ∈ s'.db.eventOutbox
  only    : ∀ row ∈ s'.db.eventOutbox, row ∈ s.db.eventOutbox ∨ ∃ p ∈ new, p.2 = row.id
  rows    : s.Covered → ∀ p ∈ new, ∃ row ∈ s'.db.eventOutbox, row.eventId = p.1 ∧ row.id = p.2
  pending : ∀ evt ∈ s'.db.events, evt.status = .pending →
    evt ∈ s.db.events ∨ ∃ p ∈ new, p.1 = evt.eventId

theorem taken_iff {id : Nat} : s.taken id ↔ ∃ p ∈ s.drawn, p.2 = id := by
  simp [taken]

namespace Enqueues

variable {new : List (String × Nat)}

theorem taken (h : s.Enqueues new s') {id : Nat} (ht : s.taken id) : s'.taken id := by
  obtain ⟨p, hm, hp⟩ := taken_iff.mp ht
  exact taken_iff.mpr ⟨p, by simp [h.drawn, hm], hp⟩

-- The event's current row is a new one if there is a new one for it.
theorem current (h : s.Enqueues new s') (eventId : String) :
    (∃ p ∈ new, p.1 = eventId ∧ s'.current eventId = some p.2) ∨
      (∀ p ∈ new, p.1 ≠ eventId) ∧ s'.current eventId = s.current eventId := by
  simp only [Tables.current, h.drawn, List.lookup_append]
  cases hl : new.lookup eventId
  case none =>
    refine .inr ⟨fun p hm e => ?_, rfl⟩
    have := List.lookup_eq_none_iff.mp hl p hm
    simp [e] at this
  case some id =>
    obtain ⟨l₁, l₂, e, _⟩ := List.lookup_eq_some_iff.mp hl
    exact .inl ⟨(eventId, id), by simp [e], rfl, rfl⟩

theorem covered (h : s.Enqueues new s') (hc : s.Covered) : s'.Covered := by
  constructor
  case taken =>
    intro row hm
    cases h.only row hm
    case inl hm => exact h.taken (hc.taken row hm)
    case inr hp =>
      obtain ⟨p, hm, e⟩ := hp
      exact taken_iff.mpr ⟨p, by simp [h.drawn, hm], e⟩
  case queued =>
    intro evt hm hs
    cases h.current evt.eventId
    case inl hp =>
      obtain ⟨p, hp, e, hcur⟩ := hp
      obtain ⟨row, hr, he, hid⟩ := h.rows hc p hp
      exact ⟨row, hr, he.trans e, hid ▸ hcur⟩
    case inr hp =>
      have hm : evt ∈ s.db.events :=
        (h.pending evt hm hs).resolve_right fun ⟨p, hm, e⟩ => hp.left p hm e
      obtain ⟨row, hr, he, hcur⟩ := hc.queued evt hm hs
      exact ⟨row, h.kept row hr, he, hp.right.trans hcur⟩

theorem clear (h : s.Enqueues new s') {ids : List Nat} (hc : s.Clear ids) : s'.Clear ids := by
  constructor
  case taken => exact fun id hm => h.taken (hc.taken id hm)
  case unused =>
    intro evt hm hs id hid hcur
    cases h.current evt.eventId
    case inl hp =>
      obtain ⟨p, hp, _, e⟩ := hp
      cases e.symm.trans hcur
      exact absurd (hc.taken p.2 hid) (by simp [h.fresh p hp])
    case inr hp =>
      have hm : evt ∈ s.db.events :=
        (h.pending evt hm hs).resolve_right fun ⟨p, hm, e⟩ => hp.left p hm e
      exact hc.unused evt hm hs id hid (hp.right ▸ hcur)

-- Nothing is enqueued where no event becomes pending and the outbox is left alone.
theorem nothing (ho : s'.db.eventOutbox = s.db.eventOutbox) (hd : s'.drawn = s.drawn)
    (he : ∀ evt ∈ s'.db.events, evt.status = .pending → evt ∈ s.db.events) :
    s.Enqueues [] s' where
  drawn           := hd
  fresh           := nofun
  kept _ hm       := ho ▸ hm
  only _ hm       := .inl (ho ▸ hm)
  rows _          := nofun
  pending _ hm hs := .inl (he _ hm hs)

end Enqueues

end Cover
end Tables

-- The customer's lock covers the engagement row, which is read without a lock of its own.
def discipline (closed : Prop) : Discipline (Tables R) Lock where
  Guarded
    | .event id, s, s'     => s'.db.events.get id = s.db.events.get id
    | .customer id, s, s'  => s'.db.customers.get id = s.db.customers.get id ∧
        s'.db.engagementScores.get id = s.db.engagementScores.get id
    | .engagement _, _, _  => True
    | .letter id, s, s'    => s'.db.dlqEvents.get id = s.db.dlqEvents.get id
    | .outbox id, s, s'    => s'.taken id = s.taken id
  Always := Tables.Progress closed

variable {closed : Prop} {held : List Lock} {saved : Point (Tables R) Lock}
         {P P₀ : Tables R → Prop} {spec : Except Error Reply → Tables R → Tables R → Prop}

section Reads

open Transaction Discipline

-- A read that is known to have returned `evt`, as long as that cannot change.
def Tables.Seen (closed : Prop) (eventId : String) (evt : Option Event) (s : Tables R) : Prop :=
  evt.isSome ∨ closed → s.db.events.get eventId = evt

theorem selectEvent_safe {eventId : String} {next : Option Event → Transaction R}
    (hp : (discipline closed).Stable held P)
    (h : ∀ evt held', held' = held ++ (if evt.isSome then [.event eventId] else []) →
      (∃ s, P s ∧ s.db.events.get eventId = evt) →
      (discipline closed).Stable held' (fun s => P s ∧ s.Seen closed eventId evt) →
      (discipline closed).Safe spec (next evt) ⟨held', fun s => s⟩ saved
        (fun s => P s ∧ s.Seen closed eventId evt) P₀) :
    (discipline closed).Safe spec (selectEvent eventId next) ⟨held, fun s => s⟩ saved P P₀ := by
  refine Safe.select fun s hs => ?_
  have hstable : (discipline closed).Stable
      (held ++ if (s.db.events.get eventId).isSome then [.event eventId] else [])
      fun s' => P s' ∧ s'.Seen closed eventId (s.db.events.get eventId) := by
    apply hp.append.and
    intro s₁ s₂ hg ha h₁ hk
    have h₁ := h₁ hk
    cases he : s.db.events.get eventId
    case none =>
      have hk : closed := by simpa [he] using hk
      exact ha.closed hk eventId (h₁.trans he)
    case some e =>
      have := hg (.event eventId) (by simp [he])
      exact this.trans (h₁.trans he)
  exact ⟨_, ⟨hs, fun _ => rfl⟩, hstable, h _ _ rfl ⟨s, hs, rfl⟩ hstable⟩

theorem selectCustomer_safe {customerId : String} {next : Option Customer → Transaction R}
    (hp : (discipline closed).Stable held P) (hn : next none = .rollback (.error noResultFound))
    (h : ∀ customer held', held' = held ++ [.customer customerId] →
      (discipline closed).Stable held'
        (fun s => P s ∧ s.db.customers.get customerId = some customer) →
      (discipline closed).Safe spec (next (some customer)) ⟨held', fun s => s⟩ saved
        (fun s => P s ∧ s.db.customers.get customerId = some customer) P₀) :
    (discipline closed).Safe spec (selectCustomer customerId next) ⟨held, fun s => s⟩ saved P
      P₀ := by
  refine Safe.select fun s hs => ?_
  cases hc : s.db.customers.get customerId
  case none          => exact ⟨_, trivial, .true, by simp [hn, Safe]⟩
  case some customer =>
    simp only [Option.isSome_some, if_true]
    refine ⟨_, ⟨hs, hc⟩, ?hstable, h customer _ rfl ?hstable⟩
    apply hp.append.and
    intro s₁ s₂ hg _ h₁
    have := hg (.customer customerId) (by simp)
    exact this.left.trans h₁

-- The engagement row is read under the customer's lock.
theorem selectEngagement_safe {customerId : String}
    {next : Option (EngagementScore R) → Transaction R} (hp : (discipline closed).Stable held P)
    (hl : .customer customerId ∈ held)
    (h : ∀ eng, (discipline closed).Stable held
        (fun s => P s ∧ s.db.engagementScores.get customerId = eng) →
      (discipline closed).Safe spec (next eng) ⟨held, fun s => s⟩ saved
        (fun s => P s ∧ s.db.engagementScores.get customerId = eng) P₀) :
    (discipline closed).Safe spec (selectEngagement customerId next) ⟨held, fun s => s⟩ saved P
      P₀ := by
  refine Safe.select fun s hs => ?_
  simp only [List.append_nil]
  refine ⟨_, ⟨hs, rfl⟩, ?hstable, h _ ?hstable⟩
  apply hp.and
  intro s₁ s₂ hg _ h₁
  have := hg (.customer customerId) hl
  exact this.right.trans h₁

-- Without a lock only the event that the row is about is certain to stay.
theorem selectLetter_safe {dlqId : Nat} {next : Option DLQEvent → Transaction R}
    (hp : (discipline closed).Stable held P) (hn : next none = .rollback (.error dlqNotFound))
    (h : ∀ row, (discipline closed).Stable held
        (fun s => P s ∧ ∃ row', s.db.dlqEvents.get dlqId = some row' ∧ row'.eventId = row.eventId) →
      (discipline closed).Safe spec (next (some row)) ⟨held, fun s => s⟩ saved
        (fun s => P s ∧ ∃ row', s.db.dlqEvents.get dlqId = some row' ∧ row'.eventId = row.eventId)
        P₀) :
    (discipline closed).Safe spec (selectLetter dlqId next) ⟨held, fun s => s⟩ saved P P₀ := by
  refine Safe.select fun s hs => ?_
  cases hr : s.db.dlqEvents.get dlqId
  case none     => exact ⟨_, trivial, .true, by simp [hn, Safe]⟩
  case some row =>
    simp only [List.append_nil]
    refine ⟨_, ⟨hs, row, hr, rfl⟩, ?hstable, h row ?hstable⟩
    apply hp.and
    rintro s₁ s₂ _ ha ⟨row₁, h₁, e₁⟩
    obtain ⟨row₂, h₂, e₂⟩ := ha.letters dlqId row₁ h₁
    exact ⟨row₂, h₂, e₂.trans e₁⟩

theorem selectLetterForUpdate_safe {dlqId : Nat} {next : Option DLQEvent → Transaction R}
    (hp : (discipline closed).Stable held P) (hn : next none = .rollback (.error noResultFound))
    (h : ∀ row held', held' = held ++ [.letter dlqId] →
      (∃ s, P s ∧ s.db.dlqEvents.get dlqId = some row) →
      (discipline closed).Stable held' (fun s => P s ∧ s.db.dlqEvents.get dlqId = some row) →
      (discipline closed).Safe spec (next (some row)) ⟨held', fun s => s⟩ saved
        (fun s => P s ∧ s.db.dlqEvents.get dlqId = some row) P₀) :
    (discipline closed).Safe spec (selectLetterForUpdate dlqId next) ⟨held, fun s => s⟩ saved P
      P₀ := by
  refine Safe.select fun s hs => ?_
  cases hr : s.db.dlqEvents.get dlqId
  case none     => exact ⟨_, trivial, .true, by simp [hn, Safe]⟩
  case some row =>
    simp only [Option.isSome_some, if_true]
    refine ⟨_, ⟨hs, hr⟩, ?hstable, h row _ rfl ⟨s, hs, hr⟩ ?hstable⟩
    apply hp.append.and
    intro s₁ s₂ hg _ h₁
    have := hg (.letter dlqId) (by simp)
    exact this.trans h₁

end Reads

section Inserts

open Transaction Discipline

theorem insertLetter_safe {eventId : String} {payload : Json.Object} {reason : String}
    {retryCount id : Nat} {now : Timestamp} {next : Except Error Unit → Transaction R}
    (hp : (discipline closed).Stable held P)
    (hn : next (.error uniqueViolation) = .rollback (.error uniqueViolation))
    (h : ∀ held', held' = held ++ [.letter id] →
      (discipline closed).Stable held' (fun s => P s ∧ s.db.dlqEvents.get id = none) →
      (discipline closed).Safe spec (next (.ok ()))
        ⟨held', Tables.modify (moveToDlq · eventId payload reason retryCount id now)⟩ saved
        (fun s => P s ∧ s.db.dlqEvents.get id = none) P₀) :
    (discipline closed).Safe spec (insertLetter eventId payload reason retryCount id now next)
      ⟨held, fun s => s⟩ saved P P₀ := by
  intro s hs
  cases hk : s.db.dlqEvents.get id
  case some => exact ⟨_, trivial, .true, by simp [hk, hn, Safe]⟩
  case none =>
    have hstable : (discipline closed).Stable (held ++ [.letter id])
        fun s => P s ∧ s.db.dlqEvents.get id = none := by
      apply hp.append.and
      intro s₁ s₂ hg _ h₁
      have := hg (.letter id) (by simp)
      exact this.trans h₁
    refine ⟨_, ⟨hs, hk⟩, hstable, ?_⟩
    simp only [hk, Option.isSome_none, Bool.false_eq_true, if_false]
    exact h _ rfl hstable

-- An id that the transaction has not drawn before is drawn by no other one.
theorem insertOutbox_safe {ο : Type} {spec : ο → Tables R → Tables R → Prop} {eventId : String}
    {payload : Json.Object} {id : Nat} {now : Timestamp}
    {next : Except Error Unit → Program (Tables R) Lock ο} {point : Point (Tables R) Lock}
    (hp : (discipline closed).Stable point.held P)
    (hw : ∀ s, s.taken id → (point.write s).taken id)
    (hn : (discipline closed).Safe spec (next (.error uniqueViolation))
      ⟨point.held ++ [.outbox id], Tables.enqueueOutbox eventId payload id now ∘ point.write⟩ saved
      P P₀)
    (h : ∀ held', held' = point.held ++ [.outbox id] →
      (∃ s, P s ∧ (point.write s).taken id = false) →
      (discipline closed).Stable held' (fun s => P s ∧ s.taken id = false) →
      (discipline closed).Safe spec (next (.ok ()))
        ⟨held', Tables.enqueueOutbox eventId payload id now ∘ point.write⟩ saved
        (fun s => P s ∧ s.taken id = false) P₀) :
    (discipline closed).Safe spec (insertOutbox eventId payload id now next) point saved P P₀ := by
  intro s hs
  cases hk : (point.write s).taken id
  case true  => exact ⟨P, hs, hp.append, by simpa [hk] using hn⟩
  case false =>
    have hstable : (discipline closed).Stable (point.held ++ [.outbox id])
        fun s => P s ∧ s.taken id = false := by
      apply hp.append.and
      intro s₁ s₂ hg _ h₁
      have := hg (.outbox id) (by simp)
      exact this.trans h₁
    have hfresh : s.taken id = false := by
      cases h : s.taken id
      case false => rfl
      case true  => exact absurd (hw s h) (by simp [hk])
    refine ⟨_, ⟨hs, hfresh⟩, hstable, ?_⟩
    simp only [hk, Bool.false_eq_true, if_false]
    exact h _ rfl ⟨s, hs, hk⟩ hstable

end Inserts

section Consumer

variable [Field R] [LinearOrder R] [FloorRing R] [MathExp R] [Runtime] {settings : Settings R}
         {s s' : Tables R} {now : Timestamp}

open Discipline Transaction

theorem Tables.Progress.of_effect {l : Label} (e : Effect settings s.db l s'.db)
    (new : List (String × Nat)) (hq : s.Enqueues new s')
    (hn : ∀ id, s.db.events.get id = none → s'.db.events.get id = none) : s.Progress closed s' where
  events id h := by
    obtain ⟨evt, he⟩ := Option.isSome_iff_exists.mp h
    obtain ⟨evt', he', _⟩ := e.events_kept he
    exact Option.isSome_iff_exists.mpr ⟨evt', he'⟩
  customers _ := e.customers_kept
  letters id row h := by
    obtain ⟨row', h', e'⟩ := e.letters_kept h
    exact ⟨row', h', by rw [e']⟩
  covered   := hq.covered
  clear _   := hq.clear
  closed _  := hn

theorem applyEvent_permits {evt : Event} {customer : Customer}
    (hevent : s.db.events.get evt.eventId = some evt) (hs : evt.status = .pending)
    (howner : s.db.customers.get evt.customerId = some customer)
    (he : .event evt.eventId ∈ held) (hc : .customer evt.customerId ∈ held) :
    (discipline closed).Permits held s (s.modify fun db =>
      applyEvent settings db evt customer (s.db.engagementScores.get evt.customerId) now) := by
  have hpending : ∀ evt' ∈ (applyEvent settings s.db evt customer
      (s.db.engagementScores.get evt.customerId) now).events,
      evt'.status = .pending → evt' ∈ s.db.events := by
    intro evt' hm hs'
    rw [Table.mem_iff_get] at hm ⊢
    rw [applyEvent_events_get] at hm
    split at hm
    case isFalse => exact hm
    case isTrue =>
      obtain ⟨_, _, e⟩ := Option.map_eq_some_iff.mp hm
      simp [← e] at hs'
  constructor
  case guarded =>
    intro l hl
    cases l
    case event id =>
      have : evt.eventId ≠ id := fun e => hl (e ▸ he)
      simp [discipline, Tables.modify, applyEvent_events_get, this]
    case customer id =>
      have : evt.customerId ≠ id := fun e => hl (e ▸ hc)
      simp [discipline, Tables.modify, applyEvent_customers_get, applyEvent_engagementScores_get,
        this]
    case engagement => trivial
    case letter     => rfl
    case outbox     => rfl
  case always =>
    refine .of_effect (.applyEvent evt customer now hevent hs howner) [] (.nothing rfl rfl hpending) ?_
    intro id h
    simp only [Tables.modify, applyEvent_events_get, h]
    split <;> rfl

theorem deadLetter_permits (settings : Settings R) (evt : Option Event) {eventId : String}
    {payload : Json.Object} {error : Error} {retries dlqId : Nat}
    (hevt : ∀ e ∈ evt, s.db.events.get eventId = some e ∧ e.status = .pending)
    (he : evt.isSome → .event eventId ∈ held) (hr : .letter dlqId ∈ held) :
    (discipline closed).Permits held s (s.modify fun db =>
      deadLetter db evt eventId payload error retries dlqId now) := by
  have hpending : ∀ evt' ∈ (deadLetter s.db evt eventId payload error retries dlqId now).events,
      evt'.status = .pending → evt' ∈ s.db.events := by
    intro evt' hm hs'
    rw [Table.mem_iff_get] at hm ⊢
    rw [deadLetter_events_get] at hm
    split at hm
    case isFalse => exact hm
    case isTrue =>
      obtain ⟨_, _, e⟩ := Option.map_eq_some_iff.mp hm
      simp [← e] at hs'
  constructor
  case guarded =>
    intro l hl
    cases l
    case event id =>
      have : ¬(evt.isSome ∧ eventId = id) := fun h => hl (h.right ▸ he h.left)
      simp only [discipline, Tables.modify, deadLetter_events_get, if_neg this]
    case customer   => simp [discipline, Tables.modify]
    case engagement => trivial
    case letter id =>
      have : dlqId ≠ id := fun e => hl (e ▸ hr)
      simp [discipline, Tables.modify, moveToDlq, Table.get_insert, this]
    case outbox     => rfl
  case always =>
    have e : Effect settings s.db _ _ :=
      .deadLetter evt eventId payload error retries dlqId now hevt
    refine .of_effect e [] (.nothing (by simp [Tables.modify]) rfl hpending) ?_
    intro id h
    simp only [Tables.modify, deadLetter_events_get, h]
    split <;> rfl

-- The event that goes back to pending takes a new row of the outbox with it.
theorem requeue_permits (settings : Settings R) {row : DLQEvent} {evt : Event} {body : EventIn}
    {outboxId : Nat} (hrow : s.db.dlqEvents.get row.id = some row) (hu : row.replayedAt = none)
    (hsame : row.eventId = evt.eventId) (hevent : s.db.events.get evt.eventId = some evt)
    (hs : evt.status = .failed) (hfresh : s.taken outboxId = false) (he : .event evt.eventId ∈ held)
    (hr : .letter row.id ∈ held) (ho : .outbox outboxId ∈ held) :
    (discipline closed).Permits held s
      ⟨requeue s.db row evt body outboxId now, (evt.eventId, outboxId) :: s.drawn⟩ := by
  constructor
  case guarded =>
    intro l hl
    cases l
    case event id =>
      have : evt.eventId ≠ id := fun e => hl (e ▸ he)
      simp [discipline, requeue_events_get, this]
    case customer   => exact ⟨rfl, rfl⟩
    case engagement => trivial
    case letter id =>
      have : row.id ≠ id := fun e => hl (e ▸ hr)
      simp [discipline, requeue_dlqEvents_get, this]
    case outbox id =>
      have : outboxId ≠ id := fun e => hl (e ▸ ho)
      simp [discipline, Tables.taken, this]
  case always =>
    have e : Effect settings s.db _ _ :=
      .requeue row evt body outboxId now hrow hu hsame hevent hs
    refine .of_effect e [(evt.eventId, outboxId)] ?_ ?_
    case refine_1 =>
      constructor
      case drawn => rfl
      case fresh => simpa using hfresh
      case kept  => exact fun _ hm => Table.mem_insert_of_mem hm
      case only  =>
        intro r hm
        exact (Table.of_mem_insert hm).imp_right fun e => ⟨_, List.mem_singleton_self _, by rw [e]⟩
      case rows =>
        intro hc
        have hnone := hc.get_of_fresh hfresh
        simpa using ⟨_, (Table.mem_insert hnone).mpr (.inr rfl), rfl, rfl⟩
      case pending =>
        intro evt' hm _
        rw [Table.mem_iff_get] at hm ⊢
        rw [requeue_events_get] at hm
        split at hm
        case isTrue e => exact .inr ⟨_, List.mem_singleton_self _, e⟩
        case isFalse  => exact .inl hm
    case refine_2 =>
      intro id h
      simp only [requeue_events_get, h]
      split <;> rfl

end Consumer
end MarTech
