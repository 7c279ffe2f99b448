import MarTech.Pipeline.Run
import MarTech.Pipeline.Theorems.Consent
import MarTech.Library.Latest
import MarTech.Domain.EpochDay
import MarTech.Domain.Real

namespace MarTech

-- The columns of a customer's row after the events in `evts` were processed one after another.
def customerOf (customer : Customer) (evts : List Event) : Customer :=
  evts.foldl (fun row evt => customerAfter evt row row) customer

namespace customerOf

variable {customer : Customer} {evts : List Event}

@[simp]
theorem nil : customerOf customer [] = customer :=
  rfl

theorem append (evts' : List Event) :
    customerOf customer (evts ++ evts') = customerOf (customerOf customer evts) evts' :=
  List.foldl_append

@[simp]
theorem attributes_eq (customer : Customer) (evts : List Event) :
    (customerOf customer evts).attributes = customer.attributes := by
  induction evts generalizing customer
  case nil           => rfl
  case cons evt _ hi => exact (hi _).trans <| customerAfter_attributes evt customer customer

theorem createdAt_eq (customer : Customer) (evts : List Event) :
    (customerOf customer evts).createdAt = customer.createdAt := by
  induction evts generalizing customer
  case nil           => rfl
  case cons evt _ hi => exact (hi _).trans <| customerAfter_createdAt evt customer customer

theorem lastActive_eq (customer : Customer) (evts : List Event) :
    (customerOf customer evts).lastActive =
      latest customer.lastActive (evts.map (·.timestamp)) := by
  induction evts generalizing customer
  case nil           => rfl
  case cons evt _ hi => exact (hi _).trans <| by simp

theorem hasConverted_iff : (customerOf customer evts).hasConverted = true ↔
    customer.hasConverted = true ∨ ∃ evt ∈ evts, evt.eventType = "purchase" := by
  induction evts generalizing customer
  case nil           => simp
  case cons evt _ hi => exact hi.trans <| by simp [or_assoc]

theorem optIn_iff {channel : Channel} : optInColumn channel (customerOf customer evts) = true ↔
    optInColumn channel customer = true ∧
      ∀ evt ∈ evts, evt.optsOut → evt.channel ≠ channel.consent.value := by
  induction evts generalizing customer
  case nil => simp
  case cons evt evts hi =>
    refine hi.trans ?_
    cases h : evt.optsOut <;> simp [optInColumn_customerAfter, and_assoc, h]

end customerOf

-- What the row of a customer says after the customer's events in `evts` have been processed.
structure CustomerView (initial : Customer) (evts : List Event) (row : Customer) : Prop where
  createdAt    : row.createdAt = initial.createdAt
  attributes   : row.attributes = initial.attributes
  lastActive   : ∀ t, row.lastActive = some t ↔
    IsGreatest {t | initial.lastActive = some t ∨ ∃ evt ∈ evts, evt.timestamp = t} t
  hasConverted : row.hasConverted = true ↔
    initial.hasConverted = true ∨ ∃ evt ∈ evts, evt.eventType = "purchase"
  optIn        : ∀ channel ≠ .web, optInColumn channel row = true ↔
    optInColumn channel initial = true ∧ ¬∃ evt ∈ evts,
      evt.eventType ∈ ["unsubscribe", "complaint"] ∧ evt.channel = channel.value

theorem customerOf.view (initial : Customer) (evts : List Event) :
    CustomerView initial evts (customerOf initial evts) where
  createdAt    := createdAt_eq initial evts
  attributes   := attributes_eq initial evts
  lastActive t := by simp [lastActive_eq, latest.eq_some_iff]
  hasConverted := hasConverted_iff
  optIn channel h := by
    rw [optIn_iff, Channel.consent_of_ne_web h]
    refine and_congr_right fun _ => ?_
    have hw : channel.value ≠ "web" := fun e => h <| Channel.value_injective e
    simp only [not_exists, not_and]
    refine forall₂_congr fun evt _ => ⟨fun ho ht hc => ho ?_ hc, fun ho ht hc => ho ?_ hc⟩
    · simpa [Event.optsOut, hc, hw] using ht
    · simpa [Event.optsOut, hc, hw] using ht

section Runs

variable {R : Type}

-- The events of a customer among those that a log names, in the order of the log.
def processedOf (db : Db R) (log : List String) (customerId : String) : List Event :=
  log.filterMap db.events.get |>.filter (·.customerId = customerId)

-- The row that a customer starts with: the one in the tables, or else the one that ingestion
-- creates, at whatever time.
def initialCustomer (db : Db R) (customerId : String) (createdAt : Timestamp) : Customer :=
  (db.customers.get customerId).getD (.new customerId createdAt)

theorem mem_processedOf {db : Db R} {log : List String} {customerId : String} {evt : Event} :
    evt ∈ processedOf db log customerId ↔
      evt ∈ db.events ∧ evt.eventId ∈ log ∧ evt.customerId = customerId := by
  simp only [processedOf, List.mem_filter, List.mem_filterMap, decide_eq_true_eq]
  constructor
  · rintro ⟨⟨id, hl, hg⟩, hc⟩
    have hid : evt.eventId = id := Table.key_of_get hg
    exact ⟨Table.mem_of_get hg, hid ▸ hl, hc⟩
  · rintro ⟨hm, hl, hc⟩
    exact ⟨⟨_, hl, Table.mem_iff_get.mp hm⟩, hc⟩

theorem processedOf_congr {db db' : Db R} {log : List String}
    (h : ∀ id ∈ log, db'.events.get id = db.events.get id) (customerId : String) :
    processedOf db' log customerId = processedOf db log customerId := by
  simp only [processedOf, List.filterMap_congr h]

theorem processedOf_append_singleton (db : Db R) (log : List String) {id : String} {evt : Event}
    (h : db.events.get id = some evt) (customerId : String) :
    processedOf db (log ++ [id]) customerId =
      processedOf db log customerId ++ if evt.customerId = customerId then [evt] else [] := by
  simp [processedOf, h, List.filter_cons]

theorem processedOf_nodup {db : Db R} {log : List String} (h : log.Nodup) (customerId : String) :
    (processedOf db log customerId).Nodup := by
  refine List.Nodup.filter _ <| h.filterMap fun id₁ id₂ evt h₁ h₂ => ?_
  exact (Table.key_of_get (Option.mem_def.mp h₁)).symm.trans <|
    Table.key_of_get (Option.mem_def.mp h₂)

variable [Field R] [LinearOrder R] [FloorRing R] [MathExp R] [Runtime]

-- The engagement row after the events in `evts` were processed one after another.
def engagementOf (settings : Settings R) (evts : List Event) : Option (EngagementScore R) :=
  evts.foldl (fun eng evt => some (engagementAfter settings evt eng)) none

theorem engagementOf.append_singleton (settings : Settings R) (evts : List Event) (evt : Event) :
    engagementOf settings (evts ++ [evt]) =
      some (engagementAfter settings evt (engagementOf settings evts)) := by
  simp [engagementOf]

theorem engagementOf.isSome_iff {settings : Settings R} {evts : List Event} :
    (engagementOf settings evts).isSome ↔ ∃ evt, evt ∈ evts := by
  cases evts using List.reverseRec
  case nil           => simp [engagementOf]
  case append_singleton evts evt => simp [append_singleton]

-- What the derived tables hold, as a function of the log of the events that have been processed
-- since the tables were `db₀`.
structure Materialised (settings : Settings R) (db₀ db : Db R) (log : List String) : Prop where
  nodup      : log.Nodup
  mem_log    : ∀ {id}, id ∈ log ↔ ∃ evt, db.events.get id = some evt ∧ evt.status = .processed
  owned      : db.Owned
  kept       : ∀ id, (db₀.customers.get id).isSome → (db.customers.get id).isSome
  engagement : ∀ id, db.engagementScores.get id = engagementOf settings (processedOf db log id)
  customer   : ∀ {id row}, db.customers.get id = some row →
    row = customerOf (initialCustomer db₀ id row.createdAt) (processedOf db log id)

namespace Materialised

variable {settings : Settings R} {db₀ db db' : Db R} {log : List String} {l : Label}

theorem initial (he : db.events = ∅) (hs : db.engagementScores = ∅) :
    Materialised settings db db [] where
  nodup      := List.nodup_nil
  mem_log    := by simp [he]
  owned      := Db.owned_of_no_events he
  kept _     := id
  engagement := by simp [hs, processedOf, engagementOf]
  customer h := by simp [initialCustomer, h, processedOf]

theorem log_processed (m : Materialised settings db₀ db log) {id : String} (h : id ∈ log) :
    ∃ evt, db.events.get id = some evt ∧ evt.status = .processed :=
  m.mem_log.mp h

-- A customer without a row has no events.
theorem processedOf_eq_nil (m : Materialised settings db₀ db log) {id : String}
    (h : db.customers.get id = none) : processedOf db log id = [] := by
  refine List.eq_nil_iff_forall_not_mem.mpr fun evt hm => ?_
  obtain ⟨hm, _, hc⟩ := mem_processedOf.mp hm
  have := m.owned evt hm
  simp [hc, h] at this

-- A transaction that processes nothing leaves the processed events and all that is derived from
-- them alone.
theorem step_other (m : Materialised settings db₀ db log) (e : Effect settings db l db')
    (hl : l.processedId? = none) : Materialised settings db₀ db' log := by
  have hp : ∀ id, processedOf db' log id = processedOf db log id := by
    intro id
    have : log.filterMap db'.events.get = log.filterMap db.events.get := by
      refine List.filterMap_congr fun id' h => ?_
      obtain ⟨evt, hg, hs⟩ := m.log_processed h
      rw [hg, e.processed_iff hl hs, hg]
    simp [processedOf, this]
  constructor
  case nodup => exact m.nodup
  case mem_log =>
    intro id
    rw [m.mem_log]
    exact exists_congr fun evt => and_congr_left fun hs => (e.processed_iff hl hs).symm
  case owned => exact e.owned m.owned
  case kept  => exact fun id h => e.customers_kept <| m.kept id h
  case engagement =>
    intro id
    rw [e.engagementScores_eq hl, m.engagement, hp]
  case customer =>
    intro id row h
    rw [hp]
    rcases e.customers_get hl id with h' | ⟨hn, now, hs⟩
    · exact m.customer (h' ▸ h)
    · have h₀ : db₀.customers.get id = none := by
        cases h₀ : db₀.customers.get id
        case none => rfl
        case some => simpa [hn] using m.kept id (by simp [h₀])
      rw [hs] at h
      cases h
      simp [m.processedOf_eq_nil hn, initialCustomer, h₀, Customer.new]

-- Processing extends the log by an event that is not in it, and the derived rows by its turn.
theorem step_processed (m : Materialised settings db₀ db log) {eventId : String}
    (e : Effect settings db (.processed eventId) db') :
    Materialised settings db₀ db' (log ++ [eventId]) := by
  have ho := e.owned m.owned
  have hk := fun id h => e.customers_kept <| m.kept id h
  cases e
  case applyEvent evt customer now he hs hc =>
    have hn : evt.eventId ∉ log := by
      intro h
      obtain ⟨evt', hg, hs'⟩ := m.log_processed h
      rw [he] at hg
      cases hg
      simp [hs] at hs'
    let evt' : Event := { evt with status := .processed, processedAt := some now }
    have hg : ∀ id, (applyEvent settings db evt customer
        (db.engagementScores.get evt.customerId) now).events.get id =
          if evt.eventId = id then some evt' else db.events.get id := by
      intro id
      rw [applyEvent_events_get]
      split
      case isTrue h => rw [← h, he]; rfl
      case isFalse  => rfl
    have hp : ∀ id, processedOf (applyEvent settings db evt customer
        (db.engagementScores.get evt.customerId) now) (log ++ [evt.eventId]) id =
          processedOf db log id ++ if evt.customerId = id then [evt'] else [] := by
      intro id
      have he' := (hg evt.eventId).trans (if_pos rfl)
      rw [processedOf_append_singleton _ _ he']
      congr 1
      refine processedOf_congr (fun id' h => ?_) id
      rw [hg, if_neg]
      rintro rfl
      exact hn h
    refine ⟨?_, ?_, ho, hk, ?_, ?_⟩
    · simpa [List.nodup_append] using ⟨m.nodup, fun _ h e => hn (e ▸ h)⟩
    · intro id
      rw [List.mem_append, List.mem_singleton, m.mem_log, hg]
      split
      case isTrue h  => simp [← h, evt']
      case isFalse h => simp [Ne.symm h]
    · intro id
      rw [hp, applyEvent_engagementScores_get]
      split
      case isTrue h =>
        rw [engagementOf.append_singleton, ← m.engagement, ← h]
        rfl
      case isFalse => rw [List.append_nil, m.engagement]
    · intro id row h
      rw [applyEvent_customers_get] at h
      rw [hp]
      split at h
      case isTrue hid =>
        rw [← hid, hc] at h
        cases h
        have hrow := m.customer (hid ▸ hc)
        rw [if_pos hid, customerAfter_createdAt, customerOf.append, ← hrow]
        rfl
      case isFalse hid => rw [if_neg hid, List.append_nil, ← m.customer h]

theorem effects {ls : List Label} (m : Materialised settings db₀ db log)
    (e : Effects settings db ls db') :
    Materialised settings db₀ db' (log ++ ls.filterMap Label.processedId?) := by
  induction e generalizing log
  case refl => simpa using m
  case step l ls e _ hi =>
    cases hl : l.processedId?
    case none =>
      simpa [List.filterMap_cons, hl] using hi (m.step_other e hl)
    case some id =>
      cases l <;> simp only [Label.processedId?, reduceCtorEq, Option.some.injEq] at hl
      subst hl
      simpa [Label.processedId?] using hi (m.step_processed e)

-- The invariant of every run.
theorem run (settings : Settings R) {s : State R} (he : s.db.events = ∅) (hs : s.db.engagementScores = ∅)
    (ops : List Op) :
    Materialised settings s.db (s.run settings ops).db (s.processedLog settings ops) := by
  obtain ⟨ls, e, h⟩ := s.run_effects settings ops
  simpa [h] using (initial he hs).effects e

end Materialised

-- The derived tables as seen by one customer, whose processed events are `evts`.
structure View (settings : Settings R) (db₀ db : Db R) (customerId : String)
    (evts : List Event) : Prop where
  once       : evts.Nodup
  processed  : ∀ evt, evt ∈ evts ↔
    evt ∈ db.events ∧ evt.status = .processed ∧ evt.customerId = customerId
  engagement : db.engagementScores.get customerId = engagementOf settings evts
  customer   : ∀ row, db.customers.get customerId = some row →
    CustomerView (initialCustomer db₀ customerId row.createdAt) evts row

theorem Materialised.view {settings : Settings R} {db₀ db : Db R} {log : List String}
    (m : Materialised settings db₀ db log) (customerId : String) :
    View settings db₀ db customerId (processedOf db log customerId) where
  once         := processedOf_nodup m.nodup customerId
  engagement   := m.engagement customerId
  customer row h := by
    have v := customerOf.view (initialCustomer db₀ customerId row.createdAt)
      (processedOf db log customerId)
    rwa [← m.customer h] at v
  processed evt := by
    rw [mem_processedOf, m.mem_log]
    refine and_congr_right fun hm => and_congr_left fun _ => ?_
    have hg : db.events.get evt.eventId = some evt := Table.mem_iff_get.mp hm
    simp [hg]

-- Whatever the stream delivers and however often, each event that reached `processed` has been
-- applied to its customer exactly once, in the order of the commits, as it was persisted.
theorem exactly_once_view (settings : Settings R) (s : State R) (he : s.db.events = ∅)
    (hs : s.db.engagementScores = ∅) (ops : List Op) (customerId : String) :
    let db  := (s.run settings ops).db
    let log := s.processedLog settings ops
    View settings s.db db customerId (processedOf db log customerId) ∧
    ((db.engagementScores.get customerId).isSome ↔
      ∃ evt ∈ db.events, evt.status = .processed ∧ evt.customerId = customerId) := by
  have v := (Materialised.run settings he hs ops).view customerId
  refine ⟨v, ?_⟩
  rw [v.engagement, engagementOf.isSome_iff]
  exact exists_congr v.processed

end Runs

section Example

open EpochDay

-- A seeded customer who has opted in to email and no events.
def seeded : State ℝ where
  db := {
    customers        := (∅ : Table Customer).insert { Customer.new "c1" 0 with emailOptIn := true }
    events           := ∅
    engagementScores := ∅
    dlqEvents        := ∅
    eventOutbox      := ∅ }
  sequences := ⟨1, 1⟩
  stream    := ⟨[], 0⟩

def unsubscription : EventIn where
  eventId    := "e1"
  customerId := "c1"
  channel    := .email
  eventType  := .unsubscribe
  timestamp  := 5 * Timestamp.second
  metadata   := []
  eventId_length    := by decide
  customerId_length := by decide

def deliveredTwice : List Op := [
  .ingestEvent unsubscription none (6 * Timestamp.second),
  .processOneEvent unsubscription.modelDump (8 * Timestamp.second),
  .processOneEvent unsubscription.modelDump (9 * Timestamp.second)
]

theorem exactly_once_view_deliveredTwice :
    let db := (seeded.run .default deliveredTwice).db
    View .default seeded.db db "c1" (processedOf db ["e1"] "c1") ∧
    ((db.engagementScores.get "c1").isSome ↔
      ∃ evt ∈ db.events, evt.status = .processed ∧ evt.customerId = "c1") := by
  have h : seeded.processedLog .default deliveredTwice = ["e1"] := by decide +kernel
  rw [← h]
  exact exactly_once_view .default seeded rfl rfl deliveredTwice "c1"

end Example
end MarTech
