import MarTech.Api.Theorems.Audience
import MarTech.Pipeline.Seed
import MarTech.Pipeline.Theorems.View

namespace MarTech

section Runs

variable {R : Type}

-- Every event has its customer, and no customer has a consent that a processed event withdrew.
structure Withdrawn (db : Db R) : Prop where
  owned  : db.Owned
  optOut : ∀ {evt row channel}, evt ∈ db.events → evt.status = .processed → evt.optsOut →
    evt.channel = channel.consent.value → db.customers.get evt.customerId = some row →
      optInColumn channel row = false

namespace Withdrawn

theorem of_no_events {db : Db R} (h : db.events = ∅) : Withdrawn db where
  owned  := Db.owned_of_no_events h
  optOut := by simp [h, Table.mem_iff_get]

theorem seedCustomers {db : Db R} (w : Withdrawn db) (rows : List Customer) :
    Withdrawn (seedCustomers db rows) := by
  have hg : ∀ evt ∈ db.events, ∃ row, db.customers.get evt.customerId = some row ∧
      (MarTech.seedCustomers db rows).customers.get evt.customerId = some row := by
    intro evt hm
    obtain ⟨row, h⟩ := Option.isSome_iff_exists.mp <| w.owned evt hm
    exact ⟨row, h, seedCustomers_get_of_some h rows⟩
  constructor
  case owned =>
    intro evt hm
    obtain ⟨_, _, h⟩ := hg evt hm
    simp [h]
  case optOut =>
    intro evt row channel hm hs ho hc hr
    obtain ⟨row', h, h'⟩ := hg evt hm
    rw [h'] at hr
    cases hr
    exact w.optOut hm hs ho hc h

end Withdrawn

variable [Field R] [LinearOrder R] [FloorRing R] [MathExp R] [Runtime]
         {settings : Settings R} {db db' : Db R} {l : Label}

-- Consents only ever get fewer.
theorem Effect.optIn_kept (e : Effect settings db l db') {id : String} {row row' : Customer}
    {channel : Channel} (h : db.customers.get id = some row)
    (h' : db'.customers.get id = some row') (ho : optInColumn channel row = false) :
    optInColumn channel row' = false := by
  cases hl : l.processedId?
  case none =>
    obtain he | ⟨hn, -⟩ := e.customers_get hl id
    · rw [he, h] at h'
      exact Option.some.inj h' ▸ ho
    · simp [hn] at h
  case some =>
    cases e <;> simp [Label.processedId?] at hl
    case applyEvent =>
      rw [applyEvent_customers_get] at h'
      split at h'
      case isFalse => exact Option.some.inj (h.symm.trans h') ▸ ho
      case isTrue  =>
        obtain ⟨r, hr, rfl⟩ := Option.map_eq_some_iff.mp h'
        rw [h] at hr
        cases hr
        simp [optInColumn_customerAfter, ho]

namespace Withdrawn

-- What was withdrawn before a transaction is withdrawn after it.
theorem optOut_kept (w : Withdrawn db) (e : Effect settings db l db') {evt : Event}
    {row : Customer} {channel : Channel} (hm : evt ∈ db.events) (hs : evt.status = .processed)
    (ho : evt.optsOut) (hc : evt.channel = channel.consent.value)
    (hr : db'.customers.get evt.customerId = some row) : optInColumn channel row = false :=
  have ⟨_, h⟩ := Option.isSome_iff_exists.mp <| w.owned evt hm
  e.optIn_kept h hr <| w.optOut hm hs ho hc h

theorem effect (w : Withdrawn db) (e : Effect settings db l db') : Withdrawn db' where
  owned := e.owned w.owned
  optOut {evt row channel} hm hs ho hc hr := by
    cases hl : l.processedId?
    case none =>
      have hm := e.processed_iff hl hs |>.mp <| Table.mem_iff_get.mp hm
      exact w.optOut_kept e (Table.mem_of_get hm) hs ho hc hr
    case some =>
      have hg := Table.mem_iff_get.mp hm
      cases he : e <;> simp [Label.processedId?] at hl
      case applyEvent evt' customer now event pending owner =>
        rw [applyEvent_events_get] at hg
        split at hg
        case isFalse => exact w.optOut_kept e (Table.mem_of_get hg) hs ho hc hr
        case isTrue hid =>
          -- The event which has just been processed withdraws the consent itself.
          rw [Event.key_eq] at hid hg
          rw [← hid, event] at hg
          cases hg
          rw [applyEvent_customers_get, if_pos rfl] at hr
          obtain ⟨r, -, rfl⟩ := Option.map_eq_some_iff.mp hr
          have ho : evt'.optsOut := ho
          have hc : evt'.channel = channel.consent.value := hc
          simp [optInColumn_customerAfter, ho, hc]

theorem effects {ls : List Label} (w : Withdrawn db) (e : Effects settings db ls db') :
    Withdrawn db' := by
  induction e
  case refl        => exact w
  case step e _ hi => exact hi (w.effect e)

theorem acts {s : State R} (w : Withdrawn s.db) (actions : List Action) :
    Withdrawn (s.acts settings actions).db := by
  induction actions generalizing s
  case nil => exact w
  case cons action _ hi =>
    refine hi ?_
    rcases s.act_effects settings action with ⟨rows, h⟩ | ⟨_, e⟩
    · exact h ▸ w.seedCustomers rows
    · exact w.effects e

end Withdrawn

theorem Effects.processed_kept {ls : List Label} (e : Effects settings db ls db') {id : String}
    {evt : Event} (h : db.events.get id = some evt) (hp : evt.status = .processed) :
    db'.events.get id = some evt := by
  induction e
  case refl        => exact h
  case step e _ hi => exact hi (e.processed_kept h hp)

theorem State.acts_processed_kept (settings : Settings R) (s : State R) (actions : List Action)
    {id : String} {evt : Event} (h : s.db.events.get id = some evt) (hp : evt.status = .processed) :
    (s.acts settings actions).db.events.get id = some evt := by
  induction actions generalizing s
  case nil => exact h
  case cons action _ hi =>
    refine hi _ ?_
    rcases s.act_effects settings action with ⟨rows, h'⟩ | ⟨_, e⟩
    · exact h' ▸ h
    · exact e.processed_kept h hp

-- Processing an event of the web takes no consent away.
theorem web_withdraws_nothing {payload : Json.Object} {evt : Event} {now : Timestamp}
    (he : db.events.get (payloadEventId payload) = some evt) (hc : evt.channel = "web")
    (h : processOneEvent settings db payload now = .committed db' ()) (channel : Channel)
    (id : String) :
    (db'.customers.get id).map (optInColumn channel) = (db.customers.get id).map (optInColumn channel) := by
  obtain ⟨body, hb, e⟩ := processOneEvent_committed h
  rw [payloadEventId_of_modelValidate hb] at he
  generalize body.eventId = eventId at e he
  cases e
  case applyEvent evt' customer event _ _ =>
    cases event.symm.trans he
    have hne : evt.channel ≠ channel.consent.value := by
      rw [hc]
      cases channel <;> decide
    rw [applyEvent_customers_get]
    split
    case isFalse => rfl
    case isTrue  => simp [Function.comp_def, optInColumn_customerAfter, hne]

-- Requests for the web are governed by the consent to email, which is the one that they read, and
-- which nothing that happens on the web withdraws.
theorem opt_outs_honoured (settings : Settings R)
    (heapq : MinHeap (ScoredCustomer.order (R := R))) (result : AsyncResult (Candidate R))
    (s : State R) (h : s.db.events = ∅) (before after : List Action) (evt : Event)
    (hm : evt ∈ (s.acts settings before).db.events) (hp : evt.status = .processed)
    (ht : evt.eventType ∈ ["unsubscribe", "complaint"]) (body : RecommendRequest R)
    (hc : evt.channel = body.channel.consent.value) (now parsedAt : Timestamp) :
    let later := ((s.acts settings before).acts settings after).db
    (∀ ranked ∈ (recommendAudience settings heapq result later body now parsedAt).customers,
      ranked.customerId ≠ evt.customerId) ∧
    ∀ (db db' : Db R) (payload : Json.Object) (web : Event) (now : Timestamp),
      db.events.get (payloadEventId payload) = some web → web.channel = "web" →
      processOneEvent settings db payload now = .committed db' () → ∀ channel id,
        (db'.customers.get id).map (optInColumn channel) =
          (db.customers.get id).map (optInColumn channel) := by
  intro later
  refine ⟨fun ranked hr he => ?_, fun _ _ _ _ _ => web_withdraws_nothing⟩
  have w : Withdrawn later := Withdrawn.of_no_events h |>.acts before |>.acts after
  have hg := State.acts_processed_kept settings _ after (Table.mem_iff_get.mp hm) hp
  obtain ⟨customer, hcm, hid, hel⟩ := eligible_of_recommended hr
  have hw : evt.channel ≠ "web" := by
    rw [hc]
    cases body.channel <;> decide
  have ho : evt.optsOut := by simp [Event.optsOut, hw, ht]
  have hrow : later.customers.get evt.customerId = some customer :=
    he ▸ hid ▸ Table.mem_iff_get.mp hcm
  have := w.optOut (Table.mem_of_get hg) hp ho hc hrow
  simp [hel.optIn] at this

end Runs

section Example

open EpochDay

-- The customer is ingested nothing but an unsubscription, on the given channel, and it is processed.
def unsubscribed (channel : Channel) : List Action :=
  let body := { unsubscription with channel := channel }
  [.transact (.ingestEvent body none (6 * Timestamp.second)),
   .transact (.processOneEvent body.modelDump (8 * Timestamp.second))]

def preview (channel : Channel) : RecommendRequest ℝ where
  objective := .conversion
  channel   := channel

-- All rows in one batch.
def AsyncResult.whole {α : Type} : AsyncResult α where
  batches rows := [rows]
  perm rows    := by simp

-- The event that the actions process.
theorem unsubscribed_processed (channel : Channel) :
    ∃ evt ∈ (seeded.acts .default (unsubscribed channel)).db.events, evt.status = .processed ∧
      evt.eventType = "unsubscribe" ∧ evt.channel = channel.value ∧ evt.customerId = "c1" := by
  have h : ((seeded.acts .default (unsubscribed channel)).db.events.rows.any fun evt =>
      evt.status = .processed ∧ evt.eventType = "unsubscribe" ∧ evt.channel = channel.value ∧
        evt.customerId = "c1") = true := by
    cases channel <;> decide +kernel
  simpa [Table.mem_rows] using h

theorem opt_outs_honoured_email :
    let db := (seeded.acts .default (unsubscribed .email)).db
    ∀ ranked ∈ (recommendAudience .default (.sorted _) .whole db (preview .email)
        (9 * Timestamp.second) (9 * Timestamp.second)).customers, ranked.customerId ≠ "c1" := by
  obtain ⟨evt, hm, hp, ht, hc, ho⟩ := unsubscribed_processed .email
  exact ho ▸ (opt_outs_honoured .default (.sorted _) .whole seeded rfl (unsubscribed .email) [] evt hm
    hp (by simp [ht]) (preview .email) hc (9 * Timestamp.second) (9 * Timestamp.second)).left

-- An unsubscription from the web leaves the consent that requests for the web read as it was.
theorem web_opt_out_not_honoured :
    ¬∀ (s : State ℝ), s.db.events = ∅ → ∀ (before after : List Action),
      ∀ evt ∈ (s.acts .default before).db.events, evt.status = .processed →
      evt.eventType ∈ ["unsubscribe", "complaint"] →
      ∀ body : RecommendRequest ℝ, evt.channel = body.channel.value → ∀ now parsedAt,
      ∀ ranked ∈ (recommendAudience .default (.sorted _) .whole
        ((s.acts .default before).acts .default after).db body now parsedAt).customers,
      ranked.customerId ≠ evt.customerId := by
  intro h
  obtain ⟨evt, hm, hp, ht, hc, ho⟩ := unsubscribed_processed .web
  have h := h seeded rfl (unsubscribed .web) [] evt hm hp (by simp [ht]) (preview .web) hc
    (9 * Timestamp.second) (9 * Timestamp.second)
  obtain ⟨ranking, hr, -, he⟩ := recommendAudience_eq .default (.sorted _) .whole
    (seeded.acts .default (unsubscribed .web)).db (preview .web) (9 * Timestamp.second)
    (9 * Timestamp.second)
  have hids : ((seeded.acts .default (unsubscribed .web)).db.customers.rows.filter
      (isEligible .default (seeded.acts .default (unsubscribed .web)).db (preview .web)
        (9 * Timestamp.second) (9 * Timestamp.second))).map (·.id) = ["c1"] := by
    decide +kernel
  have hids : ranking.map (·.id) = ["c1"] := List.perm_singleton.mp <| hids ▸ hr.map (·.id)
  obtain ⟨customer, rfl, hid⟩ := List.map_eq_singleton_iff.mp hids
  rw [State.acts_nil, he] at h
  simp [preview, rankedCustomer, customerEntry, hid, ho] at h

end Example
end MarTech
