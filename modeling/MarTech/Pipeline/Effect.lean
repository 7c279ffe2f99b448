import MarTech.Pipeline.Ingest
import MarTech.Pipeline.Worker
import MarTech.Pipeline.Replay

namespace MarTech

-- The write sets of the pipeline's transactions, with the keys they were applied to.
inductive Label
  | customerEnsured (customerId : String)
  | accepted (eventId : String) (outboxId : Nat)
  | processed (eventId : String)
  | deadLettered (eventId : String) (durable : Bool) (dlqId : Nat)
  | requeued (eventId : String) (dlqId outboxId : Nat)
  | outboxRewritten

namespace Label

def processedId? : Label → Option String
  | processed id => id
  | _            => none

end Label

variable {R : Type}

-- The foreign key from events to customers.
def Db.Owned (db : Db R) : Prop :=
  ∀ evt ∈ db.events, (db.customers.get evt.customerId).isSome

theorem Db.owned_of_no_events {db : Db R} (h : db.events = ∅) : db.Owned := by
  simp [Owned, h, Table.mem_iff_get]

variable [Field R] [LinearOrder R] [FloorRing R] [MathExp R] [Runtime]

-- Everything that a committed transaction can do to the tables is a sequence of these.
inductive Effect (settings : Settings R) (db : Db R) : Label → Db R → Prop
  | ensureCustomer (customerId now) :
    Effect settings db (.customerEnsured customerId) (ensureCustomer db customerId now)
  | acceptEvent (body : EventIn) (payload outboxId now)
    (absent : db.events.get body.eventId = none)
    (owned : (db.customers.get body.customerId).isSome) :
    Effect settings db (.accepted body.eventId outboxId) (acceptEvent db body payload outboxId now)
  | applyEvent (evt : Event) (customer now)
    (event : db.events.get evt.eventId = some evt)
    (pending : evt.status = .pending)
    (owner : db.customers.get evt.customerId = some customer) :
    Effect settings db (.processed evt.eventId)
      (applyEvent settings db evt customer (db.engagementScores.get evt.customerId) now)
  | deadLetter (evt : Option Event) (eventId payload error retries dlqId now)
    (pending : ∀ e ∈ evt, db.events.get eventId = some e ∧ e.status = .pending) :
    Effect settings db (.deadLettered eventId evt.isSome dlqId)
      (deadLetter db evt eventId payload error retries dlqId now)
  | requeue (row : DLQEvent) (evt : Event) (body outboxId now)
    (letter : db.dlqEvents.get row.id = some row)
    (unreplayed : row.replayedAt = none)
    (same : row.eventId = evt.eventId)
    (event : db.events.get evt.eventId = some evt)
    (failed : evt.status = .failed) :
    Effect settings db (.requeued evt.eventId row.id outboxId)
      (requeue db row evt body outboxId now)
  | rewriteOutbox (outbox : Table EventOutbox) :
    Effect settings db .outboxRewritten { db with eventOutbox := outbox }

namespace Effect

variable {settings : Settings R} {db db' : Db R} {l : Label}

-- Processed rows appear only under the label `processed`, and are never written again.
theorem processed_iff (e : Effect settings db l db') (hl : l.processedId? = none) {id : String}
    {evt : Event} (hp : evt.status = .processed) :
    db'.events.get id = some evt ↔ db.events.get id = some evt := by
  cases e
  case ensureCustomer | rewriteOutbox => rfl
  case applyEvent => simp [Label.processedId?] at hl
  case acceptEvent body _ _ _ absent _ =>
    rw [acceptEvent_events_get _ absent]
    split
    case isFalse  => rfl
    case isTrue h =>
      have : body.row ≠ evt := by rintro rfl; cases hp
      simp [← h, absent, this]
  case deadLetter evt' eventId _ _ _ _ _ pending =>
    rw [deadLetter_events_get]
    split
    case isFalse  => rfl
    case isTrue h =>
      obtain ⟨he, rfl⟩ := h
      obtain ⟨e, rfl⟩ := Option.isSome_iff_exists.mp he
      obtain ⟨hg, hs⟩ := pending e rfl
      simp only [hg, Option.map_some, Option.some.injEq]
      constructor <;> rintro rfl
      · cases hp
      · simp [hs] at hp
  case requeue row evt' _ _ _ _ _ _ event failed =>
    rw [requeue_events_get]
    split
    case isFalse  => rfl
    case isTrue h =>
      subst h
      simp only [event, Option.map_some, Option.some.injEq]
      constructor <;> rintro rfl
      · cases hp
      · simp [failed] at hp

-- Only processing writes `engagement_scores`.
theorem engagementScores_eq (e : Effect settings db l db') (hl : l.processedId? = none) :
    db'.engagementScores = db.engagementScores := by
  cases e
  case applyEvent => simp [Label.processedId?] at hl
  case deadLetter => simp
  all_goals rfl

-- Only processing writes an existing customer, and only ingestion creates one.
theorem customers_get (e : Effect settings db l db') (hl : l.processedId? = none) (id : String) :
    db'.customers.get id = db.customers.get id ∨
      db.customers.get id = none ∧ ∃ now, db'.customers.get id = some (.new id now) := by
  cases e
  case applyEvent => simp [Label.processedId?] at hl
  case ensureCustomer customerId now =>
    rw [ensureCustomer_customers_get]
    cases h : db.customers.get id
    case some => exact .inl rfl
    case none =>
      by_cases e : customerId = id
      case pos => exact .inr ⟨rfl, now, by simp [e]⟩
      case neg => exact .inl (by simp [e])
  case deadLetter => simp
  all_goals exact .inl rfl

-- No transaction deletes an event or rewrites what was ingested.
theorem events_kept (e : Effect settings db l db') {id : String} {evt : Event}
    (h : db.events.get id = some evt) :
    ∃ evt', db'.events.get id = some evt' ∧
      evt' = { evt with status := evt'.status, processedAt := evt'.processedAt } := by
  cases e
  case ensureCustomer | rewriteOutbox => exact ⟨evt, h, rfl⟩
  case acceptEvent body _ _ _ absent _ =>
    refine ⟨evt, ?_, rfl⟩
    rw [acceptEvent_events_get _ absent]
    split
    case isTrue e => simp [← e, absent] at h
    case isFalse  => exact h
  case applyEvent =>
    rw [applyEvent_events_get]
    split <;> simp [h]
  case deadLetter =>
    rw [deadLetter_events_get]
    split <;> simp [h]
  case requeue =>
    rw [requeue_events_get]
    split <;> simp [h]

-- Nor does one delete a dead letter, or rewrite more of it than `replayed_at`.
theorem letters_kept (e : Effect settings db l db') {id : Nat} {row : DLQEvent}
    (h : db.dlqEvents.get id = some row) :
    ∃ row', db'.dlqEvents.get id = some row' ∧
      row' = { row with replayedAt := row'.replayedAt } := by
  cases e
  case deadLetter =>
    rw [deadLetter_dlqEvents]
    exact ⟨row, Table.get_insert_of_some h, rfl⟩
  case requeue =>
    rw [requeue_dlqEvents_get]
    split <;> simp [h]
  all_goals exact ⟨row, h, rfl⟩

-- An event belongs to the customer it was ingested for, who had a row by then.
theorem events_origin (e : Effect settings db l db') {id : String} {evt' : Event}
    (h : db'.events.get id = some evt') :
    (∃ evt, db.events.get id = some evt ∧ evt.customerId = evt'.customerId) ∨
      (db.customers.get evt'.customerId).isSome := by
  cases e
  case ensureCustomer | rewriteOutbox => exact .inl ⟨evt', h, rfl⟩
  case acceptEvent absent owned =>
    rw [acceptEvent_events_get _ absent] at h
    split at h
    case isTrue  => cases h; exact .inr owned
    case isFalse => exact .inl ⟨evt', h, rfl⟩
  all_goals
    first
    | rw [applyEvent_events_get] at h
    | rw [deadLetter_events_get] at h
    | rw [requeue_events_get] at h
    split at h
    case isTrue =>
      obtain ⟨evt, hg, rfl⟩ := Option.map_eq_some_iff.mp h
      exact .inl ⟨evt, hg, rfl⟩
    case isFalse => exact .inl ⟨evt', h, rfl⟩

theorem customers_kept (e : Effect settings db l db') {id : String}
    (h : (db.customers.get id).isSome) : (db'.customers.get id).isSome := by
  cases hl : l.processedId?
  case none =>
    obtain h' | h' := e.customers_get hl id
    · rwa [h']
    · simp [h'.left] at h
  case some =>
    cases e <;> simp [Label.processedId?] at hl
    rw [applyEvent_customers_get]
    split <;> simp [h]

theorem owned (e : Effect settings db l db') (h : db.Owned) : db'.Owned := by
  intro evt hm
  refine (e.events_origin <| Table.mem_iff_get.mp hm).elim (fun h' => ?_) e.customers_kept
  obtain ⟨evt', hg, hc⟩ := h'
  exact hc ▸ e.customers_kept (h evt' <| Table.mem_of_get hg)

-- Once an event is processed its row is final.
theorem processed_kept (e : Effect settings db l db') {id : String} {evt : Event}
    (h : db.events.get id = some evt) (hp : evt.status = .processed) :
    db'.events.get id = some evt := by
  cases hl : l.processedId?
  case none => exact e.processed_iff hl hp |>.mpr h
  case some =>
    cases e <;> simp [Label.processedId?] at hl
    case applyEvent event pending _ =>
      rw [applyEvent_events_get]
      split
      case isFalse  => exact h
      case isTrue e =>
        rw [← e, event] at h
        cases h
        simp [pending] at hp

end Effect

inductive Effects (settings : Settings R) : Db R → List Label → Db R → Prop
  | refl {db} : Effects settings db [] db
  | step {db₁ db₂ db₃ l ls} : (Effect settings db₁ l db₂) → (Effects settings db₂ ls db₃) →
    Effects settings db₁ (l :: ls) db₃

namespace Effects

variable {settings : Settings R} {db₁ db₂ db₃ : Db R} {ls ls' : List Label}

theorem single {l : Label} (e : Effect settings db₁ l db₂) : Effects settings db₁ [l] db₂ :=
  .step e .refl

theorem trans (e₁ : Effects settings db₁ ls db₂) (e₂ : Effects settings db₂ ls' db₃) :
    Effects settings db₁ (ls ++ ls') db₃ := by
  induction e₁
  case refl         => exact e₂
  case step e _ hi  => exact .step e (hi e₂)

theorem events_kept (e : Effects settings db₁ ls db₂) {id : String} {evt : Event}
    (h : db₁.events.get id = some evt) :
    ∃ evt', db₂.events.get id = some evt' ∧
      evt' = { evt with status := evt'.status, processedAt := evt'.processedAt } := by
  induction e generalizing evt
  case refl        => exact ⟨evt, h, rfl⟩
  case step e _ hi =>
    obtain ⟨_, h', e'⟩ := e.events_kept h
    obtain ⟨evt'', h'', e''⟩ := hi h'
    exact ⟨evt'', h'', by rw [e'', e']⟩

end Effects
end MarTech
