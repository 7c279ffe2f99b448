import MarTech.Pipeline.Theorems.Handling

namespace MarTech

variable {R : Type}

section

variable [Runtime] [Field R] [LinearOrder R] [FloorRing R] [MathExp R] {settings : Settings R}
         {payload : Json.Object} {db db' : Db R} {now : Timestamp}

-- Without a row for the event there is nothing to process, and the payload is dead-lettered.
theorem processOneEvent_absent (h : db.events.get (payloadEventId payload) = none) :
    (processOneEvent settings db payload now).answer = none := by
  simp only [processOneEvent]
  split
  case h_1           => rfl
  case h_2 body hb   =>
    rw [payloadEventId_of_modelValidate hb] at h
    simp [h, Outcome.answer]

theorem Completed.absent (hc : Completed settings payload db db')
    (h : db.events.get (payloadEventId payload) = none) :
    ∃ error retries dlqId now, db.dlqEvents.get dlqId = none ∧
      db' = deadLetter db none (payloadEventId payload) payload error retries dlqId now := by
  cases hc
  case processed answered => simp [processOneEvent_absent h] at answered
  case failed error retries dlqId now fresh =>
    exact ⟨error, retries, dlqId, now, fresh, by simp [failEvent, h, Outcome.db]⟩

-- With one, the event has come to its end.
theorem Completed.isTerminal (hc : Completed settings payload db db')
    (h : (db.events.get (payloadEventId payload)).isSome) :
    isTerminal db' (payloadEventId payload) := by
  cases hc
  case processed now answered =>
    cases hp : processOneEvent settings db payload now
    case raised    => simp [hp, Outcome.answer] at answered
    case returned  => exact isTerminal_of_returned hp
    case committed => exact isTerminal_of_committed hp
  case failed error retries dlqId now _ =>
    cases hf : failEvent db payload error retries dlqId now
    case raised    => simp only [failEvent] at hf; split at hf <;> cases hf
    case returned  => exact isTerminal_of_failEvent hf
    case committed =>
      obtain ⟨evt, he⟩ := Option.isSome_iff_exists.mp h
      obtain ⟨rfl, _⟩ := failEvent_eq hf
      simp [Outcome.db, MarTech.isTerminal, deadLetter_events_get, he]

-- An event that has come to its end is left alone.
theorem Completed.terminal (hc : Completed settings payload db db')
    (h : MarTech.isTerminal db (payloadEventId payload)) : db' = db := by
  cases hc
  case failed => rw [failEvent_terminal h, Outcome.db]
  case processed now _ =>
    cases hp : processOneEvent settings db payload now
    case committed => exact absurd hp <| processOneEvent_not_committed h
    all_goals rfl

-- What the handling of a message leaves as it is.
structure Preserved (eventId : String) (db db' : Db R) : Prop where
  customers : ∀ id, (db'.customers.get id).isSome = (db.customers.get id).isSome
  owners    : ∀ id, (db'.events.get id).map (·.customerId) = (db.events.get id).map (·.customerId)
  others    : ∀ id, eventId ≠ id → db'.events.get id = db.events.get id

omit [Runtime] [Field R] [LinearOrder R] [FloorRing R] [MathExp R] in
theorem Preserved.refl (eventId : String) (db : Db R) : Preserved eventId db db where
  customers _ := rfl
  owners _    := rfl
  others _ _  := rfl

theorem Preserved.of_processOneEvent {now : Timestamp}
    (h : processOneEvent settings db payload now = .committed db' ()) :
    Preserved (payloadEventId payload) db db' := by
  obtain ⟨body, hb, e⟩ := processOneEvent_committed h
  rw [payloadEventId_of_modelValidate hb]
  generalize body.eventId = eventId at e
  cases e
  case applyEvent =>
    constructor
    case customers => intro id; rw [applyEvent_customers_get]; split <;> simp
    case owners    => intro id; rw [applyEvent_events_get]; split <;> simp [Function.comp_def]
    case others    => intro id hne; rw [applyEvent_events_get, if_neg hne]

omit [Runtime] [Field R] [LinearOrder R] [FloorRing R] [MathExp R] in
theorem Preserved.of_deadLetter (evt : Option Event) (eventId : String) (payload : Json.Object)
    (error : Error) (retries dlqId : Nat) (now : Timestamp) :
    Preserved eventId db (deadLetter db evt eventId payload error retries dlqId now) where
  customers _   := by rw [deadLetter_customers]
  owners id     := by rw [deadLetter_events_get]; split <;> simp [Function.comp_def]
  others id hne := by rw [deadLetter_events_get, if_neg fun h => hne h.right]

theorem Completed.preserved (hc : Completed settings payload db db') :
    Preserved (payloadEventId payload) db db' := by
  cases hc
  case processed now answered =>
    cases hp : processOneEvent settings db payload now
    case committed => exact .of_processOneEvent hp
    all_goals exact .refl _ db
  case failed error retries dlqId now fresh =>
    simp only [failEvent]
    split
    case isTrue  => exact .refl _ db
    case isFalse => exact .of_deadLetter ..

theorem Completed.isTerminal_iff (hc : Completed settings payload db db') (eventId : String) :
    MarTech.isTerminal db' eventId ↔ MarTech.isTerminal db eventId ∨
      (db.events.get eventId).isSome ∧ payloadEventId payload = eventId := by
  by_cases he : payloadEventId payload = eventId
  case neg => simp [MarTech.isTerminal, hc.preserved.others eventId he, he]
  case pos =>
    subst he
    cases h : db.events.get (payloadEventId payload)
    case none =>
      have howner := hc.preserved.owners (payloadEventId payload)
      rw [h, Option.map_none, Option.map_eq_none_iff] at howner
      simp [MarTech.isTerminal, h, howner]
    case some =>
      have hsome : (db.events.get (payloadEventId payload)).isSome := by simp [h]
      simp [hc.isTerminal hsome]

omit [Runtime] [Field R] [LinearOrder R] [FloorRing R] [MathExp R] in
theorem exists_fresh (db : Db R) : ∃ dlqId, db.dlqEvents.get dlqId = none := by
  obtain ⟨dlqId, hn⟩ := Infinite.exists_notMem_finset (db.dlqEvents.rows.map DLQEvent.id).toFinset
  refine ⟨dlqId, Table.get_eq_none_iff.mpr fun row hr hk => hn ?_⟩
  exact List.mem_toFinset.mpr <| List.mem_map.mpr ⟨row, hr, hk⟩

namespace Worker

-- The tables after the message was handled again and again, as it is after a failed acknowledgement.
def redeliver (settings : Settings R) (payload : Json.Object) :
    Db R → List (Nat × List (Await R)) → Db R
  | db, []                            => db
  | db, (index, awaits) :: deliveries =>
    redeliver settings payload
      (after <| handle settings index payload |>.run <| .start db awaits).db deliveries

theorem handle_terminal (h : isTerminal db (payloadEventId payload)) {awaits : List (Await R)}
    (ha : ∀ a ∈ awaits, a.Alone) (index : Nat) :
    (after <| handle settings index payload |>.run <| .start db awaits).db = db := by
  have hor := handle_after settings payload (w := .start db awaits) index ha
  cases hor
  case inr hc => exact hc.terminal h
  case inl ht =>
    obtain ht | ⟨now, ht⟩ := ht
    · exact ht
    · exact absurd ht <| processOneEvent_not_committed h

theorem redeliver_terminal (h : isTerminal db (payloadEventId payload))
    {deliveries : List (Nat × List (Await R))} (ha : ∀ d ∈ deliveries, ∀ a ∈ d.2, Await.Alone a) :
    redeliver settings payload db deliveries = db := by
  induction deliveries
  case nil => rfl
  case cons d deliveries hi =>
    obtain ⟨hd, ha⟩ := List.forall_mem_cons.mp ha
    rw [redeliver, handle_terminal h hd]
    exact hi ha

theorem exists_handling (settings : Settings R) (db : Db R) (payload : Json.Object) :
    ∃ awaits w, (∀ a ∈ awaits, Await.Alone a) ∧
      (handle settings 0 payload).run (.start db awaits) = .ok () w ∧
      Completed settings payload db w.db := by
  obtain ⟨dlqId, hd⟩ := exists_fresh db
  let a : Await R := {
    before   := []
    fault    := none
    now      := 0
    dlqId    := dlqId
    missed   := false
    stream   := ⟨[], 0⟩
    messages := [] }
  obtain ⟨awaits, w, ha, hrun⟩ := handle_completes settings (a := a) ⟨⟨rfl, rfl⟩, rfl⟩ hd 0 payload
  exact ⟨awaits, w, ha, hrun, handle_completed settings payload ha hrun⟩

-- A message without a row for its event can always be dead-lettered once more.
theorem exists_redelivery (settings : Settings R)
    (h : db.events.get (payloadEventId payload) = none) :
    ∃ awaits w, (∀ a ∈ awaits, Await.Alone a) ∧
      (handle settings 0 payload).run (.start db awaits) = .ok () w ∧ w.db ≠ db := by
  obtain ⟨awaits, w, ha, hrun, hc⟩ := exists_handling settings db payload
  obtain ⟨error, retries, dlqId, now, hn, hdb⟩ := hc.absent h
  have hgain : ∃ row ∈ w.db.dlqEvents, row ∉ db.dlqEvents ∧ row.payload = payload :=
    hdb ▸ deadLetter_gains hn
  obtain ⟨row, hm, hnot, _⟩ := hgain
  exact ⟨awaits, w, ha, hrun, fun e => hnot (e ▸ hm)⟩

-- Handling a message again changes nothing just if there is a row for the event that it names.
theorem redelivery_idempotent_iff (settings : Settings R) (payload : Json.Object) (index : Nat)
    (db : Db R) (awaits : List (Await R)) (w : World R) (ha : ∀ a ∈ awaits, a.Alone)
    (hfirst : (handle settings index payload).run (.start db awaits) = .ok () w) :
    (∀ deliveries, (∀ d ∈ deliveries, ∀ a ∈ d.2, Await.Alone a) →
      redeliver settings payload w.db deliveries = w.db) ↔
    (db.events.get (payloadEventId payload)).isSome := by
  have hc := handle_completed settings payload (w := .start db awaits) ha hfirst
  constructor
  case mpr =>
    intro h deliveries hd
    exact redeliver_terminal (hc.isTerminal h) hd
  case mp =>
    intro hsame
    by_contra hnone
    have hn : db.events.get (payloadEventId payload) = none := by simpa using hnone
    obtain ⟨_, _, _, _, _, hdb⟩ := hc.absent hn
    have hn : w.db.events.get (payloadEventId payload) = none := by
      rw [hdb]
      exact hn
    obtain ⟨awaits, w', ha, hrun, hne⟩ := exists_redelivery settings hn
    have hsame := hsame [(0, awaits)] fun d hd => List.mem_singleton.mp hd ▸ ha
    simp only [redeliver, hrun, after] at hsame
    exact hne hsame

end Worker
end

section Example

open EpochDay Worker

def ingested : Db ℝ :=
  (ingestEvent seeded.db unsubscription none 0 0).db seeded.db

theorem redelivery_idempotent_iff_ingested :
    ∃ awaits w, (handle .default 0 unsubscription.modelDump).run (.start ingested awaits) =
        .ok () w ∧
      ∀ deliveries, (∀ d ∈ deliveries, ∀ a ∈ d.2, Await.Alone a) →
        redeliver .default unsubscription.modelDump w.db deliveries = w.db := by
  obtain ⟨awaits, w, ha, hrun, _⟩ := exists_handling .default ingested unsubscription.modelDump
  refine ⟨awaits, w, hrun, ?_⟩
  exact redelivery_idempotent_iff .default _ 0 ingested awaits w ha hrun |>.mpr (by decide +kernel)

-- A message without a payload adds a dead letter each time that it is handled.
theorem redelivery_adds_dead_letters :
    ¬∀ (settings : Settings ℝ) (payload : Json.Object) (index : Nat) (db : Db ℝ)
      (awaits : List (Await ℝ)) (w : World ℝ), (∀ a ∈ awaits, a.Alone) →
      (handle settings index payload).run (.start db awaits) = .ok () w →
        ∀ deliveries, (∀ d ∈ deliveries, ∀ a ∈ d.2, Await.Alone a) →
          redeliver settings payload w.db deliveries = w.db := by
  intro h
  obtain ⟨awaits, w, ha, hrun, hc⟩ := exists_handling .default seeded.db []
  have hn : w.db.events.get (payloadEventId []) = none := by
    obtain ⟨_, _, _, _, _, hdb⟩ := hc.absent rfl
    rw [hdb]
    rfl
  obtain ⟨awaits', w', ha', hrun', hne⟩ := exists_redelivery .default hn
  have hsame := h .default [] 0 seeded.db awaits w ha hrun [(0, awaits')]
    fun d hd => List.mem_singleton.mp hd ▸ ha'
  simp only [redeliver, hrun', after] at hsame
  exact hne hsame

end Example
end MarTech
