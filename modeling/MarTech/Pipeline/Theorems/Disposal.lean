import MarTech.Pipeline.Theorems.Redelivery
import MarTech.Pipeline.Theorems.Supply

set_option mvcgen.warning false

namespace MarTech.Worker

open Std.Do

variable {R : Type}

section Transactions

variable [Postgres] [Runtime] {payload : Json.Object} {db : Db R}

-- The tables are left alone by everyone else.
structure Undisturbed (db₀ : Db R) (a : Await R) (db : Db R) : Prop where
  same  : db = db₀
  found : a.missed = false
  fresh : Fresh a db

omit [Postgres] [Runtime] in
theorem Supplied.undisturbed {w : World R} {n : Nat} (h : Supplied Fresh n w) (ha : w.Alone) :
    Supplied (Undisturbed w.db) n w where
  enough := h.enough
  fault  := h.fault
  meets a hm db hdb := by
    have hfresh := h.meets a hm db hdb
    rw [(ha a hm).before, List.mem_singleton] at hdb
    exact ⟨hdb, (ha a hm).found, hfresh⟩
  later  := h.later.imp_of_mem fun hm _ h => ⟨h.left, by simp [(ha _ hm).before]⟩

-- A row of an event that the payload describes, and that there is a customer for.
def Processable (db : Db R) (payload : Json.Object) : Prop :=
  ∃ body, EventIn.modelValidate payload = some body ∧ ∃ evt,
    db.events.get body.eventId = some evt ∧ (db.customers.get evt.customerId).isSome

-- An event has come to its end, or will have once the earlier messages are handled.
def Settled (db : Db R) (earlier : List Message) (eventId : String) : Prop :=
  isTerminal db eventId ∨
    (db.events.get eventId).isSome ∧ ∃ message ∈ earlier, payloadEventId message.2 = eventId

-- The database takes the event's id for a query, and there is no need or no obstacle to record the
-- payload as a dead letter.
def Disposable (db : Db R) (earlier : List Message) (payload : Json.Object) : Prop :=
  Postgres.text (payloadEventId payload) ∧
    (storable payload ∨ Settled db earlier (payloadEventId payload) ∨ Processable db payload)

omit [Postgres] in
@[simp]
theorem settled_nil {eventId : String} : Settled db [] eventId ↔ isTerminal db eventId := by
  simp [Settled]

omit [Postgres] in
theorem processable_iff : Processable db payload ↔
    ∃ body, EventIn.modelValidate payload = some body ∧ ∃ customerId,
      (db.events.get body.eventId).map (·.customerId) = some customerId ∧
        (db.customers.get customerId).isSome := by
  simp [Processable]

theorem failSession_storable (ht : Postgres.text (payloadEventId payload)) (hs : storable payload)
    {a : Await R} (hf : Fresh a db) (error : Error) (retries : Nat) (error' : Error) :
    Stored.failSession payload error retries a db ≠ .raised error' := by
  have hn : ¬(db.dlqEvents.get a.dlqId).isSome := by simp [show db.dlqEvents.get a.dlqId = none from hf]
  simp only [Stored.failSession, Worker.failSession, if_pos ht, if_pos hs, if_neg hn, MarTech.failEvent]
  split_ifs <;> simp

theorem failSession_terminal (ht : Postgres.text (payloadEventId payload))
    (h : isTerminal db (payloadEventId payload)) {a : Await R} (ha : Undisturbed db a db)
    (error : Error) (retries : Nat) : Stored.failSession payload error retries a db = .returned () := by
  have hn : ¬(db.dlqEvents.get a.dlqId).isSome := by
    simp [show db.dlqEvents.get a.dlqId = none from ha.fresh]
  have hm : ¬a.missed := by simp [ha.found]
  simp only [Stored.failSession, Worker.failSession, if_pos ht, if_neg hn, if_neg hm,
    failEvent_terminal h]

omit [Postgres] in
theorem failSession_took {fail : Await R → Db R → Outcome R Unit} {error : Error} {retries : Nat}
    (hf : MayRaise (failSession payload error retries) fail) {a : Await R} {instants : List (Db R)}
    (h : Took (fail a) () instants) : Durable payload instants := by
  refine .of_took h (fun db hr => ?_) fun db db' hc => ?_
  · have hr := hf.returned hr
    simp only [failSession] at hr
    split_ifs at hr
    exact isTerminal_of_failEvent hr
  · have hc := hf.committed hc
    simp only [failSession] at hc
    split_ifs at hc with hn
    · cases hc
      exact .inr (deadLetter_gains (by simpa using hn))
    · exact (failEvent_eq hc).left ▸ .inr (deadLetter_gains (by simpa using hn))

omit [Postgres] in
theorem failSession_takesOwn {fail : Await R → Db R → Outcome R Unit} {error : Error} {retries : Nat}
    (hf : MayRaise (failSession payload error retries) fail) : TakesOwn fail := by
  intro a b db db' _ hc hn hfresh
  have hc := hf.committed hc
  obtain ⟨evt, rfl⟩ : ∃ evt,
      db' = deadLetter db evt (payloadEventId payload) payload error retries a.dlqId a.now := by
    simp only [failSession] at hc
    split_ifs at hc
    · cases hc
      exact ⟨none, rfl⟩
    · exact ⟨_, (failEvent_eq hc).left⟩
  have hfresh : db.dlqEvents.get b.dlqId = none := hfresh
  simp [Fresh, deadLetter_dlqEvents, moveToDlq, Table.get_insert, hfresh, hn]

variable [Field R] [LinearOrder R] [FloorRing R] [MathExp R] {settings : Settings R}

theorem processSession_processable (ht : Postgres.text (payloadEventId payload))
    (h : Processable db payload) (a : Await R) (error : Error) :
    Stored.processSession settings payload a db ≠ .raised error := by
  obtain ⟨body, hb, evt, he, hc⟩ := h
  obtain ⟨customer, hc⟩ := Option.isSome_iff_exists.mp hc
  rw [payloadEventId_of_modelValidate hb] at ht
  simp only [Stored.processSession, MarTech.processOneEvent, hb, if_pos ht, he, hc]
  split <;> simp

theorem processSession_stuck (h : ¬Disposable db [] payload) (a : Await R) :
    ∃ error, Stored.processSession settings payload a db = .raised error := by
  simp only [Stored.processSession]
  split
  case h_1         => exact ⟨_, rfl⟩
  case h_2 body hb =>
    split
    case isFalse   => exact ⟨_, rfl⟩
    case isTrue ht =>
      have hid := payloadEventId_of_modelValidate hb
      simp only [MarTech.processOneEvent, hb]
      split
      case h_1        => exact ⟨_, rfl⟩
      case h_2 evt he =>
        have hnot : ¬isTerminal db (payloadEventId payload) :=
          fun hterminal => h ⟨hid ▸ ht, .inr (.inl (.inl hterminal))⟩
        rw [if_neg (by simpa [isTerminal, hid, he] using hnot)]
        split
        case h_1             => exact ⟨_, rfl⟩
        case h_2 customer hc =>
          have hprocessable : Processable db payload :=
            ⟨body, hb, evt, he, Option.isSome_iff_exists.mpr ⟨customer, hc⟩⟩
          exact absurd ⟨hid ▸ ht, .inr (.inr hprocessable)⟩ h

omit [Field R] [LinearOrder R] [FloorRing R] [MathExp R] in
theorem failSession_stuck (h : ¬Disposable db [] payload) {a : Await R} (hm : a.missed = false)
    (error : Error) (retries : Nat) :
    ∃ error', Stored.failSession payload error retries a db = .raised error' := by
  simp only [Stored.failSession]
  split
  case isFalse   => exact ⟨_, rfl⟩
  case isTrue ht =>
    have hs : ¬storable payload := fun hs => h ⟨ht, .inl hs⟩
    have hterminal : ¬isTerminal db (payloadEventId payload) :=
      fun hterminal => h ⟨ht, .inr (.inl (.inl hterminal))⟩
    simp only [Worker.failSession, hm, MarTech.failEvent]
    split_ifs <;> simp_all [isTerminal]

theorem processSession_took {a : Await R} {instants : List (Db R)}
    (h : Took (Stored.processSession settings payload a) () instants) : Durable payload instants :=
  .of_took h (fun _ hr => isTerminal_of_returned (processSession_mayRaise.returned hr))
    fun _ _ hc => .inl (isTerminal_of_committed (processSession_mayRaise.committed hc))

theorem processSession_takesOwn :
    TakesOwn (R := R) (Stored.processSession settings payload) := by
  intro a b db db' _ hc _ hfresh
  obtain ⟨_, _, e⟩ := processOneEvent_committed (processSession_mayRaise.committed hc)
  generalize hl : Label.processed _ = l at e
  cases e
  case applyEvent => exact hfresh
  all_goals cases hl

-- One of the two transactions does not raise just if the payload can be disposed of.
theorem not_blocks (h : Disposable db [] payload) :
    ¬Blocks (Undisturbed db) (Stored.processSession settings payload) (Stored.failSession payload) := by
  obtain ⟨ht, hs | hterminal | hprocessable⟩ := h
  all_goals rintro ⟨⟨a, db', error, ⟨rfl, _, _⟩, hp⟩, a', db'', error', error'', retries, hu, hf⟩
  · exact failSession_storable ht hs hu.fresh error' retries error'' hf
  · obtain ⟨rfl, hm, hfresh⟩ := hu
    simp [failSession_terminal ht (settled_nil.mp hterminal) ⟨rfl, hm, hfresh⟩] at hf
  · exact processSession_processable ht hprocessable a error hp

theorem not_passes (h : ¬Disposable db [] payload) :
    ¬Passes (Undisturbed db) (Stored.processSession settings payload) (Stored.failSession payload) := by
  rintro ⟨a, db', hu, hp | ⟨error, retries, hf⟩⟩
  · obtain ⟨error, e⟩ : ∃ error, Stored.processSession settings payload a db' = .raised error :=
      processSession_stuck (hu.same ▸ h) a
    exact hp error e
  · obtain ⟨error', e⟩ := failSession_stuck (hu.same ▸ h) hu.found error retries
    exact hf error' e

theorem not_blocks_storable (ht : Postgres.text (payloadEventId payload)) (hs : storable payload) :
    ¬Blocks (R := R) Fresh (Stored.processSession settings payload) (Stored.failSession payload) := by
  rintro ⟨_, a, db, error, error', retries, hfresh, hf⟩
  exact failSession_storable ht hs hfresh error retries error' hf

end Transactions

section Progress

variable [Runtime] {payload : Json.Object} {db₀ db db' : Db R} {earlier : List Message}
         {messageId : MessageId}

-- How far the tables have come from `db₀` when the earlier messages have been handled.
structure Advanced (db₀ : Db R) (earlier : List Message) (db : Db R) : Prop where
  customers : ∀ id, (db.customers.get id).isSome = (db₀.customers.get id).isSome
  owners    : ∀ id, (db.events.get id).map (·.customerId) = (db₀.events.get id).map (·.customerId)
  settled   : ∀ eventId, isTerminal db eventId ↔ Settled db₀ earlier eventId

namespace Advanced

theorem completed [Field R] [LinearOrder R] [FloorRing R] [MathExp R] {settings : Settings R}
    (h : Advanced db₀ earlier db) (hc : Completed settings payload db db') :
    Advanced db₀ (earlier ++ [(messageId, payload)]) db' where
  customers id := (hc.preserved.customers id).trans (h.customers id)
  owners id    := (hc.preserved.owners id).trans (h.owners id)
  settled id   := by
    have hsome : (db.events.get id).isSome = (db₀.events.get id).isSome := by
      simpa using congrArg Option.isSome (h.owners id)
    rw [hc.isTerminal_iff, h.settled, hsome]
    simp [Settled, or_and_right, exists_or, or_assoc, and_or_left]

-- Whether a message can be disposed of shows in the tables at the beginning.
theorem disposable_iff [Postgres] (h : Advanced db₀ earlier db) :
    Disposable db [] payload ↔ Disposable db₀ earlier payload := by
  simp only [Disposable, settled_nil, h.settled, processable_iff, h.owners, h.customers]

end Advanced

end Progress

section Outcome

variable [Runtime] {limit index : Nat} {message : Message}

-- A message has been acknowledged, having come to a durable end in as many attempts as there may be.
structure Handled (limit index : Nat) (message : Message) (w : World R) : Prop where
  current  : (Watch.of w.trace).instants.getLast? = some w.db
  acked    : .acked index message.1 ∈ w.trace
  attempts : (Watch.of w.trace).attempts.count index ≤ limit
  durable  : Durable message.2 (Watch.of w.trace).instants

-- No message from the index `first` on has been acknowledged.
structure Unacked (first : Nat) (w : World R) : Prop where
  current : (Watch.of w.trace).instants.getLast? = some w.db
  acks    : ∀ index messageId, .acked index messageId ∈ w.trace → index < first

theorem Handled.lasting (limit index : Nat) (message : Message) :
    Lasting (index + 1) (Handled (R := R) limit index message) where
  commit w db h := {
    current  := by simp [Watch.see]
    acked    := List.mem_append_left _ h.acked
    attempts := by simpa [Watch.see] using h.attempts
    durable  := by simpa [Watch.see] using h.durable.concat }
  suspend _ _ h := { h with }
  current _ h   := h.current
  attempted w i hi h := {
    current  := by simpa [Watch.see] using h.current
    acked    := List.mem_append_left _ h.acked
    attempts := by
      have hne : i ≠ index := by omega
      simpa [Watch.see, List.count_singleton, hne] using h.attempts
    durable  := by simpa [Watch.see] using h.durable }
  raised w i _ h := {
    current  := by simpa [Watch.see] using h.current
    acked    := List.mem_append_left _ h.acked
    attempts := by simpa [Watch.see] using h.attempts
    durable  := by simpa [Watch.see] using h.durable }

theorem Handled.ack {w : World R} (h : Handled limit index message w) (i : Nat)
    (messageId : MessageId) :
    Handled limit index message { w with trace := w.trace ++ [.acked i messageId] } where
  current  := by simpa [Watch.see] using h.current
  acked    := List.mem_append_left _ h.acked
  attempts := by simpa [Watch.see] using h.attempts
  durable  := by simpa [Watch.see] using h.durable

omit [Runtime] in
theorem Unacked.lasting (first : Nat) : Lasting first (Unacked (R := R) first) where
  commit w db h := {
    current := by simp [Watch.see]
    acks index messageId hm := h.acks index messageId (by simpa using hm) }
  suspend _ _ h := { h with }
  current _ h   := h.current
  attempted w i _ h := {
    current := by simpa [Watch.see] using h.current
    acks index messageId hm := h.acks index messageId (by simpa using hm) }
  raised w i _ h := {
    current := by simpa [Watch.see] using h.current
    acks index messageId hm := h.acks index messageId (by simpa using hm) }

omit [Runtime] in
theorem Unacked.ack {first : Nat} {w : World R} (h : Unacked first w) (messageId : MessageId) :
    Unacked (first + 1) { w with trace := w.trace ++ [.acked first messageId] } where
  current := by simpa [Watch.see] using h.current
  acks index messageId hm := by
    obtain hm | hm := List.mem_append.mp hm
    · exact (h.acks index messageId hm).trans (Nat.lt_succ_self first)
    · cases List.mem_singleton.mp hm
      exact Nat.lt_succ_self first

omit [Runtime] in
theorem Unacked.delivered {first : Nat} {w : World R} (h : Unacked first w)
    (messages : List Message) :
    Unacked first { w with trace := w.trace ++ [.delivered messages] } where
  current := by simp [Watch.see, h.current]
  acks index messageId hm := h.acks index messageId (by simpa using hm)

end Outcome

section Handling

variable [Postgres] [Runtime] [Field R] [LinearOrder R] [FloorRing R] [MathExp R]
         {E : Await R → Db R → Prop} {P : World R → Prop} {n : Nat}

-- The calls that the handling of a message and its acknowledgement take at most.
def calls (settings : Settings R) : Nat :=
  2 * (settings.workerMaxRetries + 1) + 1

variable (settings : Settings R) (payload : Json.Object)

theorem handle_supplied (p : Place) (hl : p.limit = settings.workerMaxRetries + 1) (hm : p.made = 0)
    (hE : ∀ a db, E a db → Fresh a db) :
    ⦃fun w => ⌜At p w ∧ Supplied E (n + calls settings) w⌝⦄ Stored.handle settings p.index payload
    ⦃post⟨fun _ w => ⌜At p.exhausted w ∧ Supplied Fresh (n + 1) w ∧
            Durable payload (Watch.of w.trace).instants ∧
            Passes E (Stored.processSession settings payload) (Stored.failSession payload)⌝,
          fun _ _ => ⌜Blocks E (Stored.processSession settings payload) (Stored.failSession payload)⌝⟩⦄ := by
  have hlast : settings.workerMaxRetries ∈ List.range (settings.workerMaxRetries + 1) := by simp
  have hretrying := retrying_supplied (Stored.processSession settings payload)
    (Stored.failSession payload) p hE (fun _ _ => processSession_took)
    (fun error retries _ _ => failSession_took (failSession_mayRaise error retries))
    processSession_takesOwn (fun error retries => failSession_takesOwn (failSession_mayRaise error retries))
    _ hlast (by simp [hl, hm]) (n := n + 1)
  rw [List.length_range] at hretrying
  mvcgen [Stored.handle, Stored.processOneEvent, Stored.failEvent, observe, hretrying]
  case vc1.pre h => exact ⟨h.left, h.right.mono (fun _ _ => id) (by simp only [calls]; omega)⟩

theorem handle_lasting {first index : Nat} (hP : Lasting first P) (hi : first ≤ index) :
    ⦃fun w => ⌜P w⌝⦄ Stored.handle settings index payload
    ⦃post⟨fun _ w => ⌜P w⌝, fun _ w => ⌜P w⌝⟩⦄ := by
  have hretrying := retrying_lasting (Stored.processSession settings payload)
    (Stored.failSession payload) hP hi settings.workerMaxRetries
    (List.range (settings.workerMaxRetries + 1))
  mvcgen [Stored.handle, Stored.processOneEvent, Stored.failEvent, observe, hretrying]
  case vc2.post.success           => exact id
  case vc3.post.except.handle h _ => exact hP.raised _ index hi h

theorem Stored.handle_alone (db : Db R) (index : Nat) :
    ⦃fun w => ⌜w.Alone ∧ Touched settings payload db w.db⌝⦄ Stored.handle settings index payload
    ⦃post⟨fun _ w => ⌜w.Alone ∧ Completed settings payload db w.db⌝,
          fun _ w => ⌜w.Alone ∧ (Touched settings payload db w.db ∨
            Completed settings payload db w.db)⌝⟩⦄ := by
  have hretrying := retrying_alone settings payload db processSession_mayRaise failSession_mayRaise
    index (List.range (settings.workerMaxRetries + 1)) (by simp)
  mvcgen [Stored.handle, Stored.processOneEvent, Stored.failEvent, observe, hretrying]

theorem Stored.handle_completed {index : Nat} {w w' : World R} (ha : w.Alone)
    (h : (Stored.handle settings index payload).run w = .ok () w') :
    Completed settings payload w.db w'.db := by
  have hends := Ends.of_triple (Stored.handle_alone settings payload w.db index) ⟨ha, .inl rfl⟩
  rw [h] at hends
  exact hends.right

-- With nothing in its way, the handling returns just if the message can be disposed of.
theorem handle_returns_iff {db : Db R} {awaits : List (Await R)} (index : Nat)
    (ha : World.Alone (.start db awaits)) (hs : Supplied Fresh (calls settings) (.start db awaits)) :
    (∃ w, (Stored.handle settings index payload).run (.start db awaits) = .ok () w) ↔
      Disposable db [] payload := by
  have hat : At ⟨settings.workerMaxRetries + 1, [], index, 0⟩ (World.start db awaits) := {
    Between.start _ db awaits with
    messages   := rfl
    attempts _ := Nat.zero_le _
    raised     := rfl }
  have hends := Ends.of_triple
    (handle_supplied (n := 0) settings payload _ rfl rfl fun _ _ (hu : Undisturbed db _ _) => hu.fresh)
    ⟨hat, (Nat.zero_add (calls settings)).symm ▸ hs.undisturbed ha⟩
  constructor
  case mp =>
    rintro ⟨w, h⟩
    rw [h] at hends
    by_contra hnot
    exact not_passes hnot hends.right.right.right
  case mpr =>
    intro hd
    obtain ⟨_, w, h, _⟩ := hends.imp (fun _ _ => id) (fun _ => not_blocks hd) |>.returns
    exact ⟨w, h⟩

omit [Postgres] [Field R] [LinearOrder R] [FloorRing R] [MathExp R] in
theorem ack_supplied (p : Place) (message : Message) (hm : p.messages[p.index]? = some message) :
    ⦃fun w => ⌜At p.exhausted w ∧ Supplied Fresh (n + 1) w ∧
      Durable message.2 (Watch.of w.trace).instants ∧ Unacked p.index w⌝⦄
    (ack p.index message.1 : Worker R Unit)
    ⦃post⟨fun _ w => ⌜(At p.next w ∧ Unacked (p.index + 1) w ∧ Handled p.limit p.index message w) ∧
            Supplied Fresh n w⌝, fun _ _ => ⌜False⌝⟩⦄ := by
  have hcall := @call_supplied R Fresh _ n Unit <| At.unaffected (R := R) p.next |>.and <|
    Unacked.lasting (p.index + 1) |>.toUnaffected.and
      (Handled.lasting p.limit p.index message).toUnaffected
  mvcgen [ack, observe, hcall]
  case vc1 w h _ =>
    have hat := h.left.acked h.right.right.left hm
    have hdurable : Durable message.2
        (Watch.of (w.trace ++ [.acked p.index message.1])).instants := by
      simpa [Watch.see] using h.right.right.left
    refine ⟨⟨hat, h.right.right.right.ack message.1, ?_⟩, h.right.left.observe _⟩
    exact {
      current  := hat.current
      acked    := List.mem_append_right _ List.mem_cons_self
      attempts := hat.attempts p.index |>.trans (by simp [Place.budget, Place.next])
      durable  := hdurable }

-- Where the worker is when the message with index `k` is the next to be handled.
structure Reached (settings : Settings R) (messages : List Message) (k : Nat) (w : World R) : Prop where
  place    : At ⟨settings.workerMaxRetries + 1, messages, k, 0⟩ w
  supplied : Supplied Fresh ((messages.length - k) * calls settings) w
  unacked  : Unacked k w

variable {settings} {messages : List Message} {k : Nat} {message : Message} {w : World R}

-- A message is acknowledged unless both transactions can raise.
theorem handleMessage_reached (hm : messages[k]? = some message) (hE : ∀ a db, E a db → Fresh a db)
    (h : Reached settings messages k w)
    (hs : Supplied E ((messages.length - k) * calls settings) w) :
    Ends
      (fun _ w => (Reached settings messages (k + 1) w ∧
        Handled (settings.workerMaxRetries + 1) k message w) ∧
          Passes E (Stored.processSession settings message.2) (Stored.failSession message.2))
      (fun w => Unacked k w ∧
        Blocks E (Stored.processSession settings message.2) (Stored.failSession message.2))
      (Stored.handleMessage settings k message |>.run w) := by
  have hcalls : (messages.length - k) * calls settings =
      (messages.length - (k + 1)) * calls settings + calls settings := by
    have hlt : k < messages.length := List.getElem?_eq_some_iff.mp hm |>.choose
    rw [← Nat.succ_mul]
    congr
    omega
  rw [hcalls] at hs
  have hhandle := Ends.of_triple (handle_supplied settings message.2 _ rfl rfl hE) ⟨h.place, hs⟩
  have hunacked := Ends.of_triple
    (handle_lasting settings message.2 (Unacked.lasting (R := R) k) le_rfl) h.unacked
  refine hhandle.and hunacked |>.bind (fun _ w h => ?_) fun w h => ⟨h.right, h.left⟩
  obtain ⟨⟨hat, hs, hdurable, hpasses⟩, hunacked⟩ := h
  have hack := Ends.of_triple (ack_supplied _ message hm) ⟨hat, hs, hdurable, hunacked⟩
  refine hack.imp (fun _ w h => ⟨⟨⟨h.left.left, h.right, h.left.right.left⟩, h.left.right.right⟩, hpasses⟩)
    fun _ => False.elim

-- The same with no other session open.
structure AloneReached (settings : Settings R) (db : Db R) (messages : List Message) (k : Nat)
    (w : World R) : Prop extends Reached settings messages k w where
  alone    : w.Alone
  advanced : Advanced db (messages.take k) w.db

theorem handleMessage_alone {db : Db R} (ha : w.Alone) (hd : w.db = db) :
    Ends (fun _ w => w.Alone ∧ Completed settings message.2 db w.db) (fun _ => True)
      (Stored.handleMessage settings k message |>.run w) := by
  have hhandle := Ends.of_triple (Stored.handle_alone settings message.2 db k) ⟨ha, .inl hd⟩
  refine hhandle.bind (fun _ w h => ?_) fun _ _ => trivial
  have hack : ⦃fun w => ⌜w.Alone ∧ Completed settings message.2 db w.db⌝⦄
      (ack k message.1 : Worker R Unit)
      ⦃post⟨fun _ w => ⌜w.Alone ∧ Completed settings message.2 db w.db⌝, fun _ _ => ⌜True⌝⟩⦄ := by
    have hcall := @call_alone _ (Completed settings message.2 db) Unit
    mvcgen [ack, observe, hcall]
    case vc2.post.success => exact fun ha hc => ⟨ha, hc⟩
  exact .of_triple hack h

-- With no other session open, the message is acknowledged just if it can be disposed of.
theorem AloneReached.handleMessage {db : Db R} (hm : messages[k]? = some message)
    (h : AloneReached settings db messages k w) :
    Ends
      (fun _ w => (AloneReached settings db messages (k + 1) w ∧
        Handled (settings.workerMaxRetries + 1) k message w) ∧
          Disposable db (messages.take k) message.2)
      (fun w => Unacked k w ∧ ¬Disposable db (messages.take k) message.2)
      (Stored.handleMessage settings k message |>.run w) := by
  have hreached := handleMessage_reached hm (fun _ _ hu => hu.fresh) h.toReached
    (h.supplied.undisturbed h.alone)
  refine hreached.and (handleMessage_alone h.alone rfl) |>.imp (fun _ w' h' => ?_) fun w' h' => ?_
  case refine_1 =>
    obtain ⟨⟨⟨hreached, hhandled⟩, hpasses⟩, halone, hcompleted⟩ := h'
    refine ⟨⟨⟨hreached, halone, ?_⟩, hhandled⟩, ?_⟩
    · rw [List.take_add_one, hm]
      exact h.advanced.completed hcompleted
    · by_contra hnot
      exact not_passes (h.advanced.disposable_iff.not.mpr hnot) hpasses
  case refine_2 =>
    exact ⟨h'.left.left, fun hd => not_blocks (h.advanced.disposable_iff.mpr hd) h'.left.right⟩

-- Whatever other sessions do, it is if the database takes all that is in it.
theorem Reached.handleMessage (hm : messages[k]? = some message)
    (ht : Postgres.text (payloadEventId message.2)) (hs : storable message.2)
    (h : Reached settings messages k w) :
    Ends
      (fun _ w => Reached settings messages (k + 1) w ∧
        Handled (settings.workerMaxRetries + 1) k message w) (fun _ => False)
      (Stored.handleMessage settings k message |>.run w) :=
  handleMessage_reached hm (fun _ _ => id) h h.supplied |>.imp (fun _ _ h => h.left)
    fun _ h => not_blocks_storable ht hs h.right

end Handling

section Batches

variable [Postgres] [Runtime] [Field R] [LinearOrder R] [FloorRing R] [MathExp R]
         {settings : Settings R} {messages : List Message} {P : World R → Prop}
         {F : Unit → World R → Prop} {E : World R → Prop}

-- Up to the message with index `j`, what each message makes of a state the next one starts in.
theorem handleMessages_reaches {S : Nat → World R → Prop} {j : Nat} (hj : j ≤ messages.length)
    (hS : ∀ k < j, ∀ message, messages[k]? = some message → ∀ w, S k w →
      Ends (fun _ => S (k + 1)) (fun _ => False) (Stored.handleMessage settings k message |>.run w))
    (hrest : ∀ w, S j w → Ends F E (Stored.handleMessages settings j (messages.drop j) |>.run w))
    {k : Nat} (hk : k ≤ j) :
    ∀ w, S k w → Ends F E (Stored.handleMessages settings k (messages.drop k) |>.run w) := by
  induction hk using Nat.decreasingInduction
  case self => exact hrest
  case of_succ k hlt hi =>
    intro w h
    have hlt' : k < messages.length := hlt.trans_le hj
    rw [List.drop_eq_getElem_cons hlt']
    exact hS k hlt _ (List.getElem?_eq_getElem hlt') w h |>.bind (fun _ => hi) fun _ => False.elim

-- What lasts whatever happens to the messages that are left.
theorem handleMessages_lasting (settings : Settings R) {first : Nat} (hP : Lasting first P)
    (ha : ∀ w index messageId, P w → P { w with trace := w.trace ++ [.acked index messageId] })
    (messages : List Message) {index : Nat} (hi : first ≤ index) :
    ⦃fun w => ⌜P w⌝⦄ Stored.handleMessages settings index messages
    ⦃post⟨fun _ w => ⌜P w⌝, fun _ w => ⌜P w⌝⟩⦄ := by
  have hcall := @call_spec _ P Unit hP.toUnaffected
  induction messages generalizing index
  case nil => mvcgen [Stored.handleMessages]
  case cons message messages hmessages =>
    have hhandle := handle_lasting settings message.2 hP hi
    have hmessages := hmessages (hi.trans (Nat.le_succ index))
    mvcgen [Stored.handleMessages, Stored.handleMessage, ack, observe, hhandle, hcall, hmessages]
    case vc2 h _ => exact ha _ index message.1 h

variable {w : World R} {k : Nat} {message : Message}

-- Once a message has been handled it makes no difference to it how the rest of the batch ends.
theorem handleMessages_handled (hm : messages[k]? = some message)
    (h : Ends (fun _ w => Handled (settings.workerMaxRetries + 1) k message w) E
      (Stored.handleMessage settings k message |>.run w)) :
    Ends (fun _ w => Handled (settings.workerMaxRetries + 1) k message w)
      (fun w => Handled (settings.workerMaxRetries + 1) k message w ∨ E w)
      (Stored.handleMessages settings k (messages.drop k) |>.run w) := by
  obtain ⟨hlt, rfl⟩ := List.getElem?_eq_some_iff.mp hm
  rw [List.drop_eq_getElem_cons hlt]
  refine h.bind (fun _ w h => ?_) fun _ => .inr
  have hlasting := handleMessages_lasting settings
    (Handled.lasting (settings.workerMaxRetries + 1) k messages[k])
    (fun _ index messageId h => h.ack index messageId) (messages.drop (k + 1)) le_rfl
  exact Ends.of_triple hlasting h |>.imp (fun _ _ => id) fun _ => .inl

-- Neither the message with that index nor one before it gets stuck.
def Unblocked (db : Db R) (messages : List Message) (index : Nat) : Prop :=
  ∀ k message, k ≤ index → messages[k]? = some message → Disposable db (messages.take k) message.2

theorem handled_of_unblocked {db : Db R} {index : Nat} (hm : messages[index]? = some message)
    (h : AloneReached settings db messages 0 w) (hu : Unblocked db messages index) :
    Handled (settings.workerMaxRetries + 1) index message
      (after <| Stored.handleMessages settings 0 messages |>.run w) := by
  have hlt : index < messages.length := List.getElem?_eq_some_iff.mp hm |>.choose
  have hends := handleMessages_reaches hlt.le (S := AloneReached settings db messages) (k := 0)
    (fun k hk message hm w h => h.handleMessage hm |>.imp (fun _ _ h => h.left.left)
      fun _ h' => h'.right (hu k message hk.le hm))
    (fun w h => handleMessages_handled hm <| h.handleMessage hm |>.imp (fun _ _ h => h.left.right)
      fun _ h' => h'.right (hu index message le_rfl hm))
    (Nat.zero_le index) w h
  exact hends.imp (fun _ _ => id) (fun _ h => h.resolve_right id) |>.after

-- The first message that gets stuck ends the iteration.
theorem unacked_of_not_unblocked {db : Db R} {index : Nat}
    (h : AloneReached settings db messages 0 w) (hu : ¬Unblocked db messages index) :
    Unacked index (after <| Stored.handleMessages settings 0 messages |>.run w) := by
  classical
  have hex : ∃ k, k ≤ index ∧ ∃ message, messages[k]? = some message ∧
      ¬Disposable db (messages.take k) message.2 := by
    simp only [Unblocked] at hu
    push Not at hu
    obtain ⟨k, message, hk, hm, hnot⟩ := hu
    exact ⟨k, hk, message, hm, hnot⟩
  obtain ⟨hk, message, hm, hnot⟩ := Nat.find_spec hex
  have hbefore : ∀ i < Nat.find hex, ∀ message, messages[i]? = some message →
      Disposable db (messages.take i) message.2 := by
    intro i hi message hm
    by_contra hd
    exact Nat.find_min hex hi ⟨hi.le.trans hk, message, hm, hd⟩
  generalize Nat.find hex = k at hk hm hnot hbefore
  have hlt : k < messages.length := List.getElem?_eq_some_iff.mp hm |>.choose
  have hends := handleMessages_reaches hlt.le (S := AloneReached settings db messages) (k := 0)
    (F := fun _ _ => False) (E := Unacked k)
    (fun i hi message hm w h => h.handleMessage hm |>.imp (fun _ _ h => h.left.left)
      fun _ h' => h'.right (hbefore i hi message hm))
    (fun w h => by
      have hstuck := h.handleMessage hm |>.imp (fun _ _ h' => hnot h'.right) fun _ h' => h'.left
      rw [List.drop_eq_getElem_cons hlt, (List.getElem?_eq_some_iff.mp hm).choose_spec]
      exact hstuck.bind (fun _ _ => False.elim) fun _ => id)
    (Nat.zero_le k) w h
  have hunacked := hends.imp (fun _ _ => False.elim) (fun _ => id) |>.after
  exact ⟨hunacked.current, fun i messageId hm => (hunacked.acks i messageId hm).trans_le hk⟩

-- A batch that the database takes all of is handled whatever other sessions do.
theorem handled_of_storable {index : Nat} (hm : messages[index]? = some message)
    (h : Reached settings messages 0 w)
    (hs : ∀ message ∈ messages.take (index + 1),
      Postgres.text (payloadEventId message.2) ∧ storable message.2) :
    Handled (settings.workerMaxRetries + 1) index message
      (after <| Stored.handleMessages settings 0 messages |>.run w) := by
  have hlt : index < messages.length := List.getElem?_eq_some_iff.mp hm |>.choose
  have hs (k : Nat) (hk : k ≤ index) (message : Message) (hm : messages[k]? = some message) :=
    hs message <| List.mem_iff_getElem?.mpr ⟨k, by simp [hm, Nat.lt_succ_of_le hk]⟩
  have hends := handleMessages_reaches hlt.le (S := Reached settings messages) (k := 0)
    (fun k hk message hm w h => h.handleMessage hm (hs k hk.le message hm).left
      (hs k hk.le message hm).right |>.imp (fun _ _ h => h.left) fun _ => id)
    (fun w h => handleMessages_handled hm <| h.handleMessage hm (hs index le_rfl message hm).left
      (hs index le_rfl message hm).right |>.imp (fun _ _ h => h.right) fun _ => id)
    (Nat.zero_le index) w h
  exact hends.imp (fun _ _ => id) (fun _ h => h.resolve_right id) |>.after

end Batches

section Disposal

variable [Postgres] [Runtime] [Field R] [LinearOrder R] [FloorRing R] [MathExp R]
         {db : Db R} {n : Nat}

variable (settings : Settings R)

omit [Postgres] in
theorem reconcileOutbox_frame {stream : Stream} {now : Timestamp} {db db' : Db R} {count : Nat}
    (h : (MarTech.reconcileOutbox settings db stream now).1 = .committed db' count) :
    ∃ outbox, db' = { db with eventOutbox := outbox } := by
  have e := reconcileOutbox_committed (Prod.ext h rfl)
  cases e
  case rewriteOutbox outbox => exact ⟨outbox, rfl⟩

omit [Postgres] in
theorem fetch_supplied :
    ⦃fun w => ⌜(Between (settings.workerMaxRetries + 1) w ∧ Unacked 0 w) ∧
      Supplied Fresh (n + 3) w⌝⦄
    Stored.fetch settings
    ⦃post⟨fun messages w => ⌜(At ⟨settings.workerMaxRetries + 1, messages, 0, 0⟩ w ∧ Unacked 0 w) ∧
            Supplied Fresh n w⌝, fun _ _ => ⌜True⌝⟩⦄ := by
  have hP := Between.unaffected (R := R) (settings.workerMaxRetries + 1) |>.and
    (Unacked.lasting 0).toUnaffected
  have htakes : TakesOwn fun a db => (MarTech.reconcileOutbox settings db a.stream a.now).1 := by
    intro a b db db' count hc _ hfresh
    obtain ⟨outbox, rfl⟩ := reconcileOutbox_frame settings hc
    exact hfresh
  have hensure := @call_supplied _ Fresh _ (n + 2) Unit hP
  have hreconcile := @session_supplied _ Fresh _ (n + 1) Nat hP _ (fun _ _ => id) htakes
  have hconsume := @call_supplied _ Fresh _ n (List Message) hP
  mvcgen [Stored.fetch, ensureGroup, reconcileOutbox, consume, observe, hensure, hreconcile, hconsume]
  case vc3.post.success.post.success.pre h => exact ⟨h.left, h.right.left⟩
  case vc4 messages _ h _ =>
    exact ⟨⟨h.left.left.delivered messages, h.left.right.delivered messages⟩, h.right.observe _⟩

omit [Postgres] in
theorem fetch_alone :
    ⦃fun w => ⌜w.Alone ∧ w.db = db⌝⦄ Stored.fetch settings
    ⦃post⟨fun _ w => ⌜w.Alone ∧ Advanced db [] w.db⌝, fun _ _ => ⌜True⌝⟩⦄ := by
  have hadvanced (outbox : Table EventOutbox) : Advanced db [] { db with eventOutbox := outbox } :=
    ⟨fun _ => rfl, fun _ => rfl, fun _ => settled_nil.symm⟩
  have hensure := @call_alone _ (· = db) Unit
  have hreconcile : ⦃fun w => ⌜w.Alone ∧ w.db = db⌝⦄ reconcileOutbox settings
      ⦃post⟨fun _ w => ⌜w.Alone ∧ Advanced db [] w.db⌝, fun _ w => ⌜w.Alone ∧ True⌝⟩⦄ := by
    refine session_alone (Q := (· = db)) (F := fun _ => Advanced db []) (E := fun _ => True)
      (fun _ _ => trivial) ?_ ?_
    case refine_1 =>
      rintro a _ count _ rfl _
      exact hadvanced _
    case refine_2 =>
      rintro a _ db' count _ rfl h
      obtain ⟨outbox, rfl⟩ := reconcileOutbox_frame settings h
      exact ⟨hadvanced outbox, trivial⟩
  have hconsume := @call_alone _ (Advanced db []) (List Message)
  mvcgen [Stored.fetch, ensureGroup, consume, observe, hensure, hreconcile, hconsume]

-- What an iteration has done about the message with that index of the batch that it was delivered.
def Disposed (settings : Settings R) (db : Db R) (awaits : List (Await R)) (index : Nat)
    (message : Message) : Prop :=
  let w := after (Stored.iteration settings |>.run <| .start db awaits)
  .acked index message.1 ∈ w.trace ∧
    (Watch.of w.trace).attempts.count index ≤ settings.workerMaxRetries + 1 ∧
    Durable message.2 (Watch.of w.trace).instants

variable {settings} {awaits : List (Await R)} {messages : List Message} {index : Nat}
         {message : Message} {w : World R}

theorem iteration_run (hf : (Stored.fetch settings).run (.start db awaits) = .ok messages w) :
    (Stored.iteration settings).run (.start db awaits) =
      (Stored.handleMessages settings 0 messages).run w := by
  rw [Stored.iteration, EStateM.run_bind, hf]

theorem disposed_of_handled (hf : (Stored.fetch settings).run (.start db awaits) = .ok messages w)
    (h : Handled (settings.workerMaxRetries + 1) index message
      (after <| Stored.handleMessages settings 0 messages |>.run w)) :
    Disposed settings db awaits index message := by
  rw [Disposed, iteration_run hf]
  exact ⟨h.acked, h.attempts, h.durable⟩

omit [Postgres] in
theorem reached_of_fetched (hf : (Stored.fetch settings).run (.start db awaits) = .ok messages w)
    (hs : Supplied Fresh (messages.length * calls settings + 3) (.start db awaits)) :
    Reached settings messages 0 w := by
  have hstart := Between.start (settings.workerMaxRetries + 1) db awaits
  have hunacked : Unacked 0 (World.start db awaits) :=
    ⟨hstart.current, by simp [World.start]⟩
  have hfetched := Ends.of_triple (fetch_supplied settings) ⟨⟨hstart, hunacked⟩, hs⟩
  rw [hf] at hfetched
  exact ⟨hfetched.left.left, hfetched.right, hfetched.left.right⟩

theorem disposed_iff_unblocked
    (hf : (Stored.fetch settings).run (.start db awaits) = .ok messages w)
    (hs : Supplied Fresh (messages.length * calls settings + 3) (.start db awaits))
    (hm : messages[index]? = some message) (ha : World.Alone (.start db awaits)) :
    Disposed settings db awaits index message ↔ Unblocked db messages index := by
  have hfetched := Ends.of_triple (fetch_alone settings) ⟨ha, rfl⟩
  rw [hf] at hfetched
  have halone : AloneReached settings db messages 0 w :=
    ⟨reached_of_fetched hf hs, hfetched.left, hfetched.right⟩
  constructor
  case mpr => exact fun hu => disposed_of_handled hf (handled_of_unblocked hm halone hu)
  case mp  =>
    intro h
    by_contra hu
    have hunacked := unacked_of_not_unblocked halone hu
    rw [Disposed, iteration_run hf] at h
    exact absurd (hunacked.acks index message.1 h.left) (lt_irrefl index)

-- An iteration in which the calls to the database and to the queue do not raise by themselves disposes
-- of a message of the batch, as long as no other session is open, just if neither the message nor one
-- before it gets stuck. It does so whatever other sessions commit if the database takes all that is in
-- the message and in those before it.
theorem disposed_iff (settings : Settings R) (db : Db R) (awaits : List (Await R))
    (messages : List Message) (w : World R) (index : Nat) (message : Message)
    (hf : (Stored.fetch settings).run (.start db awaits) = .ok messages w)
    (hs : Supplied Fresh (messages.length * calls settings + 3) (.start db awaits))
    (hm : messages[index]? = some message) :
    (World.Alone (.start db awaits) →
      (Disposed settings db awaits index message ↔ Unblocked db messages index)) ∧
    ((∀ message ∈ messages.take (index + 1),
      Postgres.text (payloadEventId message.2) ∧ storable message.2) →
      Disposed settings db awaits index message) :=
  ⟨disposed_iff_unblocked hf hs hm, fun h =>
    disposed_of_handled hf (handled_of_storable hm (reached_of_fetched hf hs) h)⟩

end Disposal

section Calm

variable {db : Db R}

-- Calls that nothing gets in the way of, which are given the keys from `first` on.
def calm (first : Nat) (messages : List Message) (n : Nat) : List (Await R) :=
  List.range' first n |>.map fun dlqId => {
    before   := []
    fault    := none
    now      := 0
    dlqId    := dlqId
    missed   := false
    stream   := ⟨[], 0⟩
    messages := messages }

theorem calm_alone (db : Db R) (first : Nat) (messages : List Message) (n : Nat) :
    World.Alone (.start db (calm first messages n)) := by
  intro a ha
  obtain ⟨dlqId, _, rfl⟩ := List.mem_map.mp ha
  exact ⟨rfl, rfl⟩

theorem calm_supplied {first : Nat} (h : ∀ id ≥ first, db.dlqEvents.get id = none)
    (messages : List Message) (n : Nat) :
    Supplied Fresh n (.start db (calm first messages n)) where
  enough := by simp [World.start, calm]
  fault a ha := by
    obtain ⟨dlqId, _, rfl⟩ := List.mem_map.mp ha
    rfl
  meets a ha db' hdb := by
    obtain ⟨dlqId, hid, rfl⟩ := List.mem_map.mp ha
    cases List.mem_singleton.mp hdb
    exact h dlqId (List.mem_range'_1.mp hid).left
  later := by
    have hnodup : (List.range' first n).Nodup := List.nodup_range'
    exact List.pairwise_map.mpr <| hnodup.imp fun hne => ⟨hne, by simp⟩

theorem exists_first (db : Db R) : ∃ first, ∀ id ≥ first, db.dlqEvents.get id = none := by
  obtain ⟨last, hlast⟩ := (db.dlqEvents.rows.map DLQEvent.id).toFinset.bddAbove
  refine ⟨last + 1, fun id hid => Table.get_eq_none_iff.mpr fun row hr hk => ?_⟩
  have hle : row.id ≤ last := hlast (by simpa using ⟨row, hr, rfl⟩)
  have hk : row.id = id := hk
  omega

theorem session_run {α : Type} {body : Await R → Db R → Outcome R α} {a : Await R}
    {awaits : List (Await R)} {db' : Db R} {trace : List (Observation R)} {x : α}
    (hb : a.before = []) (hf : a.fault = none) (h : body a db = .committed db' x) :
    (session body).run ⟨db, a :: awaits, trace⟩ = .ok x ⟨db', awaits, trace ++ [.tables db']⟩ := by
  have hsuspend : (suspend : Worker R (Await R)).run ⟨db, a :: awaits, trace⟩ =
      .ok a ⟨db, awaits, trace⟩ := by
    have hrun : (suspend : Worker R (Await R)).run ⟨db, a :: awaits, trace⟩ =
        EStateM.run (do commits a.before; return a) ⟨db, awaits, trace⟩ :=
      rfl
    rw [hrun, hb]
    rfl
  simp [session, hsuspend, hf, h, resume, commit]

end Calm

section Example

open EpochDay

-- What PostgreSQL takes among texts and among objects that are not nested.
abbrev flatPostgres : Postgres where
  text s        := '\x00' ∉ s.toList
  jsonb payload := payload.all fun (key, value) =>
    '\x00' ∉ key.toList && value.str?.all ('\x00' ∉ ·.toList)

local instance : Postgres := flatPostgres

-- A message with an id of 129 characters and nothing else.
def longId : Json.Object :=
  [("event_id", .str (String.ofList (.replicate 129 'x')))]

def secondOf (payload : Json.Object) : List Message :=
  [(1, payload), (2, unsubscription.modelDump)]

theorem fetch_calm (messages : List Message) (n : Nat) :
    ∃ w, (Stored.fetch .default).run (.start ingested (calm 1 messages (n + 3))) = .ok messages w := by
  have hc : (MarTech.reconcileOutbox .default ingested ⟨[], 0⟩ 0).1.isCommitted := by decide +kernel
  cases h : (MarTech.reconcileOutbox .default ingested ⟨[], 0⟩ 0).1
  case raised | returned => simp [h, Outcome.isCommitted] at hc
  case committed db count =>
    have hreconcile : (reconcileOutbox .default).run
        ⟨ingested, calm 2 messages (n + 2), [.tables ingested]⟩ =
          .ok count ⟨db, calm 3 messages (n + 1), [.tables ingested, .tables db]⟩ :=
      session_run rfl rfl h
    have hensure : (Stored.fetch .default).run (.start ingested (calm 1 messages (n + 3))) =
        EStateM.run (do let _ ← reconcileOutbox .default; consume)
          ⟨ingested, calm 2 messages (n + 2), [.tables ingested]⟩ := by
      rw [Stored.fetch, EStateM.run_bind]
      rfl
    rw [hensure, EStateM.run_bind, hreconcile]
    exact ⟨_, rfl⟩

theorem calm_supplied_ingested (messages : List Message) (n : Nat) :
    Supplied Fresh n (.start ingested (calm 1 messages n)) :=
  calm_supplied (fun _ _ => rfl) messages n

theorem not_disposable_longId (db : Db ℝ) (h : db.events.get (payloadEventId longId) = none) :
    ¬Disposable db [] longId := by
  rintro ⟨_, hs | hsettled | ⟨body, hb, _⟩⟩
  · have hlength : (payloadEventId longId).length = 129 :=
      String.length_ofList.trans List.length_replicate
    simp only [storable, hlength, eventIdLength, Bool.and_eq_true, decide_eq_true_eq] at hs
    omega
  · simp [isTerminal, h] at hsettled
  · cases hb

-- The second message of a batch is disposed of, unless the first one gets stuck.
theorem disposed_iff_second :
    Disposed .default ingested (calm 1 (secondOf []) 21) 1 (2, unsubscription.modelDump) ∧
    ¬Disposed .default ingested (calm 1 (secondOf longId) 21) 1 (2, unsubscription.modelDump) := by
  obtain ⟨w, hf⟩ := fetch_calm (secondOf []) 18
  obtain ⟨w', hf'⟩ := fetch_calm (secondOf longId) 18
  constructor
  case left =>
    refine disposed_iff .default ingested _ _ w 1 _ hf (calm_supplied_ingested _ _) rfl |>.right ?_
    decide +kernel
  case right =>
    intro h
    have hu := disposed_iff .default ingested _ _ w' 1 _ hf' (calm_supplied_ingested _ _) rfl |>.left
      (calm_alone ingested 1 _ _) |>.mp h
    exact not_disposable_longId ingested (by decide +kernel) (hu 0 (1, longId) (Nat.zero_le 1) rfl)

theorem longId_not_disposed :
    ¬∀ (settings : Settings ℝ) (db : Db ℝ) (awaits : List (Await ℝ)) (messages : List Message)
      (w : World ℝ) (index : Nat) (message : Message),
      (Stored.fetch settings).run (.start db awaits) = .ok messages w →
      Supplied Fresh (messages.length * calls settings + 3) (.start db awaits) →
      messages[index]? = some message → World.Alone (.start db awaits) →
      Disposed settings db awaits index message := by
  intro h
  obtain ⟨w, hf⟩ := fetch_calm [(1, longId)] 9
  have hs := calm_supplied_ingested [(1, longId)] 12
  have ha := calm_alone ingested 1 [(1, longId)] 12
  have hd := h .default ingested _ _ w 0 _ hf hs rfl ha
  have hu := disposed_iff_unblocked hf hs rfl ha |>.mp hd
  exact not_disposable_longId ingested (by decide +kernel) (hu 0 (1, longId) le_rfl rfl)

end Example
end MarTech.Worker
