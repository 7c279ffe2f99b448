import MarTech.Pipeline.Run
import MarTech.Pipeline.RunWorker

namespace MarTech

variable {R : Type}

-- What has been seen since the messages of the current iteration were delivered: the tables at every
-- instant, the attempts, and whether handling a message has raised.
structure Watch (R : Type) where
  messages : List Message
  instants : List (Db R)
  attempts : List Nat
  raised   : Bool

namespace Watch

def start : Watch R where
  messages := []
  instants := []
  attempts := []
  raised   := false

def see (watch : Watch R) : Observation R → Watch R
  | .tables db          => { watch with instants := watch.instants ++ [db] }
  | .delivered messages => {
      messages := messages
      instants := watch.instants.getLast?.toList
      attempts := []
      raised   := false }
  | .attempted index    => { watch with attempts := watch.attempts ++ [index] }
  | .raised _           => { watch with raised := true }
  | .acked ..           => watch

def of (trace : List (Observation R)) : Watch R :=
  trace.foldl see start

@[simp]
theorem of_concat (trace : List (Observation R)) (o : Observation R) :
    of (trace ++ [o]) = (of trace).see o := by
  simp [of]

end Watch

-- A transaction that returned `x` did so on tables that were there at one instant, and what it
-- committed was there at the next.
def Took {α : Type} (body : Db R → Outcome R α) (x : α) (instants : List (Db R)) : Prop :=
  (∃ db ∈ instants, body db = .returned x) ∨
    ∃ earlier db db', instants = earlier ++ [db, db'] ∧ body db = .committed db' x

-- A position in a batch: the index of the message at hand, and the attempts made at it.
structure Place where
  limit    : Nat
  messages : List Message
  index    : Nat
  made     : Nat

namespace Place

def attempted (p : Place) : Place :=
  { p with made := p.made + 1 }

def exhausted (p : Place) : Place :=
  { p with made := p.limit }

def next (p : Place) : Place :=
  { p with index := p.index + 1, made := 0 }

-- How many attempts at the message with index `i` there can have been.
def budget (p : Place) (i : Nat) : Nat :=
  if i < p.index then p.limit else if i = p.index then p.made else 0

variable {p : Place}

theorem budget_le (h : p.made ≤ p.limit) (i : Nat) : p.budget i ≤ p.limit := by
  unfold budget
  split
  case isTrue  => rfl
  case isFalse => split <;> omega

theorem budget_exhausted (h : p.made ≤ p.limit) (i : Nat) : p.budget i ≤ p.exhausted.budget i := by
  unfold budget exhausted
  split
  case isTrue  => rfl
  case isFalse => split <;> omega

theorem budget_next (i : Nat) : p.next.budget i = p.exhausted.budget i := by
  unfold budget exhausted next
  grind

theorem budget_attempted {n i : Nat} (h : n ≤ p.budget i) :
    n + (if p.index = i then 1 else 0) ≤ p.attempted.budget i := by
  unfold budget attempted at *
  grind

end Place

section Unaffected

-- What holds of the worker whatever other sessions commit.
structure Unaffected (P : World R → Prop) : Prop where
  commit  : ∀ w db, P w → P { w with db := db, trace := w.trace ++ [.tables db] }
  suspend : ∀ w awaits, P w → P { w with awaits := awaits }
  current : ∀ w, P w → (Watch.of w.trace).instants.getLast? = some w.db

namespace Unaffected

variable {P : World R → Prop} {w : World R} {α : Type} {body : Db R → Outcome R α} {x : α}

theorem and {Q : World R → Prop} (hP : Unaffected P) (hQ : Unaffected Q) :
    Unaffected fun w => P w ∧ Q w where
  commit w db h      := ⟨hP.commit w db h.left, hQ.commit w db h.right⟩
  suspend w awaits h := ⟨hP.suspend w awaits h.left, hQ.suspend w awaits h.right⟩
  current w h        := hP.current w h.left

theorem returned (hP : Unaffected P) (h : P w) (e : body w.db = .returned x) :
    Took body x (Watch.of w.trace).instants :=
  .inl ⟨w.db, List.mem_of_getLast? (hP.current w h), e⟩

theorem committed (hP : Unaffected P) {db : Db R} (h : P w) (e : body w.db = .committed db x) :
    Took body x (Watch.of (w.trace ++ [.tables db])).instants := by
  obtain ⟨earlier, hl⟩ := List.getLast?_eq_some_iff.mp (hP.current w h)
  exact .inr ⟨earlier, w.db, db, by simp [Watch.see, hl], e⟩

end Unaffected

end Unaffected

variable [Runtime]

-- At some instant the event of the payload was processed or failed, or a dead letter that holds the
-- payload was added.
def Durable (payload : Json.Object) (instants : List (Db R)) : Prop :=
  (∃ db ∈ instants, isTerminal db (payloadEventId payload)) ∨
    ∃ earlier db db' later, instants = earlier ++ db :: db' :: later ∧
      ∃ row ∈ db'.dlqEvents, row ∉ db.dlqEvents ∧ row.payload = payload

section Durable

variable {payload : Json.Object} {now : Timestamp} {db db' : Db R}

theorem Durable.concat {instants : List (Db R)} (h : Durable payload instants) :
    Durable payload (instants ++ [db]) := by
  obtain ⟨db', hm, ht⟩ | ⟨earlier, db', db'', later, rfl, hl⟩ := h
  · exact .inl ⟨db', List.mem_append_left _ hm, ht⟩
  · exact .inr ⟨earlier, db', db'', later ++ [db], by simp, hl⟩

theorem Durable.of_took {body : Db R → Outcome R Unit} {instants : List (Db R)}
    (h : Took body () instants)
    (hr : ∀ db, body db = .returned () → isTerminal db (payloadEventId payload))
    (hc : ∀ db db', body db = .committed db' () → isTerminal db' (payloadEventId payload) ∨
      ∃ row ∈ db'.dlqEvents, row ∉ db.dlqEvents ∧ row.payload = payload) :
    Durable payload instants := by
  cases h
  case inl h =>
    obtain ⟨db, hm, hb⟩ := h
    exact .inl ⟨db, hm, hr db hb⟩
  case inr h =>
    obtain ⟨earlier, db, db', e, hb⟩ := h
    cases hc db db' hb
    case inl ht => exact .inl ⟨db', by simp [e], ht⟩
    case inr hl => exact .inr ⟨earlier, db, db', [], e, hl⟩

omit [Runtime] in
theorem deadLetter_gains {evt : Option Event} {eventId : String} {error : Error}
    {retries dlqId : Nat} (h : db.dlqEvents.get dlqId = none) :
    ∃ row ∈ (deadLetter db evt eventId payload error retries dlqId now).dlqEvents,
      row ∉ db.dlqEvents ∧ row.payload = payload := by
  have hm : ∀ row : DLQEvent, row.id = dlqId → row ∉ db.dlqEvents :=
    fun row e hm => Table.get_eq_none_iff.mp h row hm e
  rw [deadLetter_dlqEvents]
  exact ⟨_, Table.mem_insert h |>.mpr <| .inr rfl, hm _ rfl, rfl⟩

theorem isTerminal_of_failEvent {error : Error} {retries dlqId : Nat}
    (h : MarTech.failEvent db payload error retries dlqId now = .returned ()) :
    isTerminal db (payloadEventId payload) := by
  simp only [MarTech.failEvent] at h
  split at h
  case isTrue ht => exact ht
  case isFalse   => cases h

variable [Field R] [LinearOrder R] [FloorRing R] [MathExp R] {settings : Settings R}

theorem isTerminal_of_returned
    (h : MarTech.processOneEvent settings db payload now = .returned ()) :
    isTerminal db (payloadEventId payload) := by
  simp only [MarTech.processOneEvent] at h
  split at h
  case h_1 => cases h
  case h_2 body hb =>
    split at h
    case h_1 => cases h
    case h_2 evt he =>
      split at h
      case isTrue hs => simpa [isTerminal, payloadEventId_of_modelValidate hb, he] using hs
      case isFalse   => split at h <;> cases h

theorem isTerminal_of_committed
    (h : MarTech.processOneEvent settings db payload now = .committed db' ()) :
    isTerminal db' (payloadEventId payload) := by
  obtain ⟨body, hb, e⟩ := processOneEvent_committed h
  have he := payloadEventId_of_modelValidate hb
  generalize body.eventId = eventId at e he
  cases e
  case applyEvent event _ _ => simp [isTerminal, he, applyEvent_events_get, event]

end Durable

-- When a message may be acknowledged.
def Acknowledgeable (watch : Watch R) (index : Nat) (messageId : MessageId) : Prop :=
  watch.raised = false ∧ ∃ payload, watch.messages[index]? = some (messageId, payload) ∧
    Durable payload watch.instants

-- What is claimed of a trace, given the greatest number of attempts for a delivery.
structure Valid (limit : Nat) (trace : List (Observation R)) : Prop where
  acks     : ∀ t index messageId, t ++ [.acked index messageId] <+: trace →
    Acknowledgeable (.of t) index messageId
  attempts : ∀ t, t <+: trace → ∀ index, (Watch.of t).attempts.count index ≤ limit

theorem Valid.nil {limit : Nat} : Valid (R := R) limit [] where
  acks t _ _ hp   := by simp at hp
  attempts t hp _ := by simp [List.prefix_nil.mp hp, Watch.of, Watch.start]

theorem Valid.concat {limit : Nat} {trace : List (Observation R)} {o : Observation R}
    (h : Valid limit trace)
    (ha : ∀ index messageId, o = .acked index messageId →
      Acknowledgeable (.of trace) index messageId)
    (hc : ∀ index, ((Watch.of trace).see o).attempts.count index ≤ limit) :
    Valid limit (trace ++ [o]) where
  acks t index messageId hp := by
    cases List.prefix_concat_iff.mp hp
    case inl e =>
      obtain ⟨ht, ho⟩ := List.append_inj' e rfl
      exact ht ▸ ha index messageId (List.singleton_inj.mp ho).symm
    case inr hp => exact h.acks t index messageId hp
  attempts t hp index := by
    cases List.prefix_concat_iff.mp hp
    case inl e  => simpa [e] using hc index
    case inr hp => exact h.attempts t hp index

-- Where the worker is between batches.
structure Between (limit : Nat) (w : World R) : Prop where
  valid   : Valid limit w.trace
  current : (Watch.of w.trace).instants.getLast? = some w.db

-- Where the worker is in a batch.
structure At (p : Place) (w : World R) : Prop extends Between p.limit w where
  messages : (Watch.of w.trace).messages = p.messages
  attempts : ∀ i, (Watch.of w.trace).attempts.count i ≤ p.budget i
  raised   : (Watch.of w.trace).raised = false

theorem Between.start (limit : Nat) (db : Db R) (awaits : List (Await R)) :
    Between limit (World.start db awaits) where
  valid   := Valid.nil.concat nofun <| by simp [Watch.of, Watch.see, Watch.start]
  current := by simp [World.start, Watch.of, Watch.see]

theorem Between.unaffected (limit : Nat) : Unaffected (Between (R := R) limit) where
  commit w db h := {
    valid   := h.valid.concat nofun <| by simpa [Watch.see] using h.valid.attempts _ List.prefix_rfl
    current := by simp [Watch.see] }
  suspend _ _ h := { h with }
  current _ h   := h.current

theorem At.unaffected (p : Place) : Unaffected (At (R := R) p) where
  commit w db h := {
    toBetween := Between.unaffected p.limit |>.commit w db h.toBetween
    messages  := by simpa [Watch.see] using h.messages
    attempts  := by simpa [Watch.see] using h.attempts
    raised    := by simpa [Watch.see] using h.raised }
  suspend _ _ h := { h with }
  current _ h   := h.current

theorem Between.raised {limit : Nat} {w : World R} (h : Between limit w) (index : Nat) :
    Between limit { w with trace := w.trace ++ [.raised index] } where
  valid   := h.valid.concat nofun <| by simpa [Watch.see] using h.valid.attempts _ List.prefix_rfl
  current := by simpa [Watch.see] using h.current

theorem Between.delivered {limit : Nat} {w : World R} (h : Between limit w)
    (messages : List Message) :
    At ⟨limit, messages, 0, 0⟩ { w with trace := w.trace ++ [.delivered messages] } where
  valid    := h.valid.concat nofun <| by simp [Watch.see]
  current  := by simp [Watch.see, h.current]
  messages := by simp [Watch.see]
  attempts := by simp [Watch.see]
  raised   := by simp [Watch.see]

namespace At

variable {p : Place} {w : World R}

theorem attempted (h : At p w) (hl : p.made < p.limit) :
    At p.attempted { w with trace := w.trace ++ [.attempted p.index] } := by
  have hc : ∀ i, ((Watch.of w.trace).see (.attempted p.index)).attempts.count i ≤
      p.attempted.budget i := by
    intro i
    simpa [Watch.see, List.count_singleton] using Place.budget_attempted (h.attempts i)
  constructor
  case messages => simpa [Watch.see, Place.attempted] using h.messages
  case attempts => simpa using hc
  case raised   => simpa [Watch.see] using h.raised
  case toBetween =>
    constructor
    case valid   =>
      exact h.valid.concat nofun fun i => (hc i).trans (Place.budget_le (p := p.attempted) hl i)
    case current => simpa [Watch.see] using h.current

theorem exhausted (h : At p w) (hl : p.made ≤ p.limit) : At p.exhausted w where
  toBetween := h.toBetween
  messages  := h.messages
  attempts i := (h.attempts i).trans (Place.budget_exhausted hl i)
  raised    := h.raised

-- A message is acknowledged once it has a durable outcome.
theorem acked {payload : Json.Object} {messageId : MessageId} (h : At p.exhausted w)
    (hd : Durable payload (Watch.of w.trace).instants)
    (hm : p.messages[p.index]? = some (messageId, payload)) :
    At p.next { w with trace := w.trace ++ [.acked p.index messageId] } where
  valid    := by
    refine h.valid.concat ?_ <| by simpa [Watch.see] using h.valid.attempts _ List.prefix_rfl
    intro index id e
    cases e
    exact ⟨h.raised, payload, h.messages ▸ hm, hd⟩
  current  := by simpa [Watch.see] using h.current
  messages := by simpa [Watch.see, Place.next, Place.exhausted] using h.messages
  attempts := by simpa [Watch.see, Place.budget_next] using h.attempts
  raised   := by simpa [Watch.see] using h.raised

end At

end MarTech
