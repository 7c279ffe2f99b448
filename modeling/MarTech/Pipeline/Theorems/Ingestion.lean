import MarTech.Pipeline.Discipline
import MarTech.Pipeline.Receipt

namespace MarTech

variable {R : Type}

-- What a submission does to the tables that the consumer works on.
structure Tables.Ingested (s s' : Tables R) : Prop where
  dlqEvents : s'.db.dlqEvents = s.db.dlqEvents
  events    : ∀ id, s'.db.events.get id = s.db.events.get id ∨
    s.db.events.get id = none ∧ ∃ body : EventIn, s'.db.events.get id = some body.row

-- Each submission that was accepted has a row in both tables, and no other one has.
structure Tables.Recorded [Runtime] (s : Tables R) (verdicts : Verdicts) (s' : Tables R) : Prop where
  events : ∀ id, s'.db.events.rows.filter (·.eventId = id) =
    s.db.events.rows.filter (·.eventId = id) ++ (verdicts.accepted id).map EventIn.row
  outbox : (∀ row ∈ s.db.eventOutbox, s.taken row.id) →
    (∀ row ∈ s'.db.eventOutbox, s'.taken row.id) ∧
    ∀ id, (s'.db.eventOutbox.rows.filter (·.eventId = id)).map (·.payload) =
      (s.db.eventOutbox.rows.filter (·.eventId = id)).map (·.payload) ++
        (verdicts.accepted id).map EventIn.modelDump

-- What submissions have inserted so far. An `INSERT` whose key is taken does nothing.
structure Draft where
  customers : List Customer
  events    : List Event
  outbox    : List EventOutbox

namespace Draft

def empty : Draft where
  customers := []
  events    := []
  outbox    := []

def apply (d : Draft) (s : Tables R) : Tables R where
  db := { s.db with
    customers   := s.db.customers.insertAll d.customers
    events      := s.db.events.insertAll d.events
    eventOutbox := s.db.eventOutbox.insertAll d.outbox }
  drawn := (d.outbox.map fun row => (row.eventId, row.id)).reverse ++ s.drawn

def addCustomer (d : Draft) (customerId : String) (now : Timestamp) : Draft :=
  { d with customers := d.customers ++ [.new customerId now] }

def addEvent (d : Draft) (body : EventIn) : Draft :=
  { d with events := d.events ++ [body.row] }

def addOutbox (d : Draft) (row : EventOutbox) : Draft :=
  { d with outbox := d.outbox ++ [row] }

variable {d : Draft}

theorem apply_addCustomer (customerId : String) (now : Timestamp) :
    (d.addCustomer customerId now).apply =
      Tables.modify (R := R) (ensureCustomer · customerId now) ∘ d.apply := by
  funext s
  simp [apply, addCustomer, Tables.modify, ensureCustomer, Table.insertAll_concat]

theorem apply_addEvent (body : EventIn) :
    (d.addEvent body).apply =
      Tables.modify (R := R) (fun db => { db with events := db.events.insert body.row }) ∘
        d.apply := by
  funext s
  simp [apply, addEvent, Tables.modify, Table.insertAll_concat]

theorem apply_addOutbox (eventId : String) (payload : Json.Object) (id : Nat) (now : Timestamp) :
    (d.addOutbox ⟨id, eventId, payload, now, none, none⟩).apply =
      Tables.enqueueOutbox (R := R) eventId payload id now ∘ d.apply := by
  funext s
  simp [apply, addOutbox, Tables.enqueueOutbox, enqueueOutbox, Table.insertAll_concat]

theorem taken_apply {s : Tables R} {id : Nat} :
    (d.apply s).taken id ↔ id ∈ d.outbox.map (·.id) ∨ s.taken id := by
  simp [apply, Tables.taken]

theorem event_taken {s : Tables R} {eventId : String}
    (ht : ((d.apply s).db.events.get eventId).isSome) :
    (s.db.events.get eventId).isSome ∨ ∃ evt ∈ d.events, evt.eventId = eventId := by
  simp only [apply, Table.get_insertAll, Option.isSome_or, Bool.or_eq_true] at ht
  refine ht.imp_right fun ht => ?_
  obtain ⟨evt, hf⟩ := Option.isSome_iff_exists.mp ht
  exact ⟨evt, List.mem_of_find?_eq_some hf, by simpa using List.find?_some hf⟩

structure Well (d : Draft) : Prop where
  events : ∀ evt ∈ d.events, ∃ body : EventIn, evt = body.row
  ids    : (d.outbox.map (·.id)).Nodup

namespace Well

theorem empty : Draft.empty.Well where
  events := nofun
  ids    := List.nodup_nil

theorem addCustomer (h : d.Well) (customerId : String) (now : Timestamp) :
    (d.addCustomer customerId now).Well where
  events := h.events
  ids    := h.ids

theorem addEvent (h : d.Well) (body : EventIn) : (d.addEvent body).Well where
  events evt hm := by
    cases List.mem_append.mp hm
    case inl hm => exact h.events evt hm
    case inr hm => exact ⟨body, List.mem_singleton.mp hm⟩
  ids := h.ids

theorem addOutbox (h : d.Well) (row : EventOutbox) (hn : row.id ∉ d.outbox.map (·.id)) :
    (d.addOutbox row).Well where
  events := h.events
  ids    := by
    rw [Draft.addOutbox, List.map_append, List.nodup_append]
    refine ⟨h.ids, List.nodup_singleton _, fun a ha b hb => ?_⟩
    cases List.mem_singleton.mp hb
    rintro rfl
    exact hn ha

-- An event that was not there before is pending, with the fields of a submission.
theorem ingested (h : d.Well) (s : Tables R) : s.Ingested (d.apply s) where
  dlqEvents := rfl
  events id := by
    simp only [apply, Table.get_insertAll]
    cases hg : s.db.events.get id
    case some => exact .inl rfl
    case none =>
      cases hf : d.events.find? (Keyed.key · = id)
      case none => exact .inl (by simp)
      case some evt =>
        obtain ⟨body, e⟩ := h.events evt (List.mem_of_find?_eq_some hf)
        exact .inr ⟨rfl, body, by simp [e]⟩

end Well

-- What is known while the draft is not committed. `loose` are the events whose outbox row is still
-- to come.
structure Fits (d : Draft) (held : List Lock) (loose : List String) (s : Tables R) : Prop where
  customers : ∀ c ∈ d.customers, .customer c.id ∈ held ∨ (s.db.customers.get c.id).isSome
  events    : ∀ evt ∈ d.events, .event evt.eventId ∈ held ∨ (s.db.events.get evt.eventId).isSome
  outbox    : ∀ row ∈ d.outbox, .outbox row.id ∈ held ∧ s.taken row.id = false
  covered   : ∀ evt ∈ d.events, evt.eventId ∉ loose →
    (s.db.events.get evt.eventId).isSome ∨ ∃ row ∈ d.outbox, row.eventId = evt.eventId

namespace Fits

variable {held held' : List Lock} {loose : List String} {s : Tables R}

theorem mono (h : d.Fits held loose s) (hl : held ⊆ held') : d.Fits held' loose s where
  customers c hm := h.customers c hm |>.imp_left (hl ·)
  events evt hm  := h.events evt hm |>.imp_left (hl ·)
  outbox row hm  := h.outbox row hm |>.imp_left (hl ·)
  covered        := h.covered

theorem stable {closed : Prop} :
    (discipline closed).Stable held (d.Fits (R := R) held loose) := by
  intro s s' hg ha h
  constructor
  case customers => exact fun c hm => h.customers c hm |>.imp_right (ha.customers c.id)
  case events    => exact fun evt hm => h.events evt hm |>.imp_right (ha.events evt.eventId)
  case outbox =>
    intro row hm
    obtain ⟨hl, ht⟩ := h.outbox row hm
    have := hg _ hl
    exact ⟨hl, this.trans ht⟩
  case covered => exact fun evt hm hn => h.covered evt hm hn |>.imp_left (ha.events evt.eventId)

theorem empty : Draft.empty.Fits held loose s where
  customers := nofun
  events    := nofun
  outbox    := nofun
  covered   := nofun

-- A key that the draft finds taken is taken by a committed row, or the draft holds it.
theorem customer_taken (h : d.Fits held loose s) {customerId : String}
    (ht : ((d.apply s).db.customers.get customerId).isSome) :
    .customer customerId ∈ held ∨ (s.db.customers.get customerId).isSome := by
  simp only [apply, Table.get_insertAll, Option.isSome_or, Bool.or_eq_true] at ht
  cases ht
  case inl ht => exact .inr ht
  case inr ht =>
    obtain ⟨c, hf⟩ := Option.isSome_iff_exists.mp ht
    have e : c.id = customerId := by simpa using List.find?_some hf
    exact e ▸ h.customers c (List.mem_of_find?_eq_some hf)

theorem addCustomer (h : d.Fits held loose s) (customerId : String) (now : Timestamp) :
    (d.addCustomer customerId now).Fits (held ++ if ((d.apply s).db.customers.get customerId).isSome
      then [] else [.customer customerId]) loose s := by
  have h' := h.mono (List.subset_append_left held
    (if ((d.apply s).db.customers.get customerId).isSome then [] else [.customer customerId]))
  refine { h' with customers := fun c hm => ?_ }
  cases List.mem_append.mp hm
  case inl hm => exact h'.customers c hm
  case inr hm =>
    cases List.mem_singleton.mp hm
    cases ht : ((d.apply s).db.customers.get customerId).isSome
    case false => exact .inl (by simp [Customer.new])
    case true  => exact h.customer_taken ht |>.imp_left fun hl => by simpa [Customer.new] using hl

theorem addEvent (h : d.Fits held loose s) (body : EventIn) :
    (d.addEvent body).Fits (held ++ if ((d.apply s).db.events.get body.eventId).isSome
      then [] else [.event body.eventId]) (body.eventId :: loose) s := by
  have h' := h.mono (List.subset_append_left held
    (if ((d.apply s).db.events.get body.eventId).isSome then [] else [.event body.eventId]))
  refine { h' with events := fun evt hm => ?_, covered := fun evt hm hn => ?_ }
  case refine_1 =>
    cases List.mem_append.mp hm
    case inl hm => exact h'.events evt hm
    case inr hm =>
      cases List.mem_singleton.mp hm
      cases ht : ((d.apply s).db.events.get body.eventId).isSome
      case false => exact .inl (by simp [EventIn.row])
      case true  =>
        cases event_taken ht
        case inl ht => exact .inr ht
        case inr ht =>
          obtain ⟨evt, hm, e⟩ := ht
          have : body.row.eventId = evt.eventId := e.symm
          simpa [this] using h.events evt hm
  case refine_2 =>
    obtain ⟨hne, hn⟩ : evt.eventId ≠ body.eventId ∧ evt.eventId ∉ loose := by simpa using hn
    cases List.mem_append.mp hm
    case inl hm => exact h.covered evt hm hn
    case inr hm => exact absurd (List.mem_singleton.mp hm ▸ rfl) hne

-- No outbox row is missing for an event that was there.
theorem addDuplicate (h : d.Fits held [] s) {body : EventIn}
    (ht : ((d.apply s).db.events.get body.eventId).isSome)
    (h' : (d.addEvent body).Fits held' [body.eventId] s) : (d.addEvent body).Fits held' [] s := by
  refine { h' with covered := fun evt hm _ => ?_ }
  by_cases e : evt.eventId = body.eventId
  case neg => exact h'.covered evt hm (by simpa using e)
  case pos =>
    rw [e]
    cases event_taken ht
    case inl ht => exact .inl ht
    case inr ht =>
      obtain ⟨evt', hm', e'⟩ := ht
      exact e' ▸ h.covered evt' hm' (by simp)

theorem addOutbox (row : EventOutbox) (h : d.Fits held [row.eventId] s)
    (hf : s.taken row.id = false) :
    (d.addOutbox row).Fits (held ++ [.outbox row.id]) [] s := by
  have h' := h.mono (List.subset_append_left held [.outbox row.id])
  refine { h' with outbox := fun r hm => ?_, covered := fun evt hm _ => ?_ }
  case refine_1 =>
    cases List.mem_append.mp hm
    case inl hm => exact h'.outbox r hm
    case inr hm =>
      cases List.mem_singleton.mp hm
      exact ⟨by simp, hf⟩
  case refine_2 =>
    by_cases e : evt.eventId = row.eventId
    case pos => exact .inr ⟨row, by simp [Draft.addOutbox], e.symm⟩
    case neg =>
      refine h.covered evt hm (by simpa using e) |>.imp_right fun ⟨r, hm, e⟩ => ?_
      exact ⟨r, by simp [Draft.addOutbox, hm], e⟩

theorem enqueues (h : d.Fits held [] s) (hw : d.Well) :
    s.Enqueues (d.outbox.map fun row => (row.eventId, row.id)).reverse (d.apply s) := by
  constructor
  case drawn => rfl
  case fresh =>
    intro p hm
    obtain ⟨row, hm, e⟩ := List.mem_map.mp (List.mem_reverse.mp hm)
    exact e ▸ (h.outbox row hm).right
  case kept => exact fun row hm => Table.mem_insertAll_of_mem hm
  case only =>
    intro row hm
    refine Table.of_mem_insertAll hm |>.imp_right fun ⟨_, hm⟩ => ⟨(row.eventId, row.id), ?_, rfl⟩
    exact List.mem_reverse.mpr (List.mem_map.mpr ⟨row, hm, rfl⟩)
  case rows =>
    intro hc p hm
    obtain ⟨row, hm, e⟩ := List.mem_map.mp (List.mem_reverse.mp hm)
    have hn := hc.get_of_fresh (h.outbox row hm).right
    exact ⟨row, Table.mem_insertAll hw.ids hm hn, by rw [← e], by rw [← e]⟩
  case pending =>
    intro evt hm _
    refine Table.of_mem_insertAll hm |>.imp_right fun ⟨hn, hm⟩ => ?_
    obtain ⟨row, hm, e⟩ := (h.covered evt hm (by simp)).resolve_left (by simp_all)
    exact ⟨(row.eventId, row.id), List.mem_reverse.mpr (List.mem_map.mpr ⟨row, hm, rfl⟩), e⟩

theorem permits (h : d.Fits held [] s) (hw : d.Well) :
    (discipline False).Permits held s (d.apply s) := by
  constructor
  case guarded =>
    intro l hl
    cases l
    case event id =>
      simp only [discipline, apply, Table.get_insertAll]
      cases hg : s.db.events.get id
      case some => rfl
      case none =>
        refine List.find?_eq_none.mpr fun evt hm => ?_
        simp only [Event.key_eq, decide_eq_true_eq]
        rintro rfl
        exact (h.events evt hm).elim hl (by simp [hg])
    case customer id =>
      refine ⟨?_, rfl⟩
      simp only [apply, Table.get_insertAll]
      cases hg : s.db.customers.get id
      case some => rfl
      case none =>
        refine List.find?_eq_none.mpr fun c hm => ?_
        simp only [Customer.key_eq, decide_eq_true_eq]
        rintro rfl
        exact (h.customers c hm).elim hl (by simp [hg])
    case engagement => trivial
    case letter     => rfl
    case outbox id =>
      simp only [discipline]
      rw [Bool.eq_iff_iff, taken_apply]
      refine ⟨fun ht => ht.resolve_left fun hm => ?_, .inr⟩
      obtain ⟨row, hm, e⟩ := List.mem_map.mp hm
      exact hl (e ▸ (h.outbox row hm).left)
  case always =>
    constructor
    case events    => simp +contextual [apply, Table.get_insertAll]
    case customers => simp +contextual [apply, Table.get_insertAll]
    case letters   => exact fun id row hr => ⟨row, hr, rfl⟩
    case covered   => exact (h.enqueues hw).covered
    case clear     => exact fun _ => (h.enqueues hw).clear
    case closed    => exact False.elim

end Fits
end Draft

namespace Draft

variable {d : Draft} {verdicts : Verdicts} {held : List Lock} {loose : List String} {s : Tables R}

section Tally

-- The events that the draft adds to the tables are those of the accepted submissions.
def Tallied (d : Draft) (verdicts : Verdicts) (s : Tables R) : Prop :=
  ∀ id, ((d.apply s).db.events.get id).toList =
    (s.db.events.get id).toList ++ (verdicts.accepted id).map EventIn.row

theorem Tallied.empty : Draft.empty.Tallied [] s :=
  fun _ => (List.append_nil _).symm

-- Another transaction could only change this by committing an event of the draft, whose key is held.
theorem Fits.tallied_stable :
    (discipline False).Stable held
      fun s : Tables R => d.Fits held loose s ∧ d.Tallied verdicts s := by
  rintro s s' hg ha ⟨hf, ht⟩
  refine ⟨Fits.stable s s' hg ha hf, fun id => ?_⟩
  have ht := ht id
  simp only [apply, Table.get_insertAll] at ht ⊢
  cases h : s.db.events.get id
  case some evt =>
    have haccepted : verdicts.accepted id = [] := by simpa [h] using ht
    obtain ⟨_, h'⟩ := Option.isSome_iff_exists.mp (ha.events id (by simp [h]))
    simp [h', haccepted]
  case none =>
    simp only [h, Option.none_or, Option.toList_none, List.nil_append] at ht
    cases hd : d.events.find? (Keyed.key · = id)
    case none => simp [← ht, -Event.key_eq, hd]
    case some evt =>
      have e : evt.eventId = id := by simpa using List.find?_some hd
      have hheld := (hf.events evt (List.mem_of_find?_eq_some hd)).resolve_right (by simp [e, h])
      have hsame : s'.db.events.get id = s.db.events.get id := hg (.event id) (e ▸ hheld)
      simp [hsame, h, ← ht, -Event.key_eq, hd]

theorem Tallied.addDuplicate (h : d.Tallied verdicts s) {body : EventIn}
    (ht : ((d.apply s).db.events.get body.eventId).isSome) :
    (d.addEvent body).Tallied (verdicts ++ [(body, .duplicate)]) s := by
  intro id
  have hinsert : (d.apply s).db.events.insert body.row = (d.apply s).db.events :=
    Table.insert_of_isSome ht
  have happly := congrArg (fun s : Tables R => s.db.events) <|
    congrFun (apply_addEvent (R := R) (d := d) body) s
  simp only [Function.comp, Tables.modify, hinsert] at happly
  rw [happly, h id, Verdicts.accepted_append]
  simp [Verdicts.accepted]

theorem Tallied.addAccepted (h : d.Tallied verdicts s) {body : EventIn}
    (ht : (d.apply s).db.events.get body.eventId = none) :
    (d.addEvent body).Tallied (verdicts ++ [(body, .accepted)]) s := by
  intro id
  have happly := congrArg (fun s : Tables R => s.db.events.get id) <|
    congrFun (apply_addEvent (R := R) (d := d) body) s
  simp only [Function.comp, Tables.modify] at happly
  have hkey : Keyed.key body.row = body.eventId := rfl
  rw [happly, Table.get_insert_of_none (r := body.row) ht, Verdicts.accepted_append, hkey,
    List.map_append, ← List.append_assoc, ← h id]
  split
  case isTrue e  => simp [← e, ht, Verdicts.accepted]
  case isFalse e => simp [e, Verdicts.accepted]

theorem Tallied.reject (h : d.Tallied verdicts s) (body : EventIn) :
    d.Tallied (verdicts ++ [(body, .rejected)]) s := by
  intro id
  rw [h id, Verdicts.accepted_append]
  simp [Verdicts.accepted]

variable [Runtime]

-- So are the rows that it adds to the outbox.
def Posted (d : Draft) (verdicts : Verdicts) : Prop :=
  ∀ id, (d.outbox.filter (·.eventId = id)).map (·.payload) =
    (verdicts.accepted id).map EventIn.modelDump

namespace Posted

theorem empty : Draft.empty.Posted [] :=
  fun _ => rfl

theorem append (h : d.Posted verdicts) (body : EventIn) {verdict : Verdict}
    (hv : verdict ≠ .accepted) : d.Posted (verdicts ++ [(body, verdict)]) := by
  intro id
  rw [h id, Verdicts.accepted_append]
  simp [Verdicts.accepted, hv]

theorem addOutbox (h : d.Posted verdicts) (body : EventIn) (outboxId : Nat) (now : Timestamp) :
    (d.addOutbox ⟨outboxId, body.eventId, body.modelDump, now, none, none⟩).Posted
      (verdicts ++ [(body, .accepted)]) := by
  intro id
  rw [Verdicts.accepted_append, List.map_append, ← h id]
  by_cases e : body.eventId = id <;> simp [Draft.addOutbox, Verdicts.accepted, e]

end Posted

theorem Fits.recorded (h : d.Fits held [] s) (hw : d.Well) (ht : d.Tallied verdicts s)
    (hp : d.Posted verdicts) : s.Recorded verdicts (d.apply s) where
  events id := by
    have hkey (t : Table Event) : t.rows.filter (·.eventId = id) = (t.get id).toList :=
      t.filter_key id
    rw [hkey, hkey, ht id]
  outbox hs := by
    have hrows : (d.apply s).db.eventOutbox.rows = s.db.eventOutbox.rows ++ d.outbox := by
      refine Table.rows_insertAll hw.ids fun row hm => Table.get_eq_none_iff.mpr fun row' hm' e => ?_
      have e : row'.id = row.id := e
      have := hs row' hm'
      simp [e, (h.outbox row hm).right] at this
    constructor
    case left =>
      intro row hm
      have hm : row ∈ (d.apply s).db.eventOutbox.rows := hm
      rw [hrows, List.mem_append] at hm
      exact taken_apply.mpr <| hm.symm.imp (List.mem_map_of_mem ·) (hs row)
    case right =>
      intro id
      rw [hrows, List.filter_append, List.map_append, hp id]

end Tally
end Draft

open Discipline Transaction

variable [Runtime] {held : List Lock} {saved : Point (Tables R) Lock} {P₀ : Tables R → Prop}

-- What is known of a draft between two submissions.
structure Draft.Settled (d : Draft) (verdicts : Verdicts) : Prop where
  well   : d.Well
  posted : d.Posted verdicts

theorem persistOne_safe {ο : Type} {spec : ο → Tables R → Tables R → Prop} {d : Draft}
    {verdicts : Verdicts} (body : EventIn) (fault : Option PersistStatement) (outboxId : Nat)
    (now : Timestamp) {next : Except Error PersistOutcome → Program (Tables R) Lock ο}
    (hd : d.Settled verdicts)
    (herr : ∀ error point P, (discipline False).Safe spec (next (.error error)) point saved P P₀)
    (hok : ∀ (outcome : PersistOutcome) d' held',
      let verdicts' := verdicts ++ [(body, outcome.verdict)]
      Draft.Settled d' verdicts' →
      (discipline False).Safe spec (next (.ok outcome)) ⟨held', d'.apply⟩ saved
        (fun s => d'.Fits held' [] s ∧ d'.Tallied verdicts' s) P₀) :
    (discipline False).Safe spec (Transaction.persistOne body fault outboxId now next)
      ⟨held, d.apply⟩ saved (fun s => d.Fits held [] s ∧ d.Tallied verdicts s) P₀ := by
  unfold Transaction.persistOne
  split
  case isTrue  => exact herr ..
  case isFalse =>
    rintro s ⟨hs, ht⟩
    have ht : (d.addCustomer body.customerId now).Tallied verdicts s := ht
    refine ⟨_, ⟨hs.addCustomer body.customerId now, ht⟩, Draft.Fits.tallied_stable, ?_⟩
    split
    case isTrue  => exact herr ..
    case isFalse =>
      rw [← Draft.apply_addCustomer]
      rintro s ⟨hs, ht⟩
      have hw : ((d.addCustomer body.customerId now).addEvent body).Well :=
        hd.well.addCustomer _ now |>.addEvent body
      cases hg : ((d.addCustomer body.customerId now).apply s).db.events.get body.eventId
      case some evt =>
        have hsome : (((d.addCustomer body.customerId now).apply s).db.events.get body.eventId).isSome := by
          simp [hg]
        refine ⟨_, ⟨hs.addDuplicate hsome (hs.addEvent body), ht.addDuplicate hsome⟩,
          Draft.Fits.tallied_stable, ?_⟩
        simp only [hg, Option.isSome_some, if_true]
        rw [← Draft.apply_addEvent]
        exact hok .duplicate _ _ ⟨hw, hd.posted.append body (by decide)⟩
      case none =>
        refine ⟨_, ⟨hs.addEvent body, ht.addAccepted hg⟩, Draft.Fits.tallied_stable, ?_⟩
        simp only [hg, Option.isSome_none, Bool.false_eq_true, if_false]
        rw [← Draft.apply_addEvent]
        apply insertOutbox_safe Draft.Fits.tallied_stable
        case hw => exact fun s ht => Draft.taken_apply.mpr (.inr ht)
        case hn => exact herr ..
        case h =>
          rintro held' hheld' ⟨s', _, hfresh⟩ _
          let row : EventOutbox := ⟨outboxId, body.eventId, body.modelDump, now, none, none⟩
          rw [← Draft.apply_addOutbox]
          refine hok .accepted _ _ ⟨hw.addOutbox row ?_, hd.posted.addOutbox body outboxId now⟩
            |>.imp ?_ fun _ h => h
          case refine_1 =>
            intro hm
            have := Draft.taken_apply (s := s').mpr (.inl hm)
            exact absurd (hfresh.symm.trans this) (by simp)
          case refine_2 =>
            rintro s ⟨⟨hs, ht⟩, hf⟩
            exact ⟨hheld' ▸ hs.addOutbox row hf, ht⟩

-- What the commit of a submission does, and what its receipt says about it.
structure Submission.Spec (submission : Submission) (receipt : Receipt) (s s' : Tables R) : Prop where
  answers  : submission.Answers receipt
  recorded : s.Recorded receipt.verdicts s'
  ingested : s.Ingested s'

theorem Receipt.ingestEvent_safe (body : EventIn) (fault : Option PersistStatement) (outboxId : Nat)
    (now : Timestamp) :
    (discipline False).Safe (Submission.ingestEvent body fault outboxId now).Spec
      (Receipt.ingestEvent (R := R) body fault outboxId now) .start saved (fun _ => True) P₀ := by
  unfold Receipt.ingestEvent
  apply Safe.imp (P := fun s => Draft.Fits .empty [] [] s ∧ Draft.Tallied .empty [] s)
    (fun _ _ => ⟨.empty, .empty⟩) (fun _ h => h)
  apply persistOne_safe body fault outboxId now ⟨.empty, .empty⟩
  case herr => exact fun _ _ _ => trivial
  case hok =>
    intro outcome d held verdicts hd
    simp only
    split
    case isTrue  => trivial
    case isFalse =>
      rintro s ⟨hs, ht⟩
      exact ⟨⟨⟨outcome, rfl⟩, hs.recorded hd.well ht hd.posted, hd.well.ingested s⟩,
        hs.permits hd.well⟩

theorem Receipt.ingestItems_safe (outboxIds : Nat → Nat) (now : Timestamp) (done items : List BatchItem)
    {d : Draft} {verdicts : Verdicts} (hd : d.Settled verdicts)
    (hv : verdicts.map (·.1) = done.map (·.body)) :
    (discipline False).Safe (Submission.ingestBatch (done ++ items) outboxIds now).Spec
      (Receipt.ingestItems (R := R) outboxIds now (items.zipIdx verdicts.length) (.of verdicts)
        verdicts)
      ⟨held, d.apply⟩ saved (fun s => d.Fits held [] s ∧ d.Tallied verdicts s) P₀ := by
  induction items generalizing d held verdicts done saved P₀
  case nil =>
    rintro s ⟨hs, ht⟩
    exact ⟨⟨⟨rfl, by simp [hv]⟩, hs.recorded hd.well ht hd.posted, hd.well.ingested s⟩,
      hs.permits hd.well⟩
  case cons item items hi =>
    have hnext (verdict : Verdict) :
        List.map (·.1) (verdicts ++ [(item.body, verdict)]) = (done ++ [item]).map (·.body) := by
      simp [hv]
    have hlength (verdict : Verdict) :
        verdicts.length + 1 = (verdicts ++ [(item.body, verdict)]).length := by
      simp
    have hreject {saved P₀} : (discipline False).Safe
        (Submission.ingestBatch (done ++ item :: items) outboxIds now).Spec
        (Receipt.ingestItems (R := R) outboxIds now (items.zipIdx (verdicts.length + 1))
          ((BatchEventOut.of verdicts).reject verdicts.length item.body)
          (verdicts ++ [(item.body, .rejected)]))
        ⟨held, d.apply⟩ saved (fun s => d.Fits held [] s ∧ d.Tallied verdicts s) P₀ := by
      rw [hlength .rejected, List.append_cons, ← BatchEventOut.of_append_rejected]
      have hd : d.Settled (verdicts ++ [(item.body, .rejected)]) :=
        ⟨hd.well, hd.posted.append item.body (by decide)⟩
      exact hi _ hd (hnext _) |>.imp (fun s h => ⟨h.left, h.right.reject item.body⟩) fun _ h => h
    rw [List.zipIdx_cons]
    apply persistOne_safe item.body item.fault (outboxIds (BatchEventOut.of verdicts).accepted) now hd
    case herr => exact fun _ _ _ => hreject
    case hok =>
      intro outcome d' held' verdicts' hd'
      simp only
      split
      case isTrue  => exact hreject
      case isFalse =>
        rw [hlength outcome.verdict, List.append_cons, ← BatchEventOut.of_append]
        exact hi _ hd' (hnext _)

-- However it ends, a submission is safe.
theorem Submission.safe (submission : Submission) :
    (discipline False).Safe submission.Spec (submission.receipt (R := R)) .start saved
      (fun _ => True) P₀ := by
  cases submission
  case ingestEvent body fault outboxId now => exact Receipt.ingestEvent_safe body fault outboxId now
  case ingestBatch items outboxIds now =>
    have hd : Draft.empty.Settled [] := ⟨.empty, .empty⟩
    exact Receipt.ingestItems_safe outboxIds now [] items hd rfl |>.imp
      (fun _ _ => ⟨.empty, .empty⟩) fun _ h => h

theorem Submission.transaction_safe (submission : Submission) :
    (discipline False).Safe (fun _ s s' => s.Ingested s') (submission.transaction (R := R)) .start
      saved (fun _ => True) P₀ := by
  rw [← submission.map_receipt]
  exact submission.safe.map fun _ _ _ h => h.ingested

end MarTech
