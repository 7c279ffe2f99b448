import MarTech.Pipeline.Decode
import MarTech.Pipeline.Theorems.Disposal

namespace MarTech

variable {R : Type}

-- All that has changed is a dead letter more, under an id of its own.
structure Isolated (db db' : Db R) (messageId : String) : Prop where
  customers        : db'.customers = db.customers
  events           : db'.events = db.events
  engagementScores : db'.engagementScores = db.engagementScores
  letter : ∃ row, row.eventId = malformedId messageId ∧ db.dlqEvents.get row.id = none ∧
    db'.dlqEvents = db.dlqEvents.insert row

section Handling

variable [Runtime] [Field R] [LinearOrder R] [FloorRing R] [MathExp R] {settings : Settings R}
         {payload : Json.Object} {db db' : Db R} {messageId : String}

-- What is handled is isolated just if nothing goes by the id that is dead-lettered, and if that is
-- the id of its own.
theorem Completed.isolated_iff (hc : Completed settings payload db db') :
    Isolated db db' messageId ↔
      db.events.get (payloadEventId payload) = none ∧ payloadEventId payload = malformedId messageId := by
  constructor
  case mp =>
    intro h
    obtain ⟨row, hrow, hfresh, hletter⟩ := h.letter
    have hn : db.events.get (payloadEventId payload) = none := by
      by_contra hsome
      have ht := hc.isTerminal (Option.isSome_iff_ne_none.mpr hsome)
      have ht : MarTech.isTerminal db (payloadEventId payload) := by
        rwa [MarTech.isTerminal, h.events] at ht
      rw [hc.terminal ht] at hletter
      exact Table.insert_ne_self hfresh hletter.symm
    obtain ⟨error, retries, dlqId, now, hfresh', hdb⟩ := hc.absent hn
    rw [hdb, deadLetter_dlqEvents, moveToDlq] at hletter
    have e := Table.insert_injective hfresh' hfresh hletter
    exact ⟨hn, by rw [← hrow, ← e]⟩
  case mpr =>
    rintro ⟨hn, hid⟩
    obtain ⟨error, retries, dlqId, now, hfresh, hdb⟩ := hc.absent hn
    subst hdb
    exact ⟨rfl, rfl, rfl, _, hid, hfresh, rfl⟩

end Handling

section Decoding

variable [Decoding] {entry : Entry}

open Decoding

-- The object that an entry's payload is, if it is one.
def Entry.object? (entry : Entry) : Option Json.Object :=
  match entry.text.map loads with
  | some (.value (.object payload)) => some payload
  | _                               => none

-- What a payload that is no object is replaced by.
def malformed (entry : Entry) (text : String) : Json.Object :=
  [("event_id", .str (malformedId entry.id)), ("raw", .str text)]

-- There is a payload that can be told to be no object, and the database takes what replaces it.
def Entry.Poison [Postgres] [Runtime] (entry : Entry) : Prop :=
  ∃ text ∈ entry.text, loads text ≠ .recursionError ∧
    Postgres.text (malformedId entry.id) ∧ storable (malformed entry text)

theorem decodeEntry_object {payload : Json.Object} (h : entry.object? = some payload) :
    decodeEntry entry = .ok payload := by
  simp only [Entry.object?] at h
  split at h
  case h_2    => cases h
  case h_1 he =>
    cases h
    obtain ⟨text, ht, hl⟩ := Option.map_eq_some_iff.mp he
    simp [decodeEntry, ht, hl]

theorem decodeEntry_text {text : String} (h : entry.object? = none) (ht : entry.text = some text)
    (hl : loads text ≠ .recursionError) : decodeEntry entry = .ok (malformed entry text) := by
  simp only [decodeEntry, ht]
  simp only [Entry.object?, ht, Option.map_some] at h
  split
  case h_1 e => simp [e] at h
  case h_2 e => exact absurd e hl
  case h_3   => rfl

theorem decodeEntry_other (h : ∀ text ∈ entry.text, loads text = .recursionError)
    {payload : Json.Object} (hd : decodeEntry entry = .ok payload) : payload = [] := by
  simp only [decodeEntry] at hd
  split at hd
  case h_1         => cases hd; rfl
  case h_2 text ht => simp [h text ht] at hd

theorem decode_eq_ok {entries : List Entry} {messages : List (String × Json.Object)} :
    decode entries = .ok messages ↔ List.Forall₂
      (fun entry message => message.1 = entry.id ∧ decodeEntry entry = .ok message.2)
      entries messages := by
  induction entries generalizing messages
  case nil =>
    simp only [decode, Except.ok.injEq, List.forall₂_nil_left_iff]
    exact eq_comm
  case cons entry entries hi =>
    rw [List.forall₂_cons_left_iff]
    cases hd : decodeEntry entry
    case error error =>
      have h : decode (entry :: entries) = .error error := by simp [decode, hd, bind, Except.bind]
      simp [h]
    case ok payload =>
      cases hds : decode entries
      case error error =>
        have h : decode (entry :: entries) = .error error := by
          simp [decode, hd, hds, bind, Except.bind]
        rw [h]
        constructor
        case mp =>
          intro e
          cases e
        case mpr =>
          rintro ⟨_, rest, _, hrest, _⟩
          simp [← hi, hds] at hrest
      case ok rest =>
        have h : decode (entry :: entries) = .ok ((entry.id, payload) :: rest) := by
          simp [decode, hd, hds, bind, Except.bind, pure, Except.pure]
        rw [h]
        constructor
        case mp =>
          intro e
          cases e
          exact ⟨_, rest, ⟨rfl, rfl⟩, hi.mp hds, rfl⟩
        case mpr =>
          rintro ⟨message, rest', ⟨hid, hpayload⟩, hrest, rfl⟩
          obtain ⟨id, payload'⟩ := message
          cases hid
          cases hpayload
          cases hds.symm.trans (hi.mpr hrest)
          rfl

end Decoding

section Isolation

variable [Decoding] [Postgres] [Runtime] [Field R] [LinearOrder R] [FloorRing R] [MathExp R]

open Decoding Worker

-- What becomes of an entry whose decoded message is handled with no other session open: the handling
-- isolates it if it returns, as it does with nothing in its way.
def Served (settings : Settings R) (db : Db R) (entry : Entry) (message : String × Json.Object) :
    Prop :=
  message.1 = entry.id ∧
    match entry.object? with
    | some payload => message.2 = payload
    | none =>
      ∀ index awaits, World.Alone (.start db awaits) →
        (∀ w, (Stored.handle settings index message.2).run (.start db awaits) = .ok () w →
          Isolated db w.db entry.id) ∧
        (Supplied Fresh (calls settings) (.start db awaits) →
          ∃ w, (Stored.handle settings index message.2).run (.start db awaits) = .ok () w)

variable {settings : Settings R} {db : Db R} {entry : Entry} {payload : Json.Object}

omit [Decoding] [Field R] [LinearOrder R] [FloorRing R] [MathExp R] in
-- Without an event the handling returns only if the database takes the dead letter.
theorem storable_of_disposable (h : Disposable db [] payload)
    (hn : db.events.get (payloadEventId payload) = none) :
    Postgres.text (payloadEventId payload) ∧ storable payload := by
  obtain ⟨ht, hs | hsettled | ⟨body, hb, evt, he, _⟩⟩ := h
  · exact ⟨ht, hs⟩
  · simp [isTerminal, hn] at hsettled
  · rw [payloadEventId_of_modelValidate hb, he] at hn
    cases hn

theorem served_iff (hd : decodeEntry entry = .ok payload) :
    Served settings db entry (entry.id, payload) ↔ (entry.object? = none →
      entry.Poison ∧ db.events.get (malformedId entry.id) = none) := by
  simp only [Served, true_and]
  split
  case h_1 object ho =>
    have e := hd.symm.trans (decodeEntry_object ho)
    simpa [ho] using e
  case h_2 hn =>
    constructor
    case mp =>
      intro h _
      obtain ⟨first, hfirst⟩ := exists_first db
      have ha := calm_alone db first [] (calls settings)
      have hs := calm_supplied hfirst [] (calls settings)
      obtain ⟨hisolated, hreturns⟩ := h 0 _ ha
      have hdisposable := handle_returns_iff settings payload 0 ha hs |>.mp (hreturns hs)
      obtain ⟨w, hrun⟩ := hreturns hs
      have hc := Stored.handle_completed settings payload ha hrun
      obtain ⟨hnone, hid⟩ := hc.isolated_iff.mp (hisolated w hrun)
      obtain ⟨htext, hstorable⟩ := storable_of_disposable hdisposable hnone
      by_cases hp : ∃ text, entry.text = some text ∧ loads text ≠ .recursionError
      case pos =>
        obtain ⟨text, ht, hl⟩ := hp
        cases hd.symm.trans (decodeEntry_text hn ht hl)
        exact ⟨⟨text, ht, hl, htext, hstorable⟩, hnone⟩
      case neg =>
        push Not at hp
        cases decodeEntry_other hp hd
        have hid : "unknown" = malformedId entry.id := hid
        simpa [malformedId] using congrArg (·.toList.head?) hid
    case mpr =>
      rintro h index awaits ha
      obtain ⟨⟨text, ht, hl, htext, hstorable⟩, hnone⟩ := h hn
      cases hd.symm.trans (decodeEntry_text hn ht hl)
      refine ⟨fun w hrun => ?_, fun hs => handle_returns_iff settings _ index ha hs |>.mpr ?_⟩
      · exact Stored.handle_completed settings _ ha hrun |>.isolated_iff.mpr ⟨hnone, rfl⟩
      · exact ⟨htext, .inl hstorable⟩

omit [Postgres] [Runtime] in
theorem exists_decode {entries : List Entry}
    (h : ∀ entry ∈ entries, ∃ payload, decodeEntry entry = .ok payload) :
    ∃ messages, decode entries = .ok messages := by
  induction entries
  case nil => exact ⟨[], rfl⟩
  case cons entry entries hi =>
    obtain ⟨⟨payload, hd⟩, h⟩ := List.forall_mem_cons.mp h
    obtain ⟨rest, hds⟩ := hi h
    exact ⟨(entry.id, payload) :: rest, by simp [decode, hd, hds, bind, Except.bind, pure, Except.pure]⟩

-- Poison entries are isolated just if they have a payload that can be told to be no object, the
-- database takes what replaces it, and no event goes by the id that is made for them.
theorem poison_isolated_iff (settings : Settings R) (db : Db R) (entries : List Entry) :
    (∃ messages, decode entries = .ok messages ∧ List.Forall₂ (Served settings db) entries messages) ↔
      ∀ entry ∈ entries, entry.object? = none →
        entry.Poison ∧ db.events.get (malformedId entry.id) = none := by
  constructor
  case mp =>
    rintro ⟨messages, hdecode, hserved⟩ entry hentry
    obtain ⟨i, hi⟩ := List.mem_iff_get.mp hentry
    obtain ⟨hlen, hdecoded⟩ := List.forall₂_iff_get.mp <| decode_eq_ok.mp hdecode
    obtain ⟨_, hserved⟩ := List.forall₂_iff_get.mp hserved
    obtain ⟨hid, hd⟩ := hdecoded i i.isLt (hlen ▸ i.isLt)
    have hserved := hserved i i.isLt (hlen ▸ i.isLt)
    generalize messages.get ⟨i, _⟩ = message at hid hd hserved
    obtain ⟨id, payload⟩ := message
    cases hid
    rw [← hi]
    exact served_iff hd |>.mp hserved
  case mpr =>
    intro h
    obtain ⟨messages, hdecode⟩ := exists_decode fun entry hentry => by
      cases ho : entry.object?
      case some payload => exact ⟨payload, decodeEntry_object ho⟩
      case none =>
        obtain ⟨⟨text, ht, hl, _⟩, _⟩ := h entry hentry ho
        exact ⟨_, decodeEntry_text ho ht hl⟩
    refine ⟨messages, hdecode, ?_⟩
    obtain ⟨hlen, hdecoded⟩ := List.forall₂_iff_get.mp <| decode_eq_ok.mp hdecode
    refine List.forall₂_iff_get.mpr ⟨hlen, fun i h₁ h₂ => ?_⟩
    obtain ⟨hid, hd⟩ := hdecoded i h₁ h₂
    have hsound := h _ (List.get_mem entries ⟨i, h₁⟩)
    generalize messages.get ⟨i, h₂⟩ = message at hid hd
    obtain ⟨id, payload⟩ := message
    cases hid
    exact served_iff hd |>.mpr hsound

end Isolation

section Example

open EpochDay

local instance : Postgres := Worker.flatPostgres

-- Python's functions on texts in ASCII that are `{}` or no JSON.
local instance : Decoding where
  loads text          := if text = "{}" then .value (.object []) else .valueError
  decodeReplace bytes := String.ofList <| bytes.map fun b => Char.ofNat b.toNat

-- An entry that the live seeder writes.
def liveDemo : Entry where
  id     := "1-0"
  fields := [
    (.str "event_id", .str "live_demo_0000"), (.str "customer_id", .str "cust_000000"),
    (.str "channel", .str "email"), (.str "event_type", .str "open"),
    (.str "source", .str "live_config_demo")
  ]

example : decode [⟨"1-0", [(.str "payload", .str "{}")]⟩, liveDemo] =
    .ok [("1-0", []), ("1-0", [])] :=
  rfl

-- It is dead-lettered as "unknown".
theorem live_demo_not_isolated :
    ¬∀ (settings : Settings ℝ) (db : Db ℝ) (entries : List Entry), ∃ messages,
      decode entries = .ok messages ∧ List.Forall₂ (Served settings db) entries messages := by
  intro h
  obtain ⟨messages, hdecode, hserved⟩ := h .default seeded.db [liveDemo]
  have hd : decode [liveDemo] = .ok [("1-0", [])] := rfl
  cases hd.symm.trans hdecode
  have hserved : Served .default seeded.db liveDemo (liveDemo.id, []) :=
    List.forall₂_cons.mp hserved |>.left
  have hd : decodeEntry liveDemo = .ok [] := rfl
  obtain ⟨⟨text, ht, _⟩, _⟩ := served_iff hd |>.mp hserved rfl
  cases ht

end Example
end MarTech
