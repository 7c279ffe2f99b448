import MarTech.Api.Customers
import MarTech.Api.Listing
import MarTech.Pipeline.Theorems.History
import MarTech.Pipeline.Theorems.Wire

namespace MarTech

section Kept

variable {R : Type} [Field R] [LinearOrder R] [FloorRing R] [MathExp R] [Runtime]
         {settings : Settings R} {db db' : Db R} {ls : List Label}

namespace Effects

theorem customers_kept (e : Effects settings db ls db') {id : String}
    (h : (db.customers.get id).isSome) : (db'.customers.get id).isSome := by
  induction e
  case refl        => exact h
  case step e _ hi => exact hi (e.customers_kept h)

theorem letters_kept (e : Effects settings db ls db') {id : Nat} {row : DLQEvent}
    (h : db.dlqEvents.get id = some row) :
    ∃ row', db'.dlqEvents.get id = some row' ∧ row' = { row with replayedAt := row'.replayedAt } := by
  induction e generalizing row
  case refl        => exact ⟨row, h, rfl⟩
  case step e _ hi =>
    obtain ⟨_, h', e'⟩ := e.letters_kept h
    obtain ⟨row'', h'', e''⟩ := hi h'
    exact ⟨row'', h'', by rw [e'', e']⟩

end Effects

variable (settings) (w : Workers R) (between : Nat → List Workers.Happening)

-- The tables as a client finds them who asks again and again, while the system goes on in between.
def Workers.dbAt (k : Nat) : Db R :=
  (w.history settings <| (List.range (k + 1)).flatMap between).db

theorem Workers.dbAt_effects {i j : Nat} (h : i ≤ j) :
    ∃ ls, Effects settings (w.dbAt settings between i) ls (w.dbAt settings between j) := by
  induction j, h using Nat.le_induction
  case base        => exact ⟨_, .refl⟩
  case succ j _ hi =>
    obtain ⟨ls, e⟩ := hi
    obtain ⟨ls', e'⟩ := (w.history settings <| (List.range (j + 1)).flatMap between).history_effects
      settings (between (j + 1))
    refine ⟨ls ++ ls', e.trans ?_⟩
    rw [dbAt, dbAt, List.range_succ (n := j + 1), List.flatMap_append, List.flatMap_singleton,
      history_append]
    exact e'

end Kept

section Pages

variable {R κ : Type} [Field R] [LinearOrder R] [FloorRing R] [MathExp R] [Runtime] [LinearOrder κ]
         {settings : Settings R} {w : Workers R} {between : Nat → List Workers.Happening} {n : Nat}

-- An event as the timeline shows it.
def Event.out (evt : Event) : EventOut where
  eventId   := evt.eventId
  channel   := evt.channel
  eventType := evt.eventType
  timestamp := evt.timestamp
  metadata  := evt.metadata

-- A page of the timeline takes two queries, one for the customer and one for the events.
theorem timeline_shown (ho : (w.dbAt settings between 0).Owned) (e : Evaluation Event.latestFirst)
    {limit : Nat} {evt : Event} (hevt : evt ∈ (w.dbAt settings between 0).events)
    (hunique : ∀ evt' ∈ (w.dbAt settings between (2 * n + 1)).events,
      evt'.customerId = evt.customerId → evt'.timestamp = evt.timestamp → evt'.eventId = evt.eventId)
    (hlength : (w.dbAt settings between (2 * n + 1)).events.rows.countP
      (·.customerId = evt.customerId) ≤ (n + 1) * limit) :
    ∃ k ≤ n, ∃ page, getTimeline e k (w.dbAt settings between (2 * k))
      (w.dbAt settings between (2 * k + 1)) evt.customerId none limit (k * limit) = .ok page ∧
        evt.out ∈ page := by
  have hkept (i j : Nat) (h : i ≤ j) (id : String) (evt : Event)
      (hg : (w.dbAt settings between i).events.get id = some evt) :
      ∃ evt', (w.dbAt settings between j).events.get id = some evt' ∧
        evt' = { evt with status := evt'.status, processedAt := evt'.processedAt } := by
    obtain ⟨_, effects⟩ := w.dbAt_effects settings between h
    exact effects.events_kept hg
  have hevt := Table.mem_iff_get.mp hevt
  obtain ⟨evt₁, hg₁, he₁⟩ := hkept 0 1 Nat.one_pos.le _ evt hevt
  have hid₁   : evt₁.eventId = evt.eventId         := by rw [he₁]
  have howner : evt₁.customerId = evt.customerId   := by rw [he₁]
  have htime  : evt₁.latestFirst = evt.latestFirst := by rw [he₁]; rfl
  have hread (i j : Nat) (h : i ≤ j) (id : String) (evt' : Event)
      (hg : (w.dbAt settings between (2 * i + 1)).events.get id = some evt') :
      ∃ evt'', (w.dbAt settings between (2 * j + 1)).events.get id = some evt'' ∧
        decide (evt''.customerId = evt.customerId) = decide (evt'.customerId = evt.customerId) ∧
        evt''.latestFirst = evt'.latestFirst := by
    obtain ⟨evt'', hg', he⟩ := hkept (2 * i + 1) (2 * j + 1) (by omega) id evt' hg
    exact ⟨evt'', hg', by rw [he], by rw [he]; rfl⟩
  obtain ⟨k, hk, evt', hm, hid⟩ := e.shown_of_kept
    (fun k => (w.dbAt settings between (2 * k + 1)).events) (·.customerId = evt.customerId)
    hread (Table.mem_of_get hg₁) (decide_eq_true howner)
    (fun evt' hm hown hkey => (hunique evt' hm (of_decide_eq_true hown) (hkey.trans htime)).trans
      hid₁.symm) hlength
  have hfound : ((w.dbAt settings between (2 * k)).customers.get evt.customerId).isSome := by
    obtain ⟨_, effects⟩ := w.dbAt_effects settings between (Nat.zero_le (2 * k))
    exact effects.customers_kept (ho evt (Table.mem_of_get hevt))
  refine ⟨k, hk, _, by simp [getTimeline, Option.isNone_eq_false_iff.mpr hfound]; rfl,
    List.mem_map.mpr ⟨evt', hm, ?_⟩⟩
  -- The row with this id has changed at most where the timeline does not show it.
  obtain ⟨evt'', hg', he⟩ := hkept 0 (2 * k + 1) (Nat.zero_le _) _ evt hevt
  have hrow : evt' ∈ (w.dbAt settings between (2 * k + 1)).events :=
    List.mem_of_mem_filter <| e.select_subset k _ _ _ hm
  have hsame : evt' = evt'' := Table.key_injective hrow (Table.mem_of_get hg') <|
    hid.trans (hid₁.trans (Table.key_of_get hg').symm)
  rw [hsame, he]
  rfl

theorem customers_shown (collation : String ↪ κ) (e : Evaluation fun c : Customer => collation c.id)
    (search : String) {limit : Nat} {customer : Customer}
    (hcustomer : customer ∈ (w.dbAt settings between 0).customers)
    (hsearch : searchWhere search customer)
    (hlength : (w.dbAt settings between n).customers.rows.countP (searchWhere search) ≤
      (n + 1) * limit) :
    ∃ k ≤ n, ∃ summary ∈ listCustomers collation e k (w.dbAt settings between k) search limit
      (k * limit), summary.id = customer.id := by
  have hread (i j : Nat) (h : i ≤ j) (id : String) (row : Customer)
      (hg : (w.dbAt settings between i).customers.get id = some row) :
      ∃ row', (w.dbAt settings between j).customers.get id = some row' ∧
        searchWhere search row' = searchWhere search row ∧ collation row'.id = collation row.id := by
    obtain ⟨_, effects⟩ := w.dbAt_effects settings between h
    obtain ⟨row', hg'⟩ := Option.isSome_iff_exists.mp <|
      effects.customers_kept (Option.isSome_iff_exists.mpr ⟨row, hg⟩)
    have hid : row'.id = row.id := (Table.key_of_get hg').trans (Table.key_of_get hg).symm
    exact ⟨row', hg', by rw [searchWhere, searchWhere, hid], by rw [hid]⟩
  obtain ⟨k, hk, row, hm, hid⟩ := e.shown_of_kept
    (fun k => (w.dbAt settings between k).customers) (searchWhere search) hread hcustomer hsearch
    (fun row _ _ hkey => collation.injective hkey) hlength
  exact ⟨k, hk, .of row, List.mem_map.mpr ⟨row, hm, rfl⟩, hid⟩

theorem letters_shown (e : Evaluation DLQEvent.latestFirst) {limit : Nat} {letter : DLQEvent}
    (hletter : letter ∈ (w.dbAt settings between 0).dlqEvents)
    (hunique : ∀ letter' ∈ (w.dbAt settings between n).dlqEvents,
      letter'.failedAt = letter.failedAt → letter'.id = letter.id)
    (hlength : (w.dbAt settings between n).dlqEvents.rows.length ≤ (n + 1) * limit) :
    ∃ k ≤ n, ∃ row ∈ DLQRepo.list e k (w.dbAt settings between k) limit (k * limit),
      row = { letter with replayedAt := row.replayedAt } := by
  have hkept (i j : Nat) (h : i ≤ j) (id : Nat) (row : DLQEvent)
      (hg : (w.dbAt settings between i).dlqEvents.get id = some row) :
      ∃ row', (w.dbAt settings between j).dlqEvents.get id = some row' ∧
        row' = { row with replayedAt := row'.replayedAt } := by
    obtain ⟨_, effects⟩ := w.dbAt_effects settings between h
    exact effects.letters_kept hg
  obtain ⟨k, hk, row, hm, hid⟩ := e.shown_of_kept
    (fun k => (w.dbAt settings between k).dlqEvents) (fun _ => true)
    (fun i j h id row hg => (hkept i j h id row hg).imp fun row' ⟨hg', he⟩ =>
      ⟨hg', rfl, by rw [he]; rfl⟩)
    hletter rfl (fun row hm _ hkey => hunique row hm hkey) (by rwa [List.countP_true])
  rw [List.filter_true] at hm
  refine ⟨k, hk, row, hm, ?_⟩
  obtain ⟨row', hg', he⟩ := hkept 0 k (Nat.zero_le k) _ letter (Table.mem_iff_get.mp hletter)
  have hrow : row ∈ (w.dbAt settings between k).dlqEvents := e.select_subset k _ _ _ hm
  have hsame : row = row' := Table.key_injective hrow (Table.mem_of_get hg') <|
    hid.trans (Table.key_of_get hg').symm
  rwa [← hsame] at he

-- Whatever goes on while a client turns the pages, at the latest the last one shows what was there for
-- the first one: of a timeline or of the dead letters if no other has the same instant, and of the
-- customers in any case.
theorem browsing_complete (settings : Settings R) {s : State R} (he : s.db.events = ∅)
    (between : Nat → List Workers.Happening) (n : Nat) (collation : String ↪ κ) :
    let db := (Workers.idle s).dbAt settings between
    (∀ (e : Evaluation Event.latestFirst) (limit : Limit 200), ∀ evt ∈ (db 0).events,
      (∀ evt' ∈ (db (2 * n + 1)).events, evt'.customerId = evt.customerId →
        evt'.timestamp = evt.timestamp → evt'.eventId = evt.eventId) →
      (db (2 * n + 1)).events.rows.countP (·.customerId = evt.customerId) ≤ (n + 1) * limit.limit →
      ∃ k ≤ n, ∃ page, getTimeline e k (db (2 * k)) (db (2 * k + 1)) evt.customerId none limit.limit
        (k * limit.limit) = .ok page ∧ evt.out ∈ page) ∧
    (∀ (e : Evaluation fun c : Customer => collation c.id) (search : String) (limit : Limit 100),
      ∀ customer ∈ (db 0).customers, searchWhere search customer →
      (db n).customers.rows.countP (searchWhere search) ≤ (n + 1) * limit.limit →
      ∃ k ≤ n, ∃ summary ∈ listCustomers collation e k (db k) search limit.limit (k * limit.limit),
        summary.id = customer.id) ∧
    ∀ (e : Evaluation DLQEvent.latestFirst) (limit : Limit 200), ∀ letter ∈ (db 0).dlqEvents,
      (∀ letter' ∈ (db n).dlqEvents, letter'.failedAt = letter.failedAt → letter'.id = letter.id) →
      (db n).dlqEvents.rows.length ≤ (n + 1) * limit.limit →
      ∃ k ≤ n, ∃ row ∈ DLQRepo.list e k (db k) limit.limit (k * limit.limit),
        row = { letter with replayedAt := row.replayedAt } := by
  have howned : ((Workers.idle s).dbAt settings between 0).Owned := by
    obtain ⟨_, effects⟩ := (Workers.idle s).history_effects settings
      ((List.range (0 + 1)).flatMap between)
    exact effects.owned (Db.owned_of_no_events he)
  exact ⟨fun e _ _ hevt hunique hlength => timeline_shown howned e hevt hunique hlength,
    fun e search _ _ hm hsearch hlength => customers_shown collation e search hm hsearch hlength,
    fun e _ _ hm hunique hlength => letters_shown e hm hunique hlength⟩

end Pages

section Example

open EpochDay

-- A database that leaves ties in the order of the table.
def tableOrder {α κ : Type} [LinearOrder κ] (key : α → κ) : Evaluation key where
  order _ rows := rows.insertionSort (key · ≤ key ·)
  perm _ _     := List.perm_insertionSort ..
  sorted _ _   := by
    have : IsTrans α (key · ≤ key ·) := ⟨fun _ _ _ => le_trans⟩
    have : Std.Total (α := α) (key · ≤ key ·) := ⟨fun _ _ => le_total ..⟩
    exact List.pairwise_insertionSort ..

def secondEvent : EventIn :=
  { unsubscription with
    eventId        := "e4"
    timestamp      := 7 * Timestamp.second
    eventId_length := by decide }

def otherEvent (eventId : String) (h : 1 ≤ eventId.length ∧ eventId.length ≤ 128) : EventIn :=
  { unsubscription with
    eventId           := eventId
    customerId        := "client"
    eventId_length    := h
    customerId_length := by decide }

-- Processing the event has failed for good.
def Workers.Happening.fail (body : EventIn) (now : Timestamp) : Workers.Happening :=
  .turn (.transact (.failEvent body.modelDump noDurableRecord 3 now) rfl)

-- Two events of another customer fail. While the first page is read the first customer's second event
-- comes in, and the first letter is replayed.
def pushedBack : Nat → List Workers.Happening
  | 0 => [.ingest unsubscription (6 * Timestamp.second),
          .ingest (otherEvent "failed1" (by decide)) (6 * Timestamp.second),
          .fail (otherEvent "failed1" (by decide)) (7 * Timestamp.second),
          .ingest (otherEvent "failed2" (by decide)) (8 * Timestamp.second),
          .fail (otherEvent "failed2" (by decide)) (9 * Timestamp.second)]
  | 1 => [.ingest secondEvent (10 * Timestamp.second),
          .turn (.transact (.replayDlq 1 (11 * Timestamp.second)) rfl)]
  | _ => []

-- The letter of the first failure.
def firstLetter : DLQEvent where
  id            := 1
  eventId       := "failed1"
  payload       := (otherEvent "failed1" (by decide)).modelDump
  failureReason := noDurableRecord.text
  retryCount    := 3
  replayedAt    := none
  failedAt      := 7 * Timestamp.second

-- All three are found on the second page: the event that has been pushed back, the other customer and
-- the older letter.
theorem browsing_complete_pushedBack :
    let db  := (Workers.idle seeded).dbAt .default pushedBack
    let evt := unsubscription.row
    (∃ k ≤ 1, ∃ page, getTimeline (tableOrder _) k (db (2 * k)) (db (2 * k + 1)) evt.customerId none 1
      (k * 1) = .ok page ∧ evt.out ∈ page) ∧
    (∃ k ≤ 1, ∃ summary ∈ listCustomers (.refl String) (tableOrder _) k (db k) "c" 1 (k * 1),
      summary.id = "client") ∧
    ∃ k ≤ 1, ∃ row ∈ DLQRepo.list (tableOrder _) k (db k) 1 (k * 1),
      row = { firstLetter with replayedAt := row.replayedAt } := by
  intro db evt
  obtain ⟨htimeline, hcustomers, hletters⟩ :=
    browsing_complete .default (s := seeded) rfl pushedBack 1 (.refl String)
  refine ⟨?_, ?_, ?_⟩
  · refine htimeline (tableOrder _) ⟨1, by decide⟩ evt (Table.mem_of_get (k := "e1") rfl) ?_ ?_
    · decide +kernel
    · decide +kernel
  · refine hcustomers (tableOrder _) "c" ⟨1, by decide⟩ (.new "client" (6 * Timestamp.second))
      (Table.mem_of_get (k := "client") rfl) ?_ ?_
    · decide +kernel
    · decide +kernel
  · refine hletters (tableOrder _) ⟨1, by decide⟩ firstLetter (Table.mem_of_get (k := 1) rfl) ?_ ?_
    · decide +kernel
    · decide +kernel

end Example
end MarTech
