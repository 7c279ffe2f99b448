import MarTech.Api.Customers
import MarTech.Domain.Theorems.Breakdown
import MarTech.Pipeline.Theorems.History
import MarTech.Pipeline.Theorems.Score

namespace MarTech

-- What was submitted of an event, before anything was done about it.
def Event.submission (evt : Event) : Event :=
  { evt with status := .pending, processedAt := none }

-- The arguments that count for the weight of an event.
def Event.scored {R : Type} [Zero R] (evt : Event) : ScoredEvent R where
  currentScore := 0
  lastUpdated  := none
  eventType    := evt.eventType
  channel      := evt.channel
  eventTs      := evt.timestamp
  lambda       := none

section Events

variable {R : Type}

-- The processed events of a customer, as they were submitted.
def processedEvents (db : Db R) (customerId : String) : List Event :=
  (db.events.rows.filter fun evt => evt.status = .processed && evt.customerId = customerId).map
    Event.submission

theorem mem_processedEvents {db : Db R} {customerId : String} {evt : Event} :
    evt ∈ processedEvents db customerId ↔ ∃ evt' ∈ db.events, evt'.status = .processed ∧
      evt'.customerId = customerId ∧ evt'.submission = evt := by
  simp [processedEvents, Table.mem_rows, and_assoc]

theorem submission_injOn {db : Db R} {evt evt' : Event} (h : evt ∈ db.events) (h' : evt' ∈ db.events)
    (hs : evt.submission = evt'.submission) : evt = evt' := by
  have hid : evt.submission.eventId = evt'.submission.eventId := by rw [hs]
  exact Table.key_injective h h' hid

theorem processedEvents_nodup (db : Db R) (customerId : String) :
    (processedEvents db customerId).Nodup := by
  refine List.Nodup.map_on (fun evt h evt' h' hs => ?_) (db.events.nodup_rows.filter _)
  exact submission_injOn (List.mem_of_mem_filter h) (List.mem_of_mem_filter h') hs

theorem customerOf_submission (customer : Customer) (evts : List Event) :
    customerOf customer (evts.map Event.submission) = customerOf customer evts := by
  rw [customerOf, List.foldl_map]
  rfl

variable [Field R] [LinearOrder R] [FloorRing R] [MathExp R] [Runtime]

theorem engagementOf_submission (settings : Settings R) (evts : List Event) :
    engagementOf settings (evts.map Event.submission) = engagementOf settings evts := by
  rw [engagementOf, List.foldl_map]
  rfl

theorem Materialised.processed_perm {settings : Settings R} {db₀ db : Db R} {log : List String}
    (m : Materialised settings db₀ db log) (customerId : String) :
    ((processedOf db log customerId).map Event.submission).Perm (processedEvents db customerId) := by
  have v := m.view customerId
  refine (List.perm_ext_iff_of_nodup (v.once.map_on fun evt h evt' h' hs => ?_)
    (processedEvents_nodup db customerId)).mpr fun evt => ?_
  · exact submission_injOn ((v.processed evt).mp h).left ((v.processed evt').mp h').left hs
  · simp only [List.mem_map, v.processed, mem_processedEvents, and_assoc]

-- The breakdown of the engagement row is the fold over the events.
theorem engagementOf_breakdown (settings : Settings R) (evts : List Event) :
    (engagementOf settings evts).elim ∅ (·.channelBreakdown) =
      foldBreakdown settings (evts.map Event.scored) := by
  induction evts using List.reverseRec
  case nil => rfl
  case append_singleton evts evt hi =>
    rw [engagementOf.append_singleton, List.map_append, List.map_singleton, foldBreakdown_append, ← hi]
    cases engagementOf settings evts <;> rfl

end Events

section Rows

-- The customer's row, as far as an answer shows it.
def CustomerOut.row {R : Type} (out : CustomerOut R) : Customer where
  id            := out.id
  createdAt     := out.createdAt
  attributes    := out.attributes
  emailOptIn    := out.emailOptIn
  smsOptIn      := out.smsOptIn
  whatsappOptIn := out.whatsappOptIn
  pushOptIn     := out.pushOptIn
  lastActive    := out.lastActive
  hasConverted  := out.hasConverted

theorem CustomerView.perm {initial row : Customer} {evts evts' : List Event} (hp : evts.Perm evts')
    (v : CustomerView initial evts row) : CustomerView initial evts' row where
  createdAt       := v.createdAt
  attributes      := v.attributes
  lastActive t    := by simpa only [hp.mem_iff] using v.lastActive t
  hasConverted    := by simpa only [hp.mem_iff] using v.hasConverted
  optIn channel h := by simpa only [hp.mem_iff] using v.optIn channel h

theorem initialCustomer_id {R : Type} (db : Db R) (customerId : String) (createdAt : Timestamp) :
    (initialCustomer db customerId createdAt).id = customerId := by
  unfold initialCustomer
  cases h : db.customers.get customerId
  case none     => rfl
  case some row => exact Table.key_of_get h

variable {R : Type} [Field R] [LinearOrder R] [FloorRing R] [MathExp R] {settings : Settings R}
         {db later : Db R} {customerId : String} {fault : Option CustomerQuery} {now : Timestamp}

theorem getCustomer_ok {out : CustomerOut R}
    (h : getCustomer settings db later customerId fault now = .ok out) :
    let eng := later.engagementScores.get customerId
    db.customers.get customerId = some out.row ∧
    out.engagementScore =
      eng.map (fun eng => roundTo 4 <| scoreAt settings eng.score (some eng.lastUpdated) now) ∧
    out.channelBreakdown = eng.map (·.channelBreakdown) := by
  unfold getCustomer at h
  split at h
  case isTrue => cases h
  case isFalse =>
    split at h
    case h_1 => cases h
    case h_2 row hrow =>
      split at h
      case isTrue  => cases h
      case isFalse => cases h; exact ⟨hrow, rfl, rfl⟩

theorem getCustomer_error {error : AppError}
    (h : getCustomer settings db later customerId fault now = .error error) :
    fault.isSome ∧ error = customerLoadError ∨
      error = customerNotFound customerId ∧ db.customers.get customerId = none := by
  unfold getCustomer at h
  split at h
  case isTrue hf => cases h; exact .inl ⟨by simp [hf], rfl⟩
  case isFalse =>
    split at h
    case h_1 hn => cases h; exact .inr ⟨rfl, hn⟩
    case h_2 =>
      split at h
      case isTrue hf => cases h; exact .inl ⟨by simp [hf], rfl⟩
      case isFalse   => cases h

end Rows

section ClosedForm

variable [Runtime] (settings : Settings ℝ)

-- The latest of `now` and the times of the events.
def readingTime (evts : List Event) (now : Timestamp) : Timestamp :=
  (evts.map (·.timestamp)).foldl max now

-- The score that the processed events come to, if there are any.
noncomputable def expectedScore (evts : List Event) (now : Timestamp) : Option ℝ :=
  if evts = [] then none
  else some <| roundTo 4 <| max (-50) <| min 200 <|
    decayedSum settings none evts (readingTime evts now)

-- How many of the events were on the channel, and their weights together.
noncomputable def expectedEntry (evts : List Event) (channel : String) : Option (BreakdownEntry ℝ) :=
  let on := evts.filter (lower ·.channel = channel)
  if on = [] then none
  else some ⟨channel, on.length, (on.map fun evt => eventWeight evt.eventType evt.channel).sum⟩

-- What an answer says of a customer, of whose events `evts` have been processed when the row is read,
-- and `later` when the score is.
structure Profile (settings : Settings ℝ) (initial : Customer) (evts later : List Event)
    (now : Timestamp) (out : CustomerOut ℝ) : Prop where
  id        : out.id = initial.id
  customer  : CustomerView initial evts out.row
  score     : out.engagementScore = expectedScore settings later now
  tracked   : out.channelBreakdown.isSome ↔ later ≠ []
  breakdown : ∀ channel, out.channelBreakdown.bind (·.get channel) = expectedEntry later channel

theorem expectedScore_perm (settings : Settings ℝ) {evts evts' : List Event} (hp : evts.Perm evts')
    (now : Timestamp) : expectedScore settings evts now = expectedScore settings evts' now := by
  have htime : readingTime evts now = readingTime evts' now :=
    (hp.map _).foldl_eq' (fun x _ y _ z => max_right_comm z x y) now
  have hsum (t : Timestamp) : decayedSum settings none evts t = decayedSum settings none evts' t := by
    rw [decayedSum_eq, decayedSum_eq]
    exact decayed.perm (hp.map _)
  simp only [expectedScore, htime, hsum, ← List.length_eq_zero_iff, hp.length_eq]

theorem expectedEntry_perm {evts evts' : List Event} (hp : evts.Perm evts') (channel : String) :
    expectedEntry evts channel = expectedEntry evts' channel := by
  have hon := hp.filter (lower ·.channel = channel)
  simp only [expectedEntry, ← List.length_eq_zero_iff, hon.length_eq, (hon.map _).sum_eq]

-- The rows that the pipeline keeps give what is expected of them.
theorem engagementOf_score (evts : List Event) (now : Timestamp) :
    (engagementOf settings evts).map (fun eng =>
      roundTo 4 <| scoreAt settings eng.score (some eng.lastUpdated) now) =
        expectedScore settings evts now := by
  have hsettled := Settled.fold settings none evts
  have hsome : (engagementOf settings evts).isSome ↔ ∃ evt, evt ∈ evts := engagementOf.isSome_iff
  rw [← engagementOf_clocked] at hsettled
  cases he : engagementOf settings evts
  case none =>
    have hnil : evts = [] := List.eq_nil_iff_forall_not_mem.mpr (by simpa [he] using hsome)
    simp [expectedScore, hnil]
  case some eng =>
    obtain ⟨evt, hm⟩ := hsome.mp (by simp [he])
    rw [he] at hsettled
    have hscore := hsettled.score eng.score eng.lastUpdated rfl
    have htime : readingTime evts now = max now eng.lastUpdated :=
      latest.foldl_max hsettled.clock.symm now
    rw [expectedScore, if_neg (List.ne_nil_of_mem hm), Option.map_some, hscore, scoreAt_eq, htime,
      decayedSum_eq]

theorem engagementOf_entry (evts : List Event) (channel : String) :
    (engagementOf settings evts).bind (·.channelBreakdown.get channel) =
      expectedEntry evts channel := by
  have hbreakdown := congrArg (·.get channel) (engagementOf_breakdown settings evts)
  simp only [foldBreakdown_get] at hbreakdown
  have hget : (engagementOf settings evts).bind (·.channelBreakdown.get channel) =
      ((engagementOf settings evts).elim ∅ (·.channelBreakdown)).get channel := by
    cases engagementOf settings evts <;> rfl
  rw [hget, hbreakdown, expectedEntry]
  simp only [exactEntry, onChannel, List.filter_map, List.map_eq_nil_iff, List.length_map,
    List.map_map]
  rfl

variable {settings} in
theorem Materialised.profile {db₀ db later : Db ℝ} {log log' : List String} {customerId : String}
    {fault : Option CustomerQuery} {now : Timestamp} {out : CustomerOut ℝ}
    (m : Materialised settings db₀ db log) (m' : Materialised settings db₀ later log')
    (h : getCustomer settings db later customerId fault now = .ok out) :
    Profile settings (initialCustomer db₀ customerId out.createdAt) (processedEvents db customerId)
      (processedEvents later customerId) now out := by
  obtain ⟨hrow, hscore, hbreakdown⟩ := getCustomer_ok h
  have heng : later.engagementScores.get customerId = engagementOf settings
      ((processedOf later log' customerId).map Event.submission) :=
    (m'.engagement customerId).trans (engagementOf_submission settings _).symm
  have hperm := m'.processed_perm customerId
  rw [heng] at hscore hbreakdown
  constructor
  case id => exact (Table.key_of_get hrow).trans (initialCustomer_id db₀ customerId _).symm
  case customer =>
    have v := customerOf.view (initialCustomer db₀ customerId out.createdAt)
      ((processedOf db log customerId).map Event.submission)
    have hview : out.row = customerOf (initialCustomer db₀ customerId out.createdAt) _ :=
      m.customer hrow
    rw [customerOf_submission, ← hview] at v
    exact v.perm (m.processed_perm customerId)
  case score =>
    rw [hscore, engagementOf_score]
    exact expectedScore_perm settings hperm now
  case tracked =>
    rw [hbreakdown, Option.isSome_map, engagementOf.isSome_iff, ← List.isEmpty_eq_false_iff_exists_mem,
      List.isEmpty_eq_false_iff, ne_eq, ne_eq, ← List.length_eq_zero_iff, hperm.length_eq,
      List.length_eq_zero_iff]
  case breakdown =>
    intro channel
    rw [hbreakdown, Option.bind_map]
    exact (engagementOf_entry settings _ channel).trans (expectedEntry_perm hperm channel)

-- Whatever the system has been through, and whatever happens between the two queries: an answer shows
-- what the processed events come to, and a customer who is not found has no events.
theorem profile_exact {s : State ℝ} (he : s.db.events = ∅) (hs : s.db.engagementScores = ∅)
    (before between : List Workers.Happening) (customerId : String) (fault : Option CustomerQuery)
    (now : Timestamp) :
    let db    := ((Workers.idle s).history settings before).db
    let later := ((Workers.idle s).history settings (before ++ between)).db
    match getCustomer settings db later customerId fault now with
    | .ok out      => Profile settings (initialCustomer s.db customerId out.createdAt)
      (processedEvents db customerId) (processedEvents later customerId) now out
    | .error error => fault.isSome ∧ error = customerLoadError ∨
      error = customerNotFound customerId ∧ ∀ evt ∈ db.events, evt.customerId ≠ customerId := by
  intro db later
  obtain ⟨log, m⟩   := Materialised.history settings he hs before
  obtain ⟨log', m'⟩ := Materialised.history settings he hs (before ++ between)
  cases h : getCustomer settings db later customerId fault now
  case ok out      => exact m.profile m' h
  case error error =>
    refine (getCustomer_error h).imp_right fun ⟨he, hn⟩ => ⟨he, fun evt hm hid => ?_⟩
    have : (db.customers.get evt.customerId).isSome := m.owned evt hm
    simp [hid, hn] at this

end ClosedForm
section Example

open EpochDay

-- The customer is read before the event is processed, and the engagement row after that.
def processOnce : List Workers.Happening := [
  .ingest unsubscription (6 * Timestamp.second),
  .process unsubscription (8 * Timestamp.second)
]

theorem profile_exact_tornRead :
    let db    := ((Workers.idle seeded).history .default []).db
    let later := ((Workers.idle seeded).history .default processOnce).db
    match getCustomer .default db later "c1" none (9 * Timestamp.second) with
    | .ok out      => Profile .default (initialCustomer seeded.db "c1" out.createdAt)
      (processedEvents db "c1") (processedEvents later "c1") (9 * Timestamp.second) out
    | .error error => (none : Option CustomerQuery).isSome ∧ error = customerLoadError ∨
      error = customerNotFound "c1" ∧ ∀ evt ∈ db.events, evt.customerId ≠ "c1" :=
  profile_exact .default (s := seeded) rfl rfl [] processOnce "c1" none (9 * Timestamp.second)

end Example
end MarTech
