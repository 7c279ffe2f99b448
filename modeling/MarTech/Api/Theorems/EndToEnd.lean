import MarTech.Api.Theorems.Customers
import MarTech.Pipeline.Theorems.Drain

namespace MarTech

theorem Status.ne_failed_iff {status : Status} (h : status ≠ .pending) :
    status ≠ .failed ↔ status = .processed := by
  cases status <;> simp at h ⊢

section Events

variable {R : Type}

-- The events of a customer that have been accepted and not been given up, as they were submitted.
def acceptedEvents (db : Db R) (customerId : String) : List Event :=
  (db.events.rows.filter fun evt => evt.status ≠ .failed && evt.customerId = customerId).map
    Event.submission

theorem mem_acceptedEvents {db : Db R} {customerId : String} {evt : Event} :
    evt ∈ acceptedEvents db customerId ↔ ∃ evt' ∈ db.events, evt'.status ≠ .failed ∧
      evt'.customerId = customerId ∧ evt'.submission = evt := by
  simp [acceptedEvents, Table.mem_rows, and_assoc]

theorem acceptedEvents_nodup (db : Db R) (customerId : String) :
    (acceptedEvents db customerId).Nodup := by
  refine List.Nodup.map_on (fun evt h evt' h' hs => ?_) (db.events.nodup_rows.filter _)
  exact submission_injOn (List.mem_of_mem_filter h) (List.mem_of_mem_filter h') hs

theorem submission_eq {evt evt' : Event}
    (h : evt' = { evt with status := evt'.status, processedAt := evt'.processedAt }) :
    evt'.submission = evt.submission := by
  rw [h]
  rfl

variable {s s' : State R}

-- When nothing is left to do, the accepted events are the processed ones.
theorem acceptedEvents_perm (h : State.Consumed s s')
    (hkept : ∀ id evt, s.db.events.get id = some evt → ∃ evt', s'.db.events.get id = some evt' ∧
      evt' = { evt with status := evt'.status, processedAt := evt'.processedAt })
    (hdone : ∀ id evt, s'.db.events.get id = some evt → evt.status ≠ .pending) (customerId : String) :
    (acceptedEvents s.db customerId).Perm (processedEvents s'.db customerId) := by
  -- An event that was accepted, next to what has become of it.
  have hevent {id : String} {evt evt' : Event} (he : s.db.events.get id = some evt)
      (he' : s'.db.events.get id = some evt') : evt'.submission = evt.submission ∧
        (evt.status ≠ .failed ↔ evt'.status = .processed) := by
    obtain ⟨evt₁, h₁, hsame⟩  := hkept id evt he
    obtain ⟨evt₂, h₂, hmoved⟩ := h.events id evt he
    cases h₁.symm.trans he'
    cases h₂.symm.trans he'
    refine ⟨submission_eq hsame, ?_⟩
    obtain rfl | ⟨hp, hd⟩ := hmoved
    · exact Status.ne_failed_iff (hdone id evt' he')
    · simp [hp, hd]
  refine (List.perm_ext_iff_of_nodup (acceptedEvents_nodup s.db customerId)
    (processedEvents_nodup s'.db customerId)).mpr fun evt => ?_
  rw [mem_acceptedEvents, mem_processedEvents]
  constructor
  case mp =>
    rintro ⟨evt, hm, hf, rfl, rfl⟩
    obtain ⟨evt', he', -⟩ := h.events _ evt (Table.mem_iff_get.mp hm)
    obtain ⟨hsub, hiff⟩ := hevent (Table.mem_iff_get.mp hm) he'
    have hid : evt'.submission.customerId = evt.submission.customerId := by rw [hsub]
    exact ⟨evt', Table.mem_of_get he', hiff.mp hf, hid, hsub⟩
  case mpr =>
    rintro ⟨evt', hm, hd, rfl, rfl⟩
    have he' := Table.mem_iff_get.mp hm
    cases he : s.db.events.get evt'.eventId
    case none     => simp [h.absent _ he] at he'
    case some evt =>
      obtain ⟨hsub, hiff⟩ := hevent he he'
      have hid : evt'.submission.customerId = evt.submission.customerId := by rw [hsub]
      exact ⟨evt, Table.mem_of_get he, hiff.mpr hd, hid.symm, hsub.symm⟩

end Events

theorem Profile.perm [Runtime] {settings : Settings ℝ} {initial : Customer}
    {evts evts' later later' : List Event} {now : Timestamp} {out : CustomerOut ℝ}
    (hp : evts.Perm evts') (hp' : later.Perm later') (h : Profile settings initial evts later now out) :
    Profile settings initial evts' later' now out where
  id                := h.id
  customer          := h.customer.perm hp
  score             := h.score.trans (expectedScore_perm settings hp' now)
  tracked           := by
    simp only [h.tracked, ne_eq, ← List.length_eq_zero_iff, hp'.length_eq]
  breakdown channel := (h.breakdown channel).trans (expectedEntry_perm hp' channel)

section Running

variable [Runtime]

-- Whatever the system has been through, one worker that goes on undisturbed brings every event that has
-- been accepted, and is not given up, into what an answer shows of its customer.
theorem accepted_reflected (settings : Settings ℝ) (hb : 0 < settings.outboxBatchSize) {s₀ : State ℝ}
    (he : s₀.db.events = ∅) (hscores : s₀.db.engagementScores = ∅) (ho : s₀.db.eventOutbox = ∅)
    (hs : s₀.stream.entries = []) (happenings : List Workers.Happening)
    (hl : ∀ happening ∈ happenings, ∀ body ∈ happening.bodies, body.Lossless) :
    let s := ((Workers.idle s₀).history settings happenings).toState
    ∀ polls : List Poll, (∀ poll ∈ polls, poll.Serves) → s.Along settings State.Rested polls →
      2 * s.db.eventOutbox.rows.length + s.stream.entries.length ≤ polls.length →
      let s' := s.iterations settings polls
      ∀ evt ∈ s.db.events, ∀ now, ∃ out,
        getCustomer settings s'.db s'.db evt.customerId none now = .ok out ∧
        Profile settings (initialCustomer s₀.db evt.customerId out.createdAt)
          (acceptedEvents s.db evt.customerId) (acceptedEvents s.db evt.customerId) now out := by
  intro s polls hserve hrest hlength s' evt hm now
  have haccurate : (Workers.idle s).Accurate :=
    ((Workers.Accurate.idle he ho hs).history settings hl).quiet
  obtain ⟨hconsumed, -, hdone⟩ := State.iterations_done haccurate hb hserve hrest hlength
  obtain ⟨_, m⟩ := Materialised.history settings he hscores happenings
  obtain ⟨ls, e⟩ := s.iterations_effects settings polls
  have m' := m.effects e
  have hperm := acceptedEvents_perm hconsumed (fun _ _ => e.events_kept) hdone evt.customerId
  have hfound : (s'.db.customers.get evt.customerId).isSome := by
    obtain ⟨evt', hevt', hsame⟩ := e.events_kept (Table.mem_iff_get.mp hm)
    have := m'.owned evt' (Table.mem_of_get hevt')
    rwa [hsame] at this
  cases h : getCustomer settings s'.db s'.db evt.customerId none now
  case ok out      => exact ⟨out, rfl, (m'.profile m' h).perm hperm.symm hperm.symm⟩
  case error error =>
    obtain ⟨hf, -⟩ | ⟨-, hn⟩ := getCustomer_error h
    · simp at hf
    · simp [hn] at hfound

end Running

section Example

open EpochDay

-- Redis loses the message of a worker that has died before it put the message on record.
theorem accepted_reflected_lostMessage :
    let s  := ((Workers.idle seeded).history .default (publishedOnce ++ [.lose])).toState
    let s' := s.iterations .default [pollAt (10 * Timestamp.second), pollAt (200 * Timestamp.second)]
    ∀ evt ∈ s.db.events, ∀ now, ∃ out,
      getCustomer .default s'.db s'.db evt.customerId none now = .ok out ∧
      Profile .default (initialCustomer seeded.db evt.customerId out.createdAt)
        (acceptedEvents s.db evt.customerId) (acceptedEvents s.db evt.customerId) now out := by
  refine accepted_reflected .default (by decide) rfl rfl rfl rfl _ publishedOnce_lossless _ ?_ ?_ ?_
  · simp [pollAt_serves]
  · exact ⟨.inr <| List.all_eq_true.mp <| by decide +kernel,
      .inr <| List.all_eq_true.mp <| by decide +kernel, trivial⟩
  · decide +kernel

end Example
end MarTech
