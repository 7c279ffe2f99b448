import MarTech.Pipeline.Theorems.Score

namespace MarTech

section Reading

variable {R : Type} [Field R] [LinearOrder R] [MathExp R]

-- The score that a customer is shown to have, which is 0 as long as no event has been scored.
def reading (settings : Settings R) (eng : Option (EngagementScore R)) (now : Timestamp) : R :=
  scoreAt settings (eng.elim 0 (·.score)) (eng.map (·.lastUpdated)) now

end Reading

-- The second reading is not on the wrong side of the first one for an event of the given weight.
def Follows (weight before after : ℝ) : Prop :=
  (0 < weight → before ≤ after) ∧ (weight < 0 → after ≤ before)

theorem Follows.trans {weight x y z : ℝ} (h : Follows weight x y) (h' : Follows weight y z) :
    Follows weight x z :=
  ⟨fun hw => (h.left hw).trans (h'.left hw), fun hw => (h'.right hw).trans (h.right hw)⟩

noncomputable def clampScore (x : ℝ) : ℝ :=
  max (-50) (min 200 x)

theorem clampScore_mono : Monotone clampScore :=
  fun _ _ h => max_le_max_left _ <| min_le_min_left _ h

section Held

variable [Runtime] {settings : Settings ℝ} {eng : Option (EngagementScore ℝ)} {evt : Event}
         {now : Timestamp}

-- What is known of a customer's score, as a pulse.
noncomputable def heldPulses (eng : Option (EngagementScore ℝ)) : List Pulse :=
  pulses (eng.map EngagementScore.clocked) []

-- The instant of a reading, which is never before the last update.
def readAt (eng : Option (EngagementScore ℝ)) (now : Timestamp) : Timestamp :=
  eng.elim now fun eng => max now eng.lastUpdated

theorem reading_eq : reading settings eng now =
    clampScore (decayed settings.scoreDecayLambda (heldPulses eng) (readAt eng now).days) := by
  cases eng
  case none     => simp [reading, scoreAt, clampScore, heldPulses, pulses]
  case some eng =>
    have hs : eng.score =
        decayed settings.scoreDecayLambda (heldPulses (some eng)) eng.lastUpdated.days := by
      simp [heldPulses, pulses, decayed.singleton, EngagementScore.clocked]
    simp only [reading, readAt, Option.elim_some, Option.map_some]
    rw [hs, scoreAt_eq]
    rfl

-- The event adds its own pulse to what is held, whether it is late or not.
theorem heldPulses_after (t : ℝ) :
    decayed settings.scoreDecayLambda (heldPulses (some (engagementAfter settings evt eng))) t =
      decayed settings.scoreDecayLambda (heldPulses eng) t +
        evt.pulse.weight * Real.exp (-settings.scoreDecayLambda * (t - evt.pulse.time)) := by
  have hstep : Settled settings (eng.map EngagementScore.clocked) ([] ++ [evt])
      (some (advance settings (eng.map EngagementScore.clocked) evt)) := Settled.initial.step evt
  rw [← engagementAfter_clocked] at hstep
  have hs := hstep.score _ _ rfl
  calc decayed settings.scoreDecayLambda (heldPulses (some (engagementAfter settings evt eng))) t
      = (engagementAfter settings evt eng).score * Real.exp (-settings.scoreDecayLambda *
          (t - (engagementAfter settings evt eng).lastUpdated.days)) := by
        simp [heldPulses, pulses, decayed.singleton, EngagementScore.clocked]
    _ = decayed settings.scoreDecayLambda (pulses (eng.map EngagementScore.clocked) ([] ++ [evt])) t := by
        rw [hs, ← decayed.shift]
    _ = _ := by
        rw [pulses_append_singleton, decayed.append, decayed.singleton, heldPulses]

theorem readAt_after :
    readAt (some (engagementAfter settings evt eng)) now = readAt eng (max now evt.timestamp) := by
  cases eng
  case none     => rfl
  case some eng => exact (max_assoc ..).symm

-- Measured at the time of the event, or later, the event counts by its sign.
theorem reading_after (settings : Settings ℝ) (eng : Option (EngagementScore ℝ)) (evt : Event)
    (now : Timestamp) :
    Follows (eventWeight evt.eventType evt.channel) (reading settings eng (max now evt.timestamp))
      (reading settings (some (engagementAfter settings evt eng)) now) := by
  have hexp := Real.exp_pos (-settings.scoreDecayLambda *
    ((readAt eng (max now evt.timestamp)).days - evt.pulse.time))
  rw [reading_eq, reading_eq, readAt_after, heldPulses_after]
  constructor
  · intro hw
    exact clampScore_mono <| le_add_of_nonneg_right (mul_pos hw hexp).le
  · intro hw
    exact clampScore_mono <| add_le_of_nonpos_right (mul_neg_of_neg_of_pos hw hexp).le

-- A score is pulled towards zero for as long as an event lies ahead of both clocks. This can hide
-- an event of the same sign.
theorem reading_wait (hr : 0 ≤ settings.scoreDecayLambda) {weight : ℝ}
    (h : evt.timestamp ≤ now ∨ (∃ held ∈ eng, evt.timestamp ≤ held.lastUpdated) ∨
      weight * eng.elim 0 (·.score) ≤ 0 ∨ settings.scoreDecayLambda = 0) :
    Follows weight (reading settings eng now) (reading settings eng (max now evt.timestamp)) := by
  have hsame {x y : ℝ} (h : x = y) : Follows weight x y := ⟨fun _ => h.le, fun _ => h.ge⟩
  have hlater : (readAt eng now).days ≤ (readAt eng (max now evt.timestamp)).days := by
    refine Timestamp.days_monotone ?_
    cases eng
    case none     => exact le_max_left ..
    case some eng => exact max_le_max_right _ (le_max_left ..)
  rw [reading_eq, reading_eq]
  obtain h | ⟨held, rfl, h⟩ | h | h := h
  · rw [max_eq_left h]
    exact hsame rfl
  · have he : readAt (some held) (max now evt.timestamp) = readAt (some held) now := by
      rw [readAt, readAt, Option.elim_some, Option.elim_some, max_assoc, max_eq_right h]
    rw [he]
    exact hsame rfl
  · have hheld : ∀ p ∈ heldPulses eng, weight * p.weight ≤ 0 := by
      cases eng
      case none     => simp [heldPulses, pulses]
      case some eng => simpa [heldPulses, pulses, EngagementScore.clocked] using h
    constructor
    · intro hw
      refine clampScore_mono <| decayed.monotone hr (fun p hp => ?_) hlater
      exact nonpos_of_mul_nonpos_right (hheld p hp) hw
    · intro hw
      refine clampScore_mono <| decayed.antitone hr (fun p hp => ?_) hlater
      exact nonneg_of_mul_nonpos_right (hheld p hp) hw
  · rw [h, decayed.rate_zero]
    exact hsame rfl

theorem score_follows_sign (settings : Settings ℝ) (hr : 0 ≤ settings.scoreDecayLambda)
    (eng : Option (EngagementScore ℝ)) (evt : Event) (now : Timestamp) :
    let weight := eventWeight evt.eventType evt.channel
    let before := reading settings eng
    let after  := reading settings (some (engagementAfter settings evt eng)) now
    Follows weight (before (max now evt.timestamp)) after ∧
    (evt.timestamp ≤ now ∨ (∃ held ∈ eng, evt.timestamp ≤ held.lastUpdated) ∨
      weight * eng.elim 0 (·.score) ≤ 0 ∨ settings.scoreDecayLambda = 0 →
      Follows weight (before now) after) :=
  ⟨reading_after settings eng evt now,
    fun h => (reading_wait hr h).trans (reading_after settings eng evt now)⟩

end Held

section Example

open EpochDay

-- A customer who has just been seen, and a message that is dated twenty days ahead.
noncomputable def justSeen : EngagementScore ℝ where
  customerId       := "c1"
  score            := 100
  lastUpdated      := 0
  channelBreakdown := ∅

def sendAhead : Event :=
  { purchase with
    eventType := "send"
    timestamp := 20 * Timestamp.day }

theorem sendAhead_weight : (eventWeight sendAhead.eventType sendAhead.channel : ℝ) = 0.1 := by
  have hb : (baseWeight "send" : ℝ) = 0.1 := by
    have : Runtime.lower "send" = "send" := by decide +kernel
    simp [baseWeight, this, baseWeights, List.lookup]
  have hc : (channelWeight "email" : ℝ) = 1 := by
    have : Runtime.lower "email" = "email" := by decide +kernel
    norm_num [channelWeight, this, channelWeights, List.lookup]
  rw [eventWeight, show sendAhead.eventType = "send" from rfl,
    show sendAhead.channel = "email" from rfl, hb, hc, mul_one]

theorem sendAhead_days : sendAhead.timestamp.days = 20 := by
  norm_num [sendAhead, Timestamp.days, totalSeconds, Timestamp.day, Timestamp.hour,
    Timestamp.minute, Timestamp.second]

-- The message comes ahead of both clocks, but the score it is added to is not of its sign.
theorem score_follows_sign_sendAhead :
    let weight : ℝ := eventWeight sendAhead.eventType sendAhead.channel
    let displeased : EngagementScore ℝ := { justSeen with score := -10 }
    let after eng := reading .default (some (engagementAfter .default sendAhead (some eng))) 0
    Follows weight (reading .default (some justSeen) (max 0 sendAhead.timestamp)) (after justSeen) ∧
      Follows weight (reading .default (some displeased) 0) (after displeased) := by
  have hr : 0 ≤ (Settings.default : Settings ℝ).scoreDecayLambda := by norm_num [Settings.default]
  constructor
  case left  => exact score_follows_sign .default hr (some justSeen) sendAhead 0 |>.left
  case right =>
    refine score_follows_sign .default hr (some { justSeen with score := -10 }) sendAhead 0
      |>.right (.inr (.inr (.inl ?_)))
    norm_num [sendAhead_weight]

-- By the time of the message two thirds of the score are gone, and nothing makes up for them.
theorem score_not_monotone :
    ¬∀ (settings : Settings ℝ), 0 ≤ settings.scoreDecayLambda →
      ∀ (eng : Option (EngagementScore ℝ)) (evt : Event) (now : Timestamp),
        Follows (eventWeight evt.eventType evt.channel) (reading settings eng now)
          (reading settings (some (engagementAfter settings evt eng)) now) := by
  intro h
  have hle := (h .default (by norm_num [Settings.default]) (some justSeen) sendAhead 0).left
    (by norm_num [sendAhead_weight])
  have hzero : Timestamp.days 0 = 0 := by simp [Timestamp.days, totalSeconds]
  have hheld (t : ℝ) : decayed (Settings.scoreDecayLambda .default) (heldPulses (some justSeen)) t =
      100 * Real.exp (-0.05 * t) := by
    simp [heldPulses, pulses, decayed.singleton, EngagementScore.clocked, justSeen, hzero,
      Settings.default]
  have hlater : readAt (some justSeen) (max 0 sendAhead.timestamp) = sendAhead.timestamp := by
    decide
  have hweight : sendAhead.pulse.weight = 0.1 := sendAhead_weight
  have htime : sendAhead.pulse.time = 20 := sendAhead_days
  have hsmall := Real.exp_neg_one_lt_half
  rw [reading_eq, reading_eq, readAt_after, heldPulses_after, hlater, hheld, hheld, hweight, htime,
    sendAhead_days] at hle
  have hnow : (readAt (some justSeen) 0).days = 0 := by simp [readAt, justSeen, hzero]
  norm_num [hnow, clampScore] at hle
  linarith

end Example
end MarTech
