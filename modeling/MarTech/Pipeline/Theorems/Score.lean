import MarTech.Pipeline.Theorems.View
import MarTech.Library.Decay

namespace MarTech

section Fold

variable {R : Type} [Field R] [LinearOrder R] [FloorRing R] [MathExp R] [Runtime]

-- The score and the clock after one more event, as `process_one_event` computes them.
def advance (settings : Settings R) (acc : Option (R × Timestamp)) (evt : Event) : R × Timestamp :=
  let oldTime := acc.map (·.2)
  let (score, _) := computeNewScore settings (acc.elim 0 (·.1)) oldTime evt.eventType evt.channel
    evt.timestamp
  (score, oldTime.elim evt.timestamp (max evt.timestamp))

def foldScore (settings : Settings R) (start : Option (R × Timestamp)) (evts : List Event) :
    Option (R × Timestamp) :=
  evts.foldl (fun acc evt => some (advance settings acc evt)) start

def EngagementScore.clocked (eng : EngagementScore R) : R × Timestamp :=
  (eng.score, eng.lastUpdated)

theorem engagementAfter_clocked (settings : Settings R) (evt : Event)
    (eng : Option (EngagementScore R)) :
    (engagementAfter settings evt eng).clocked =
      advance settings (eng.map EngagementScore.clocked) evt := by
  cases eng <;> rfl

-- The engagement rows of the pipeline carry the folded score.
theorem engagementOf_clocked (settings : Settings R) (evts : List Event) :
    (engagementOf settings evts).map EngagementScore.clocked = foldScore settings none evts := by
  induction evts using List.reverseRec
  case nil => rfl
  case append_singleton evts evt hi =>
    rw [engagementOf.append_singleton, Option.map_some, engagementAfter_clocked, hi]
    simp [foldScore]

end Fold

-- Time in days, as a real number.
noncomputable def Timestamp.days (t : Timestamp) : ℝ :=
  totalSeconds t / 86400

theorem Timestamp.days_monotone : Monotone Timestamp.days := by
  intro a b h
  simp only [days, totalSeconds]
  have : (a : ℝ) ≤ b := by exact_mod_cast h
  gcongr

theorem daysBetween_eq (a b : Timestamp) : (daysBetween a b : ℝ) = |b.days - a.days| := by
  simp only [daysBetween, Timestamp.days, totalSeconds, Int.cast_sub, ← sub_div, abs_div]
  norm_num

theorem scoreAt_eq (settings : Settings ℝ) (ps : List Pulse) (t now : Timestamp) :
    scoreAt settings (decayed settings.scoreDecayLambda ps t.days) (some t) now =
      max (-50) (min 200 (decayed settings.scoreDecayLambda ps (max now t).days)) := by
  have h : max 0 (totalSeconds (now - t) / 86400) = (max now t).days - t.days := by
    rw [Timestamp.days_monotone.map_max, ← max_sub_sub_right, sub_self, max_comm]
    simp [Timestamp.days, totalSeconds, sub_div]
  rw [decayed.shift t.days (max now t).days, ← h]
  rfl

section ClosedForm

variable [Runtime] {settings : Settings ℝ} {start : Option (ℝ × Timestamp)} {evts : List Event}

-- The sum of the weights of the start and of the events, each decayed from its own time to `t`.
noncomputable def decayedSum (settings : Settings ℝ) (start : Option (ℝ × Timestamp))
    (evts : List Event) (t : Timestamp) : ℝ :=
  let decay (t₀ : Timestamp) := Real.exp (-settings.scoreDecayLambda * (t.days - t₀.days))
  start.elim 0 (fun (score, clock) => score * decay clock) +
    (evts.map fun evt => eventWeight evt.eventType evt.channel * decay evt.timestamp).sum

noncomputable def Event.pulse (evt : Event) : Pulse where
  weight := eventWeight evt.eventType evt.channel
  time   := evt.timestamp.days

noncomputable def pulses (start : Option (ℝ × Timestamp)) (evts : List Event) : List Pulse :=
  start.toList.map (fun (score, clock) => ⟨score, clock.days⟩) ++ evts.map Event.pulse

theorem decayedSum_eq (t : Timestamp) :
    decayedSum settings start evts t =
      decayed settings.scoreDecayLambda (pulses start evts) t.days := by
  rw [pulses, decayed.append]
  cases start <;> simp [decayedSum, decayed, Event.pulse, Function.comp_def]

theorem pulses_append_singleton (start : Option (ℝ × Timestamp)) (evts : List Event)
    (evt : Event) : pulses start (evts ++ [evt]) = pulses start evts ++ [evt.pulse] := by
  simp [pulses]

-- The clock is the latest time seen, and the score what has not decayed by then.
structure Settled (settings : Settings ℝ) (start : Option (ℝ × Timestamp)) (evts : List Event)
    (acc : Option (ℝ × Timestamp)) : Prop where
  clock : acc.map (·.2) = latest (start.map (·.2)) (evts.map (·.timestamp))
  score : ∀ s t, acc = some (s, t) →
    s = decayed settings.scoreDecayLambda (pulses start evts) t.days
  empty : acc = none → pulses start evts = []

namespace Settled

variable {acc : Option (ℝ × Timestamp)}

theorem initial : Settled settings start [] start where
  clock := rfl
  score s t h := by simp [h, pulses, decayed.singleton]
  empty h := by simp [h, pulses]

theorem step (h : Settled settings start evts acc) (evt : Event) :
    Settled settings start (evts ++ [evt]) (some (advance settings acc evt)) where
  clock := by
    rw [List.map_append, latest.append, ← h.clock]
    rfl
  empty := nofun
  score s t e := by
    rw [pulses_append_singleton]
    simp only [advance, computeNewScore, Option.some.injEq, Prod.mk.injEq] at e
    obtain ⟨rfl, rfl⟩ := e
    cases acc
    case none =>
      simp [h.empty rfl, decayed.singleton, Event.pulse]
    case some acc =>
      have hs := h.score acc.1 acc.2 rfl
      simp only [Option.elim_some, Option.map_some, Option.getD_none]
      split
      case isTrue hlt =>
        have hd := Timestamp.days_monotone hlt.le
        rw [max_eq_right hlt.le, decayed.append_older, ← hs, daysBetween_eq, abs_sub_comm,
          abs_of_nonneg (sub_nonneg.mpr hd)]
        rfl
      case isFalse hle =>
        have hle := not_lt.mp hle
        have hd := Timestamp.days_monotone hle
        rw [max_eq_left hle, show evt.timestamp.days = evt.pulse.time from rfl,
          decayed.append_newer acc.2.days, ← hs, daysBetween_eq, abs_of_nonneg (sub_nonneg.mpr hd)]
        rfl

theorem fold (settings : Settings ℝ) (start : Option (ℝ × Timestamp)) (evts : List Event) :
    Settled settings start evts (foldScore settings start evts) := by
  induction evts using List.reverseRec
  case nil => exact initial
  case append_singleton evts evt hi =>
    simpa [foldScore] using hi.step evt

theorem perm {evts' : List Event} (h : Settled settings start evts acc) (hp : evts.Perm evts') :
    Settled settings start evts' acc := by
  have hps : (pulses start evts).Perm (pulses start evts') := (hp.map _).append_left _
  constructor
  case clock => exact h.clock.trans <| latest.perm (hp.map _)
  case score => exact fun s t e => (h.score s t e).trans <| decayed.perm hps
  case empty => exact fun e => List.nil_perm.mp <| h.empty e ▸ hps

theorem unique {acc' : Option (ℝ × Timestamp)} (h : Settled settings start evts acc)
    (h' : Settled settings start evts acc') : acc = acc' := by
  have hc := h.clock.trans h'.clock.symm
  cases acc <;> cases acc' <;> simp only [Option.map_none, Option.map_some, reduceCtorEq,
    Option.some.injEq] at hc
  case none.none => rfl
  case some.some acc acc' =>
    have hs := h.score acc.1 acc.2 rfl
    rw [hc, ← h'.score acc'.1 acc'.2 rfl] at hs
    rw [Prod.ext hs hc]

end Settled
-- The order in which events arrive leaves no trace in the score.
theorem score_closed_form (settings : Settings ℝ) (start : Option (ℝ × Timestamp))
    (evts : List Event) :
    let folded := foldScore settings start evts
    (folded.isSome ↔ start.isSome ∨ evts ≠ []) ∧
    (∀ score clock, folded = some (score, clock) →
      IsGreatest {t | start.map (·.2) = some t ∨ ∃ evt ∈ evts, evt.timestamp = t} clock ∧
      score = decayedSum settings start evts clock ∧
      ∀ now, scoreAt settings score (some clock) now =
        max (-50) (min 200 (decayedSum settings start evts (max now clock)))) ∧
    ∀ evts', evts.Perm evts' → foldScore settings start evts' = folded := by
  have h := Settled.fold settings start evts
  refine ⟨?_, fun score clock e => ?_, fun evts' hp => ?_⟩
  · rw [← Option.isSome_map (f := Prod.snd), h.clock, latest.isSome_iff]
    simp
  · have hs := h.score score clock e
    refine ⟨?_, hs.trans (decayedSum_eq clock).symm, fun now => ?_⟩
    · have hc := h.clock
      rw [e] at hc
      simpa using latest.eq_some_iff.mp hc.symm
    · rw [hs, scoreAt_eq, decayedSum_eq]
  · exact Settled.fold settings start evts' |>.unique <| h.perm hp

end ClosedForm

section Example

open EpochDay

def purchase : Event where
  eventId     := "e1"
  customerId  := "c1"
  channel     := "email"
  eventType   := "purchase"
  timestamp   := 9 * Timestamp.second
  metadata    := []
  processedAt := none
  status      := .pending

-- A late arrival at the same instant as the start, on another channel.
def lateComplaint : Event :=
  { purchase with
    eventId   := "e2"
    channel   := "sms"
    eventType := "complaint"
    timestamp := 5 * Timestamp.second }

theorem score_closed_form_late :
    let start := some (3, 5 * Timestamp.second)
    foldScore .default start [lateComplaint, purchase] =
      foldScore .default start [purchase, lateComplaint] ∧
    ∃ score clock, foldScore .default start [purchase, lateComplaint] = some (score, clock) ∧
      score = decayedSum .default start [purchase, lateComplaint] clock := by
  intro start
  obtain ⟨hd, hc, hp⟩ := score_closed_form .default start [purchase, lateComplaint]
  refine ⟨hp _ <| .swap .., ?_⟩
  obtain ⟨⟨score, clock⟩, h⟩ := Option.isSome_iff_exists.mp <| hd.mpr <| .inl rfl
  exact ⟨score, clock, h, hc score clock h |>.right.left⟩

end Example
end MarTech
