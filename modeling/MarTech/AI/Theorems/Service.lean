import MarTech.AI.Service
import Mathlib.Data.List.Perm.Basic
import Mathlib.Algebra.Order.Ring.Int

namespace MarTech

section Runs

variable {T α : Type}

namespace AnalysisService

-- The circuit is open from the threshold on, and whenever a probe is out.
structure Coherent (settings : BreakerSettings T) (service : AnalysisService T) : Prop where
  opened : service.openedAt.isSome ↔ settings.threshold ≤ service.failures
  closed : service.openedAt = none → service.probing = false

theorem Coherent.init {settings : BreakerSettings T} : Coherent settings (init : AnalysisService T) where
  opened := by
    have := settings.threshold_bound
    simp only [AnalysisService.init, Option.isSome_none, Bool.false_eq_true, false_iff]
    omega
  closed _ := rfl

variable {settings : BreakerSettings T} {service : AnalysisService T} {now : T}

@[simp]
theorem record_probing (settings : BreakerSettings T) (service : AnalysisService T) (probe : Bool)
    (awaited : Awaited α) (now : T) :
    (service.record settings probe awaited now).probing = service.probing := by
  cases awaited <;> simp only [record]
  split <;> rfl

@[simp]
theorem release_probing (service : AnalysisService T) (probe : Bool) :
    (service.release probe).probing = (service.probing && !probe) := by
  cases probe <;> simp [release]

@[simp]
theorem release_openedAt (service : AnalysisService T) (probe : Bool) :
    (service.release probe).openedAt = service.openedAt := by
  cases probe <;> rfl

@[simp]
theorem release_failures (service : AnalysisService T) (probe : Bool) :
    (service.release probe).failures = service.failures := by
  cases probe <;> rfl

-- What is not a probe and succeeds has no say while the circuit is open.
theorem record_success_of_open (h : service.openedAt.isSome) (analysis : α) :
    (service.record settings false (.success analysis) now).release false = service := by
  have : service.openedAt ≠ none := Option.isSome_iff_ne_none.mp h
  simp [record, release, this]

theorem Coherent.release_record (h : Coherent settings service) {probe : Bool}
    (hp : probe → service.probing) (awaited : Awaited α) (now : T) :
    Coherent settings ((service.record settings probe awaited now).release probe) := by
  have hb := settings.threshold_bound
  have ho := h.opened
  have hc := h.closed
  constructor
  case opened =>
    simp only [release_openedAt, release_failures]
    cases awaited
    case cancelled => exact ho
    case success =>
      simp only [record]
      split
      case isTrue =>
        simp only [Option.isSome_none, Bool.false_eq_true, false_iff]
        omega
      case isFalse => exact ho
    case failure =>
      simp only [record]
      split
      case isTrue hs =>
        simp only [Option.isSome_some, true_iff]
        rcases hs with hs | hs
        · have := ho.mp <| Option.isSome_iff_ne_none.mpr fun hn => by simp [hc hn, hs] at hp
          omega
        · exact hs
      case isFalse hn =>
        rw [ho]
        omega
  case closed =>
    simp only [release_openedAt, release_probing, record_probing]
    cases awaited
    case cancelled => exact fun hn => by simp [hc hn]
    case success =>
      simp only [record]
      split
      case isTrue hs =>
        rcases hs with rfl | hs
        · simp
        · simp [hc hs]
      case isFalse hn => exact fun hs => absurd (.inr hs) hn
    case failure =>
      simp only [record]
      split
      case isTrue  => simp
      case isFalse => exact fun hn => by simp [hc hn]

variable [AddGroup T] [LinearOrder T]

-- The three ways through the first section under the lock.
theorem gate_cases (settings : BreakerSettings T) (service : AnalysisService T) (now : T) :
    (service.openedAt = none ∧ service.gate settings now = (service, some false)) ∨
    (∃ t, service.openedAt = some t ∧ (service.probing ∨ now - t < settings.cooldown) ∧
      service.gate settings now = (service, none)) ∨
    ∃ t, service.openedAt = some t ∧ service.probing = false ∧ settings.cooldown ≤ now - t ∧
      service.gate settings now = ({ service with probing := true }, some true) := by
  unfold gate
  split
  case h_1 h => exact .inl ⟨h, rfl⟩
  case h_2 t h =>
    split
    case isTrue hc => exact .inr <| .inl ⟨t, h, hc, rfl⟩
    case isFalse hc =>
      simp only [not_or, Bool.not_eq_true, not_lt] at hc
      exact .inr <| .inr ⟨t, h, hc.left, hc.right, rfl⟩

theorem Coherent.gate (h : Coherent settings service) (now : T) :
    Coherent settings (service.gate settings now).1 := by
  rcases gate_cases settings service now with ⟨_, he⟩ | ⟨_, _, _, he⟩ | ⟨_, ho, _, _, he⟩ <;> rw [he]
  case inl     => exact h
  case inr.inl => exact h
  case inr.inr => exact ⟨h.opened, by simp [ho]⟩

end AnalysisService

namespace Process

-- The probes in flight.
def probes (process : Process T α) : Nat :=
  process.inFlight.countP (·.probe)

structure Coherent (settings : BreakerSettings T) (process : Process T α) : Prop where
  service : process.service.Coherent settings
  probes  : process.probes = process.service.probing.toNat

theorem countP_eraseIdx {β : Type} {xs : List β} {i : Nat} {x : β} (h : xs[i]? = some x)
    (p : β → Bool) : xs.countP p = (xs.eraseIdx i).countP p + (p x).toNat := by
  obtain ⟨hi, rfl⟩ := List.getElem?_eq_some_iff.mp h
  rw [← (List.getElem_cons_eraseIdx_perm hi).countP_eq p, List.countP_cons]
  cases p xs[i] <;> rfl

variable [AddGroup T] [LinearOrder T] {settings : BreakerSettings T} {process : Process T α}

namespace Coherent

theorem enter (h : Coherent settings process) (assessment : Assessment α) (provider : Bool)
    (now : T) : Coherent settings (process.enter settings assessment provider now).1 := by
  cases provider
  case false => exact h
  case true =>
    have hs := h.service.gate now
    have hp := h.probes
    rcases AnalysisService.gate_cases settings process.service now with
      ⟨ho, he⟩ | ⟨_, _, _, he⟩ | ⟨_, ho, hn, _, he⟩ <;>
      rw [he] at hs <;> simp only [Process.enter, he, if_true]
    case inl     => exact ⟨hs, by simpa [Process.probes, List.countP_append] using hp⟩
    case inr.inl => exact h
    case inr.inr => exact ⟨hs, by simpa [Process.probes, List.countP_append, hn] using hp⟩

omit [AddGroup T] [LinearOrder T] in
theorem resume (h : Coherent settings process) (position : Nat) (awaited : Awaited α) (now : T) :
    Coherent settings (process.resume settings position awaited now).1 := by
  simp only [Process.resume]
  split
  case h_1 => exact h
  case h_2 call hc =>
    have hp : process.probes = _ := countP_eraseIdx hc (·.probe)
    rw [h.probes] at hp
    constructor
    case service =>
      refine h.service.release_record (fun hb => ?_) _ now
      simp only [hb, Bool.toNat_true] at hp
      cases hq : process.service.probing <;> simp [hq] at hp ⊢
    case probes =>
      simp only [AnalysisService.release_probing, AnalysisService.record_probing, Process.probes]
      cases hb : call.probe <;> cases hq : process.service.probing <;>
        simp only [hb, hq, Bool.toNat_true, Bool.toNat_false, Bool.not_true, Bool.not_false,
          Bool.and_true, Bool.and_false] at hp ⊢ <;>
        omega

theorem turn (h : Coherent settings process) (turn : Turn T α) :
    Coherent settings (process.turn settings turn) := by
  cases turn
  case enter  => exact h.enter ..
  case resume => exact h.resume ..

theorem run (settings : BreakerSettings T) (turns : List (Turn T α)) :
    Coherent settings (Process.run settings turns) := by
  have hi : Coherent settings (init : Process T α) := ⟨.init, rfl⟩
  have : ∀ process, Coherent settings process →
      Coherent settings (turns.foldl (Process.turn settings) process) := by
    intro process h
    induction turns generalizing process
    case nil            => exact h
    case cons turn _ hi => exact hi _ (h.turn turn)
  exact this init hi

end Coherent

-- What holds of a process whatever calls are in flight and however they turn out.
structure Sound (settings : BreakerSettings T) (process : Process T α) : Prop where
  opened     : process.service.openedAt.isSome ↔ settings.threshold ≤ process.service.failures
  probing    : process.service.probing ↔ process.probes = 1
  one_probe  : process.probes ≤ 1
  probe_open : process.service.probing → process.service.openedAt.isSome
  -- A provider is called only when no probe is out, and not before an open circuit has cooled down.
  calls      : ∀ assessment provider now call,
    (process.enter settings assessment provider now).1.inFlight = process.inFlight ++ [call] →
      process.probes = 0 ∧
        ∀ t, process.service.openedAt = some t → settings.cooldown ≤ now - t
  success    : ∀ position call awaited analysis now, process.inFlight[position]? = some call →
    call.assessment.awaited awaited = .success analysis → call.probe = false →
      process.service.openedAt.isSome →
        (process.resume settings position awaited now).1.service = process.service
  recovery   : ∀ assessment t now, process.service.openedAt = some t →
    settings.cooldown ≤ now - t → process.probes = 0 →
      (process.enter settings assessment true now).1.inFlight =
        process.inFlight ++ [⟨assessment, true⟩]

theorem Coherent.sound (h : Coherent settings process) : Sound settings process where
  opened     := h.service.opened
  probing    := by rw [h.probes]; cases process.service.probing <;> decide
  one_probe  := by rw [h.probes]; cases process.service.probing <;> decide
  probe_open := fun hp => Option.isSome_iff_ne_none.mpr fun hn => by simp [h.service.closed hn] at hp
  calls assessment provider now call := by
    cases provider
    case false => simp [Process.enter]
    case true =>
      have hp := h.probes
      rcases AnalysisService.gate_cases settings process.service now with
        ⟨ho, he⟩ | ⟨_, _, _, he⟩ | ⟨t, ho, hn, hle, he⟩ <;> simp only [Process.enter, he, if_true]
      case inl     => simp [ho, hp, h.service.closed ho]
      case inr.inl => simp
      case inr.inr => exact fun _ => ⟨by simp [hp, hn], fun t' ht => by simp_all⟩
  success position call awaited analysis now hc hs hb ho := by
    simp [Process.resume, hc, hs, hb, AnalysisService.record_success_of_open ho]
  recovery assessment t now ht hle hp := by
    have hn : process.service.probing = false := by
      cases hq : process.service.probing
      case false => rfl
      case true  => simp [h.probes, hq] at hp
    rcases AnalysisService.gate_cases settings process.service now with
      ⟨ho, _⟩ | ⟨t', ho, hc, _⟩ | ⟨_, _, _, _, he⟩
    · simp [ho] at ht
    · have : t' = t := by simpa [ht] using ho.symm
      simp [hn, this, not_lt.mpr hle] at hc
    · simp [Process.enter, he]

-- Whatever the calls do, and whatever the clock reads.
theorem breaker_sound (settings : BreakerSettings T) (turns : List (Turn T α)) :
    Sound settings (Process.run settings turns) :=
  (Coherent.run settings turns).sound

-- Three failures in a row open the circuit, and the next call that comes too early is refused.
example :
    let settings : BreakerSettings ℤ := ⟨3, 60, by decide⟩
    let failing : List (Turn ℤ Unit) := [.enter ⟨(), fun _ => none⟩ true 0, .resume 0 .failure 5]
    let process := run settings (failing ++ failing ++ failing)
    process.service.openedAt = some 5 ∧
      (process.enter settings ⟨(), fun _ => none⟩ true 64).1.inFlight.length = 0 := by
  decide

end Process
end Runs
end MarTech
