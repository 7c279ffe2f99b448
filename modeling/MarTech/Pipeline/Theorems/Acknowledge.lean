import Mathlib
import MarTech.Pipeline.Watch
import MarTech.Pipeline.Theorems.View

set_option mvcgen.warning false

namespace MarTech.Worker

open Std.Do

variable {R : Type}

section Calls

variable {P : World R → Prop} {α : Type}

theorem commits_spec (hP : Unaffected P) (dbs : List (Db R)) :
    ⦃fun w => ⌜P w⌝⦄ commits dbs ⦃post⟨fun _ w => ⌜P w⌝, fun _ w => ⌜P w⌝⟩⦄ := by
  induction dbs
  case nil => mvcgen [commits]
  case cons db _ hi =>
    mvcgen [commits, commit, hi]
    case vc1 h _ => exact hP.commit _ db h

theorem suspend_spec (hP : Unaffected P) :
    ⦃fun w => ⌜P w⌝⦄ (suspend : Worker R (Await R)) ⦃post⟨fun _ w => ⌜P w⌝, fun _ w => ⌜P w⌝⟩⦄ := by
  have hcommits := commits_spec hP
  mvcgen [suspend, hcommits]
  case vc2.h_2.pre h _ as _ _ => exact hP.suspend _ as h

theorem call_spec (hP : Unaffected P) (x : Await R → α) :
    ⦃fun w => ⌜P w⌝⦄ call x ⦃post⟨fun _ w => ⌜P w⌝, fun _ w => ⌜P w⌝⟩⦄ := by
  have hsuspend := suspend_spec hP
  mvcgen [call, hsuspend, resume]

theorem session_spec (hP : Unaffected P) (body : Await R → Db R → Outcome R α) :
    ⦃fun w => ⌜P w⌝⦄ session body
    ⦃post⟨fun x w => ⌜P w ∧ ∃ a, Took (body a) x (Watch.of w.trace).instants⌝,
          fun _ w => ⌜P w⌝⟩⦄ := by
  have hsuspend := suspend_spec hP
  mvcgen [session, hsuspend, resume, commit]
  case vc4.post.success.h_2.h_2.h_1 a _ _ _ _ h _ e _ => exact ⟨h, a, hP.returned h e⟩
  case vc6.post.success.h_2.h_3.h_1 a _ _ _ _ h db _ e _ _ =>
    exact ⟨hP.commit _ db h, a, hP.committed h e⟩
  case vc7.post.success.h_2.h_3.h_2 h db _ _ _ _ _ => exact hP.commit _ db h

end Calls

section Runs

variable [Runtime] (p : Place)

theorem failEvent_spec (payload : Json.Object) (error : Error) (retries : Nat) :
    ⦃fun w => ⌜At p w⌝⦄ (failEvent payload error retries : Worker R Unit)
    ⦃post⟨fun _ w => ⌜At p w ∧ Durable payload (Watch.of w.trace).instants⌝,
          fun _ w => ⌜At p w⌝⟩⦄ := by
  have hsession := @session_spec _ _ Unit (At.unaffected (R := R) p)
  mvcgen [failEvent, hsession]
  case vc2.post.success =>
    rintro h ⟨a, ht⟩
    refine ⟨h, .of_took ht ?_ ?_⟩
    case refine_1 =>
      intro db hr
      split at hr
      case isTrue  => cases hr
      case isFalse =>
        split at hr
        case isTrue  => cases hr
        case isFalse => exact isTerminal_of_failEvent hr
    case refine_2 =>
      intro db db' hc
      split at hc
      case isTrue    => cases hc
      case isFalse h =>
        have hn : db.dlqEvents.get a.dlqId = none := by simpa using h
        split at hc
        case isTrue  => cases hc; exact .inr (deadLetter_gains hn)
        case isFalse => exact (failEvent_eq hc).left ▸ .inr (deadLetter_gains hn)

theorem ack_spec (messageId : MessageId) (payload : Json.Object)
    (hm : p.messages[p.index]? = some (messageId, payload)) :
    ⦃fun w => ⌜At p.exhausted w ∧ Durable payload (Watch.of w.trace).instants⌝⦄
    (ack p.index messageId : Worker R Unit)
    ⦃post⟨fun _ w => ⌜At p.next w⌝, fun _ w => ⌜Between p.limit w⌝⟩⦄ := by
  have hcall := @call_spec _ _ Unit (At.unaffected (R := R) p.next)
  mvcgen [ack, observe, hcall]
  case vc1.pre h _            => exact h.left.acked h.right hm
  case vc2.post.success       => exact id
  case vc3.post.except.handle => exact fun h => h.toBetween

variable [Field R] [LinearOrder R] [FloorRing R] [MathExp R] (settings : Settings R)

theorem processOneEvent_spec (payload : Json.Object) :
    ⦃fun w => ⌜At p w⌝⦄ processOneEvent settings payload
    ⦃post⟨fun _ w => ⌜At p w ∧ Durable payload (Watch.of w.trace).instants⌝,
          fun _ w => ⌜At p w⌝⟩⦄ := by
  have hsession := @session_spec _ _ Unit (At.unaffected (R := R) p)
  mvcgen [processOneEvent, hsession]
  case vc2.post.success =>
    rintro h ⟨a, ht⟩
    exact ⟨h, .of_took ht (fun _ => isTerminal_of_returned) fun _ _ hc =>
      .inl (isTerminal_of_committed hc)⟩

-- A message is left with a durable outcome, in at most as many attempts as are still listed.
theorem attempts_spec (payload : Json.Object) (numbers : List Nat)
    (hm : settings.workerMaxRetries ∈ numbers) (hl : p.made + numbers.length ≤ p.limit) :
    ⦃fun w => ⌜At p w⌝⦄ attempts settings p.index payload numbers
    ⦃post⟨fun _ w => ⌜At p.exhausted w ∧ Durable payload (Watch.of w.trace).instants⌝,
          fun _ w => ⌜Between p.limit w⌝⟩⦄ := by
  induction numbers generalizing p
  case nil => simp at hm
  case cons number rest hi =>
    have hlt : p.made < p.limit := by simp at hl; omega
    have hexhausted : ∀ w, At p.attempted w → At (R := R) p.exhausted w := fun _ h => h.exhausted hlt
    have hprocess := processOneEvent_spec p.attempted settings payload
    have hfail := failEvent_spec (R := R) p.attempted payload
    have hcall := @call_spec _ _ Unit (At.unaffected (R := R) p.attempted)
    have hi : ¬number = settings.workerMaxRetries →
        ⦃fun w => ⌜At p.attempted w⌝⦄ attempts settings p.index payload rest
        ⦃post⟨fun _ w => ⌜At p.exhausted w ∧ Durable payload (Watch.of w.trace).instants⌝,
              fun _ w => ⌜Between p.limit w⌝⟩⦄ := by
      intro h
      apply hi p.attempted
      case hm => exact List.mem_of_ne_of_mem (Ne.symm h) hm
      case hl => simp [Place.attempted] at hl ⊢; omega
    mvcgen [attempts, observe, hprocess, hfail, sleep, hcall, hi]
    case vc1.pre h _ => exact h.attempted hlt
    case vc2.post.success => exact fun h hd => ⟨hexhausted _ h, hd⟩
    case vc3.post.except.handle.h_1 h => exact h.toBetween
    case vc5.post.except.handle.h_2.isTrue.post.success => exact fun h hd => ⟨hexhausted _ h, hd⟩
    case vc6.post.except.handle.h_2.isTrue.post.except.handle => exact fun h => h.toBetween
    case vc10.post.except.handle.h_2.isFalse.post.except.handle => exact fun h => h.toBetween
    case vc9 h _ _ => exact fun _ _ => h

theorem handle_spec (payload : Json.Object) (hl : p.limit = settings.workerMaxRetries + 1)
    (hm : p.made = 0) :
    ⦃fun w => ⌜At p w⌝⦄ handle settings p.index payload
    ⦃post⟨fun _ w => ⌜At p.exhausted w ∧ Durable payload (Watch.of w.trace).instants⌝,
          fun _ w => ⌜Between p.limit w⌝⟩⦄ := by
  have hattempts := attempts_spec p settings payload (List.range (settings.workerMaxRetries + 1))
    (by simp) (by simp [hl, hm])
  mvcgen [handle, observe, hattempts]
  case vc2.post.success            => exact fun h hd => ⟨h, hd⟩
  case vc3.post.except.handle h _  => exact h.raised p.index

theorem handleMessages_spec (messages : List Message) 
    (hl : p.limit = settings.workerMaxRetries + 1) (hm : p.made = 0)
    (hd : p.messages.drop p.index = messages) :
    ⦃fun w => ⌜At p w⌝⦄ handleMessages settings p.index messages
    ⦃post⟨fun _ w => ⌜Between p.limit w⌝, fun _ w => ⌜Between p.limit w⌝⟩⦄ := by
  induction messages generalizing p
  case nil =>
    mvcgen [handleMessages]
    case vc1 h => exact h.toBetween
  case cons message rest hi =>
    have hhandle := handle_spec p settings message.2 hl hm
    have hat : p.messages[p.index]? = some message := by
      simpa [List.head?_drop] using congrArg List.head? hd
    have hack := ack_spec (R := R) p message.1 message.2 hat
    have hi : ⦃fun w => ⌜At p.next w⌝⦄ handleMessages settings (p.index + 1) rest
        ⦃post⟨fun _ w => ⌜Between p.limit w⌝, fun _ w => ⌜Between p.limit w⌝⟩⦄ := by
      apply hi p.next hl rfl
      simpa [Place.next] using congrArg List.tail hd
    mvcgen [handleMessages, hhandle, hack, hi]

theorem iteration_spec {limit : Nat} (hl : limit = settings.workerMaxRetries + 1) :
    ⦃fun w => ⌜Between limit w⌝⦄ iteration settings
    ⦃post⟨fun _ w => ⌜Between limit w⌝, fun _ w => ⌜Between limit w⌝⟩⦄ := by
  have hcall := @call_spec R _ Unit (Between.unaffected limit)
  have hconsume := @call_spec R _ (List Message) (Between.unaffected limit)
  have hsession := @session_spec R _ Nat (Between.unaffected limit)
  have hmessages messages := handleMessages_spec ⟨limit, messages, 0, 0⟩ settings messages hl rfl rfl
  mvcgen [iteration, ensureGroup, reconcileOutbox, consume, observe, hcall, hconsume, hsession, hmessages]
  case vc3.post.success.post.success.pre h => exact h.left
  case vc4.post.success.post.success.post.success messages _ h _ => exact h.delivered messages

theorem runWorker_spec {limit : Nat} (hl : limit = settings.workerMaxRetries + 1) (n : Nat) :
    ⦃fun w => ⌜Between limit w⌝⦄ runWorker settings n
    ⦃post⟨fun _ w => ⌜Between limit w⌝, fun _ w => ⌜Between limit w⌝⟩⦄ := by
  have hiteration := iteration_spec settings hl
  have hcall := @call_spec R _ Unit (Between.unaffected limit)
  induction n
  case zero => mvcgen [runWorker]
  case succ n hi => mvcgen [runWorker, hiteration, sleep, hcall, hi]

-- Where a run ends, whether or not it ends in an exception.
def after {α : Type} : EStateM.Result Exn (World R) α → World R
  | .ok _ w | .error _ w => w

def trace (db : Db R) (awaits : List (Await R)) (n : Nat) : List (Observation R) :=
  (after <| runWorker settings n |>.run <| .start db awaits).trace

theorem trace_valid (db : Db R) (awaits : List (Await R)) (n : Nat) :
    Valid (settings.workerMaxRetries + 1) (trace settings db awaits n) := by
  have hrun := runWorker_spec settings rfl n _ (.start _ db awaits)
  exact (EStateM.of_wp_run_eq rfl (fun result => Between _ (after result)) fun _ => hrun).valid

-- Whatever the awaited calls raise and whatever other sessions commit, a message is acknowledged
-- only if, since its delivery, its handling has not raised and its event has come to a durable end,
-- and no delivery is attempted more often than is configured.
theorem acknowledged_after_outcome (db : Db R) (awaits : List (Await R)) (n : Nat) :
    (∀ t index messageId, t ++ [.acked index messageId] <+: trace settings db awaits n →
      Acknowledgeable (.of t) index messageId) ∧
    (∀ t, t <+: trace settings db awaits n →
      ∀ index, (Watch.of t).attempts.count index ≤ settings.workerMaxRetries + 1) := by
  have h := trace_valid settings db awaits n
  exact ⟨h.acks, h.attempts⟩

end Runs

section Example

open EpochDay

-- A message that is no event is attempted four times, dead-lettered and acknowledged.
example :
    let await : Await ℝ := {
      before   := []
      fault    := none
      now      := 0
      dlqId    := 1
      missed   := false
      stream   := ⟨[], 1⟩
      messages := [(1, [])] }
    (trace .default seeded.db (.replicate 12 await) 1).any fun
      | .acked 0 1 => true
      | _          => false := by
  decide +kernel

end Example
end MarTech.Worker
