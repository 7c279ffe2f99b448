import Mathlib
import MarTech.Pipeline.Storage
import MarTech.Pipeline.Theorems.Acknowledge

set_option mvcgen.warning false

namespace MarTech

variable {R : Type}

-- No other session commits anything while the call is awaited.
structure Await.Alone (a : Await R) : Prop where
  before : a.before = []
  found  : a.missed = false

def World.Alone (w : World R) : Prop :=
  ∀ a ∈ w.awaits, a.Alone

section Outcomes

variable [Runtime] [Field R] [LinearOrder R] [FloorRing R] [MathExp R] (settings : Settings R)
         (payload : Json.Object) (db : Db R)

-- What attempts that raise can have done to the tables.
def Touched (db' : Db R) : Prop :=
  db' = db ∨ ∃ now, processOneEvent settings db payload now = .committed db' ()

-- What the handling of a message that is completed has done to the tables.
inductive Completed : Db R → Prop
  | processed (now) (answered : (processOneEvent settings db payload now).answer.isSome) :
    Completed ((processOneEvent settings db payload now).db db)
  | failed (error retries dlqId now) (fresh : db.dlqEvents.get dlqId = none) :
    Completed ((failEvent db payload error retries dlqId now).db db)

end Outcomes

section Terminal

variable [Runtime] {payload : Json.Object} {db db' : Db R} {now : Timestamp}

-- The consumer does nothing to an event that has come to its end.
theorem failEvent_terminal (h : isTerminal db (payloadEventId payload)) (error : Error)
    (retries dlqId : Nat) : failEvent db payload error retries dlqId now = .returned () :=
  if_pos h

variable [Field R] [LinearOrder R] [FloorRing R] [MathExp R] {settings : Settings R}

theorem processOneEvent_terminal {body : EventIn} (hb : EventIn.modelValidate payload = some body)
    (h : isTerminal db (payloadEventId payload)) :
    processOneEvent settings db payload now = .returned () := by
  rw [payloadEventId_of_modelValidate hb, isTerminal] at h
  obtain ⟨evt, he, hs⟩ := Option.any_eq_true _ _ |>.mp h
  simp only [processOneEvent, hb, he]
  exact if_pos (by simpa using hs)

theorem processOneEvent_not_committed (h : isTerminal db (payloadEventId payload)) :
    processOneEvent settings db payload now ≠ .committed db' () := by
  intro hc
  obtain ⟨body, hb, _⟩ := processOneEvent_committed hc
  simp [processOneEvent_terminal hb h] at hc

theorem Completed.of_returned (h : processOneEvent settings db payload now = .returned ()) :
    Completed settings payload db db := by
  have hc : Completed settings payload db ((processOneEvent settings db payload now).db db) :=
    .processed now (by rw [h]; rfl)
  rwa [h] at hc

theorem Completed.of_committed (h : processOneEvent settings db payload now = .committed db' ()) :
    Completed settings payload db db' := by
  have hc : Completed settings payload db ((processOneEvent settings db payload now).db db) :=
    .processed now (by rw [h]; rfl)
  rwa [h] at hc

end Terminal

namespace Worker

open Std.Do

-- What holds of how a run ends.
def Ends {α : Type} (F : α → World R → Prop) (E : World R → Prop) :
    EStateM.Result Exn (World R) α → Prop
  | .ok x w    => F x w
  | .error _ w => E w

namespace Ends

variable {α β : Type} {P E E' : World R → Prop} {F F' : α → World R → Prop} {x : Worker R α}
         {w : World R} {result : EStateM.Result Exn (World R) α}

theorem of_triple (h : ⦃fun w => ⌜P w⌝⦄ x ⦃post⟨fun a w => ⌜F a w⌝, fun _ w => ⌜E w⌝⟩⦄)
    (hw : P w) : Ends F E (x.run w) :=
  EStateM.of_wp_run_eq rfl (Ends F E) fun _ => h w hw

theorem and (h : Ends F E result) (h' : Ends F' E' result) :
    Ends (fun a w => F a w ∧ F' a w) (fun w => E w ∧ E' w) result := by
  cases result
  all_goals exact ⟨h, h'⟩

theorem imp (h : Ends F E result) (hF : ∀ a w, F a w → F' a w) (hE : ∀ w, E w → E' w) :
    Ends F' E' result := by
  cases result
  case ok    => exact hF _ _ h
  case error => exact hE _ h

theorem bind {F' : β → World R → Prop} {f : α → Worker R β} (h : Ends F E (x.run w))
    (hf : ∀ a w, F a w → Ends F' E' (f a |>.run w)) (hE : ∀ w, E w → E' w) :
    Ends F' E' (x >>= f |>.run w) := by
  rw [EStateM.run_bind]
  cases hx : x.run w
  case ok a w' => rw [hx] at h; exact hf a w' h
  case error   => rw [hx] at h; exact hE _ h

theorem after (h : Ends (fun _ => E) E result) : E (after result) := by
  cases result
  all_goals exact h

-- A run that cannot end in an exception returns.
theorem returns (h : Ends F (fun _ => False) (x.run w)) : ∃ a w', x.run w = .ok a w' ∧ F a w' := by
  cases hx : x.run w
  case ok a w' => rw [hx] at h; exact ⟨a, w', rfl, h⟩
  case error   => rw [hx] at h; exact h.elim

end Ends

section Calls

variable {Q : Db R → Prop} {α : Type}

theorem suspend_alone :
    ⦃fun w => ⌜w.Alone ∧ Q w.db⌝⦄ (suspend : Worker R (Await R))
    ⦃post⟨fun a w => ⌜a.Alone ∧ w.Alone ∧ Q w.db⌝, fun _ w => ⌜w.Alone ∧ Q w.db⌝⟩⦄ := by
  have hcommits (dbs : List (Db R)) :
      ⦃fun w => ⌜dbs = [] ∧ w.Alone ∧ Q w.db⌝⦄ commits dbs
      ⦃post⟨fun _ w => ⌜w.Alone ∧ Q w.db⌝, fun _ w => ⌜w.Alone ∧ Q w.db⌝⟩⦄ := by
    cases dbs
    case nil =>
      mvcgen [commits]
      case vc1 h => exact h.right
    case cons db dbs =>
      mvcgen [commits]
      case vc1 h => exact absurd h.left (List.cons_ne_nil _ _)
  mvcgen [suspend, hcommits]
  case vc2.h_2.pre h a as e _ =>
    have hall := List.forall_mem_cons.mp (e ▸ h.left : ∀ x ∈ a :: as, x.Alone)
    exact ⟨hall.left.before, hall.right, h.right⟩
  case vc3.h_2.post.success hw a as e _ _ _ h =>
    have hall := List.forall_mem_cons.mp (e ▸ hw.left : ∀ x ∈ a :: as, x.Alone)
    exact ⟨hall.left, h⟩

theorem call_alone (x : Await R → α) :
    ⦃fun w => ⌜w.Alone ∧ Q w.db⌝⦄ call x
    ⦃post⟨fun _ w => ⌜w.Alone ∧ Q w.db⌝, fun _ w => ⌜w.Alone ∧ Q w.db⌝⟩⦄ := by
  have hsuspend := suspend_alone (Q := Q)
  mvcgen [call, hsuspend, resume]
  case vc2.post.success.h_1 h => exact h.right
  case vc3.post.success.h_2 h => exact h.right

theorem session_alone {body : Await R → Db R → Outcome R α} {F : α → Db R → Prop}
    {E : Db R → Prop} (raised : ∀ db, Q db → E db)
    (returned : ∀ a db x, a.Alone → Q db → body a db = .returned x → F x db)
    (committed : ∀ a db db' x, a.Alone → Q db → body a db = .committed db' x →
      F x db' ∧ E db') :
    ⦃fun w => ⌜w.Alone ∧ Q w.db⌝⦄ session body
    ⦃post⟨fun x w => ⌜w.Alone ∧ F x w.db⌝, fun _ w => ⌜w.Alone ∧ E w.db⌝⟩⦄ := by
  have hsuspend := suspend_alone (Q := Q)
  mvcgen [session, hsuspend, resume, commit]
  case vc2.post.success.h_1 h         => exact ⟨h.right.left, raised _ h.right.right⟩
  case vc3.post.success.h_2.h_1 h _ _ => exact ⟨h.right.left, raised _ h.right.right⟩
  case vc4.post.success.h_2.h_2.h_1 h _ e _ =>
    exact ⟨h.right.left, returned _ _ _ h.left h.right.right e⟩
  case vc5.post.success.h_2.h_2.h_2 h _ _ _ _ => exact ⟨h.right.left, raised _ h.right.right⟩
  case vc6.post.success.h_2.h_3.h_1 h _ _ e _ _ =>
    exact ⟨h.right.left, committed _ _ _ _ h.left h.right.right e |>.left⟩
  case vc7.post.success.h_2.h_3.h_2 h _ _ e _ _ _ =>
    exact ⟨h.right.left, committed _ _ _ _ h.left h.right.right e |>.right⟩
  case vc8.post.except.handle => exact fun h hq => ⟨h, raised _ hq⟩

end Calls

section Handling

variable [Runtime] [Field R] [LinearOrder R] [FloorRing R] [MathExp R] (settings : Settings R)
         (payload : Json.Object) (db₀ : Db R) {process : Await R → Db R → Outcome R Unit}
         {fail : Error → Nat → Await R → Db R → Outcome R Unit}

theorem processSession_alone
    (hp : MayRaise (fun a db => MarTech.processOneEvent settings db payload a.now) process) :
    ⦃fun w => ⌜w.Alone ∧ Touched settings payload db₀ w.db⌝⦄ session process
    ⦃post⟨fun _ w => ⌜w.Alone ∧ Completed settings payload db₀ w.db⌝,
          fun _ w => ⌜w.Alone ∧ Touched settings payload db₀ w.db⌝⟩⦄ := by
  refine session_alone (fun _ => id) ?_ ?_
  case refine_1 =>
    rintro a db ⟨⟩ _ (rfl | ⟨now, ht⟩) h
    · exact .of_returned (hp.returned h)
    · exact .of_committed ht
  case refine_2 =>
    rintro a db db' ⟨⟩ _ (rfl | ⟨now, ht⟩) h
    · exact ⟨.of_committed (hp.committed h), .inr ⟨a.now, hp.committed h⟩⟩
    · exact absurd (hp.committed h) <| processOneEvent_not_committed (isTerminal_of_committed ht)

omit [Field R] [LinearOrder R] [FloorRing R] [MathExp R] in
theorem failSession_found {a : Await R} (ha : a.Alone) {db : Db R} {error : Error} {retries : Nat}
    {outcome : Outcome R Unit} (h : failSession payload error retries a db = outcome) :
    outcome = .raised uniqueViolation ∨ db.dlqEvents.get a.dlqId = none ∧
      MarTech.failEvent db payload error retries a.dlqId a.now = outcome := by
  simp only [failSession] at h
  split at h
  case isTrue     => exact .inl h.symm
  case isFalse hn => exact .inr ⟨by simpa using hn, by simpa [ha.found] using h⟩

theorem failSession_alone (error : Error) (retries : Nat)
    (hf : MayRaise (failSession payload error retries) (fail error retries)) :
    ⦃fun w => ⌜w.Alone ∧ Touched settings payload db₀ w.db⌝⦄ session (fail error retries)
    ⦃post⟨fun _ w => ⌜w.Alone ∧ Completed settings payload db₀ w.db⌝,
          fun _ w => ⌜w.Alone ∧ (Touched settings payload db₀ w.db ∨
            Completed settings payload db₀ w.db)⌝⟩⦄ := by
  have hfailed (a : Await R) (db : Db R) (ht : Touched settings payload db₀ db)
      {outcome : Outcome R Unit} (hn : db.dlqEvents.get a.dlqId = none)
      (h : MarTech.failEvent db payload error retries a.dlqId a.now = outcome) :
      Completed settings payload db₀ (outcome.db db) := by
    obtain rfl | ⟨now, ht⟩ := ht
    · exact h ▸ .failed error retries a.dlqId a.now hn
    · rw [failEvent_terminal (isTerminal_of_committed ht)] at h
      exact h ▸ .of_committed ht
  refine session_alone (Q := Touched settings payload db₀)
    (F := fun _ db => Completed settings payload db₀ db)
    (E := fun db => Touched settings payload db₀ db ∨ Completed settings payload db₀ db)
    (fun _ => .inl) ?_ ?_
  case refine_1 =>
    rintro a db ⟨⟩ ha ht h
    obtain hr | ⟨hn, h⟩ := failSession_found payload ha (hf.returned h)
    · cases hr
    · exact hfailed a db ht hn h
  case refine_2 =>
    rintro a db db' ⟨⟩ ha ht h
    obtain hr | ⟨hn, h⟩ := failSession_found payload ha (hf.committed h)
    · cases hr
    · have hc := hfailed a db ht hn h
      exact ⟨hc, .inr hc⟩

theorem retrying_alone
    (hp : MayRaise (fun a db => MarTech.processOneEvent settings db payload a.now) process)
    (hf : ∀ error retries, MayRaise (failSession payload error retries) (fail error retries))
    (index : Nat) (numbers : List Nat) (hm : settings.workerMaxRetries ∈ numbers) :
    ⦃fun w => ⌜w.Alone ∧ Touched settings payload db₀ w.db⌝⦄
    retrying settings.workerMaxRetries (session process)
      (fun error retries => session (fail error retries)) index numbers
    ⦃post⟨fun _ w => ⌜w.Alone ∧ Completed settings payload db₀ w.db⌝,
          fun _ w => ⌜w.Alone ∧ (Touched settings payload db₀ w.db ∨
            Completed settings payload db₀ w.db)⌝⟩⦄ := by
  induction numbers
  case nil => simp at hm
  case cons number rest hi =>
    have hprocess := processSession_alone settings payload db₀ hp
    have hfail error retries :=
      failSession_alone settings payload db₀ error retries (hf error retries)
    have hcall := @call_alone _ (Touched settings payload db₀) Unit
    have hi := fun h : ¬number = settings.workerMaxRetries =>
      hi (List.mem_of_ne_of_mem (Ne.symm h) hm)
    mvcgen [retrying, observe, hprocess, hfail, sleep, hcall, hi]
    case vc2.post.success          => exact fun ha hc => ⟨ha, hc⟩
    case vc3.post.except.handle.h_1 h => exact ⟨h.left, .inl h.right⟩
    case vc7 hn _ _                => exact fun _ _ _ => hn
    case vc8.post.except.handle.h_2.isFalse.post.except.handle =>
      exact fun ha ht => ⟨ha, .inl ht⟩

theorem handle_alone (index : Nat) :
    ⦃fun w => ⌜w.Alone ∧ Touched settings payload db₀ w.db⌝⦄ handle settings index payload
    ⦃post⟨fun _ w => ⌜w.Alone ∧ Completed settings payload db₀ w.db⌝,
          fun _ w => ⌜w.Alone ∧ (Touched settings payload db₀ w.db ∨
            Completed settings payload db₀ w.db)⌝⟩⦄ := by
  have hattempts := retrying_alone settings payload db₀ (.refl _) (fun _ _ => .refl _) index
    (List.range (settings.workerMaxRetries + 1)) (by simp)
  mvcgen [handle, attempts_eq_retrying, processOneEvent, observe, hattempts]

variable {w w' : World R} {index : Nat}

theorem handle_completed (ha : w.Alone)
    (h : (handle settings index payload).run w = .ok () w') :
    Completed settings payload w.db w'.db := by
  have hends := Ends.of_triple (handle_alone settings payload w.db index) ⟨ha, .inl rfl⟩
  rw [h] at hends
  exact hends.right

theorem handle_after (index : Nat) (ha : w.Alone) :
    let db := (after <| handle settings index payload |>.run w).db
    Touched settings payload w.db db ∨ Completed settings payload w.db db := by
  have hends := Ends.of_triple (handle_alone settings payload w.db index) ⟨ha, .inl rfl⟩
  simp only [after]
  cases h : (handle settings index payload).run w
  case ok    => rw [h] at hends; exact .inr hends.right
  case error => rw [h] at hends; exact hends.right

end Handling

section Clean

-- An awaited call that nothing interferes with, and that does not raise by itself.
structure Clean (a : Await R) : Prop extends a.Alone where
  fault : a.fault = none

-- As many such calls are left, and the key that they draw is not taken.
def Left (a : Await R) (n : Nat) (w : World R) : Prop :=
  w.awaits = .replicate n a ∧ w.db.dlqEvents.get a.dlqId = none

variable {a : Await R}

theorem suspend_clean (hc : Clean a) (n : Nat) :
    ⦃fun w => ⌜Left a (n + 1) w⌝⦄ (suspend : Worker R (Await R))
    ⦃post⟨fun a' w => ⌜a' = a ∧ Left a n w⌝, fun _ _ => ⌜False⌝⟩⦄ := by
  have hcommits (dbs : List (Db R)) :
      ⦃fun w => ⌜dbs = [] ∧ Left a n w⌝⦄ commits dbs
      ⦃post⟨fun _ w => ⌜Left a n w⌝, fun _ _ => ⌜False⌝⟩⦄ := by
    cases dbs
    case nil =>
      mvcgen [commits]
      case vc1 h => exact h.right
    case cons db dbs =>
      mvcgen [commits]
      case vc1 h => exact absurd h.left (List.cons_ne_nil _ _)
  mvcgen [suspend, hcommits]
  case vc1.h_1 h e => simp [h.left, List.replicate_succ] at e
  case vc2.h_2.pre h a' as e _ =>
    obtain ⟨ha, hd⟩ := h
    rw [e, List.replicate_succ, List.cons.injEq] at ha
    exact ⟨ha.left ▸ hc.before, ha.right, hd⟩
  case vc3.h_2.post.success h a' as e _ _ _ h' =>
    have ha := h.left
    rw [e, List.replicate_succ, List.cons.injEq] at ha
    exact ⟨ha.left, h'⟩

theorem sleep_clean (hc : Clean a) (n : Nat) :
    ⦃fun w => ⌜Left a (n + 1) w⌝⦄ (sleep : Worker R Unit)
    ⦃post⟨fun _ w => ⌜Left a n w⌝, fun _ _ => ⌜False⌝⟩⦄ := by
  have hsuspend := suspend_clean hc n
  mvcgen [sleep, call, hsuspend, resume]
  case vc2.post.success.h_1 h   => exact h.right
  case vc3.post.success.h_2 e _ h => simp [h.left, hc.fault] at e

theorem session_clean {α : Type} (hc : Clean a) (n : Nat) (body : Await R → Db R → Outcome R α) :
    ⦃fun w => ⌜Left a (n + 1) w⌝⦄ session body
    ⦃post⟨fun _ _ => ⌜True⌝, fun exn w => ⌜Left a n w ∧
      ∃ error, exn = .exception error ∧ body a w.db = .raised error⌝⟩⦄ := by
  have hsuspend := suspend_clean hc n
  mvcgen [session, hsuspend, resume, commit]
  case vc2.post.success.h_1 e _ h => simp [h.left, hc.fault] at e
  case vc3.post.success.h_2.h_1 h error e => exact ⟨h.right, error, rfl, h.left ▸ e⟩
  case vc4.post.success.h_2.h_2.h_2 hf _ h _ _ _ hf' => simp [h.left, hc.fault] at hf'
  case vc5.post.success.h_2.h_3.h_2 hf _ h _ _ _ _ _ hf' => simp [h.left, hc.fault] at hf'

section

variable [Runtime]

omit [Runtime] in
theorem failEvent_clean [Runtime] (hc : Clean a) (n : Nat) (payload : Json.Object) (error : Error)
    (retries : Nat) :
    ⦃fun w => ⌜Left a (n + 1) w⌝⦄ (failEvent payload error retries : Worker R Unit)
    ⦃post⟨fun _ _ => ⌜True⌝, fun _ _ => ⌜False⌝⟩⦄ := by
  have hsession := @session_clean _ _ Unit hc n
  mvcgen [failEvent, hsession]
  case vc3.post.except.handle =>
    rintro h ⟨error, rfl, e⟩
    split at e
    case isTrue ht => simp [h.right] at ht
    case isFalse =>
      split at e
      case isTrue  => cases e
      case isFalse =>
        simp only [MarTech.failEvent] at e
        split at e <;> cases e

variable [Field R] [LinearOrder R] [FloorRing R] [MathExp R] (settings : Settings R)

theorem attempts_clean (hc : Clean a) (index : Nat) (payload : Json.Object) (numbers : List Nat)
    (hm : settings.workerMaxRetries ∈ numbers) {n : Nat} (hn : 2 * numbers.length ≤ n) :
    ⦃fun w => ⌜Left a n w⌝⦄ attempts settings index payload numbers
    ⦃post⟨fun _ _ => ⌜True⌝, fun _ _ => ⌜False⌝⟩⦄ := by
  induction numbers generalizing n
  case nil => simp at hm
  case cons number rest hi =>
    obtain ⟨n, rfl⟩ : ∃ m, n = m + 2 := ⟨n - 2, by simp at hn; omega⟩
    have hprocess := @session_clean _ _ Unit hc (n + 1)
    have hfail := failEvent_clean hc n payload
    have hsleep := sleep_clean hc n
    have hi := fun h : ¬number = settings.workerMaxRetries =>
      hi (List.mem_of_ne_of_mem (Ne.symm h) hm) (n := n) (by simp at hn; omega)
    mvcgen [attempts, observe, processOneEvent, hprocess, hfail, hsleep, hi]
    case vc3.post.except.handle.h_1 h =>
      obtain ⟨_, error, e, _⟩ := h
      cases e
    case vc4.post.except.handle.h_2.isTrue h      => exact h.left
    case vc5.post.except.handle.h_2.isFalse.pre h => exact h.left
    case vc7 hn _ _                               => exact fun _ _ => hn

-- A handling that nothing gets in the way of is completed.
theorem handle_completes (hc : Clean a) {db : Db R} (hd : db.dlqEvents.get a.dlqId = none)
    (index : Nat) (payload : Json.Object) :
    ∃ awaits w, World.Alone (.start db awaits) ∧
      (handle settings index payload).run (.start db awaits) = .ok () w := by
  let n := 2 * (settings.workerMaxRetries + 1)
  have hattempts := attempts_clean settings hc index payload
    (List.range (settings.workerMaxRetries + 1)) (by simp) (n := n) (by simp [n])
  have hhandle : ⦃fun w => ⌜Left a n w⌝⦄ handle settings index payload
      ⦃post⟨fun _ _ => ⌜True⌝, fun _ _ => ⌜False⌝⟩⦄ := by
    mvcgen [handle, observe, hattempts]
  have hends := Ends.of_triple hhandle (w := .start db (.replicate n a)) ⟨rfl, hd⟩
  obtain ⟨_, w, hrun, _⟩ := hends.returns
  exact ⟨.replicate n a, w, fun a' ha' => List.eq_of_mem_replicate ha' ▸ hc.toAlone, hrun⟩

end
end Clean
end Worker
end MarTech
