import MarTech.Pipeline.Discipline

namespace MarTech

variable {R : Type}

def Outcome.map {α β : Type} (f : α → β) : Outcome R α → Outcome R β
  | raised error        => raised error
  | returned answer     => returned (f answer)
  | committed db answer => committed db (f answer)

theorem Outcome.of_map_committed {α β : Type} {f : α → β} {outcome : Outcome R α} {db : Db R} {b : β}
    (h : outcome.map f = .committed db b) : ∃ a, outcome = .committed db a ∧ f a = b := by
  cases outcome <;> simp_all [map]

namespace Consumption

variable [Runtime]

-- The call may dead-letter the event as one that is not there only if `known` does not hold of it.
def pre (closed : Prop) (known : String → Prop) : Consumption → Tables R → Prop
  | failEvent payload _ _ _ _, s =>
    let eventId := payloadEventId payload
    known eventId → closed ∨ (s.db.events.get eventId).isSome
  | _, _ => True

theorem pre_stable (closed : Prop) (known : String → Prop) (call : Consumption) :
    (discipline closed).Stable [] (call.pre (R := R) closed known) := by
  cases call
  case failEvent => exact fun s s' _ ha h hk => (h hk).imp_right (ha.events _)
  all_goals exact .true

variable [Field R] [LinearOrder R] [FloorRing R] [MathExp R] (settings : Settings R)

-- The call on its own, with no other session open.
def outcome (db : Db R) : Consumption → Outcome R Reply
  | processOneEvent payload now =>
    MarTech.processOneEvent settings db payload now |>.map fun _ => .done
  | failEvent payload error retries dlqId now =>
    MarTech.failEvent db payload error retries dlqId now |>.map fun _ => .done
  | replayDlq dlqId outboxId now => MarTech.replayDlq db dlqId outboxId now |>.map .replay

-- `fail_event` on an id whose row was not there when it looked for it.
def strayed (known : String → Prop) (s s' : Tables R) : Consumption → Prop
  | failEvent payload error retries dlqId now =>
    let eventId := payloadEventId payload
    ¬known eventId ∧ s'.db = deadLetter s.db none eventId payload error retries dlqId now
  | _ => False

-- The key that a call takes for a dead letter belongs to none yet.
def keyed (db : Db R) : Consumption → Prop
  | failEvent _ _ _ dlqId _ => db.dlqEvents.get dlqId = none
  | _                       => True

-- A call that commits does what it would do on its own.
structure Spec (closed : Prop) (known : String → Prop) (call : Consumption)
    (answer : Except Error Reply) (s s' : Tables R) : Prop where
  serial : ∃ reply, answer = .ok reply ∧
    (call.outcome settings s.db = .committed s'.db reply ∨ reply = .done ∧ call.strayed known s s')
  keyed  : call.keyed s.db
  pre    : call.pre closed known s

variable {settings} {closed : Prop} {known : String → Prop} {saved : Point (Tables R) Lock}
         {P₀ : Tables R → Prop}

open Discipline Transaction

theorem processOneEvent_safe (payload : Json.Object) (now : Timestamp) :
    (discipline closed).Safe (Spec settings closed known (.processOneEvent payload now))
      (Transaction.processOneEvent settings payload now) .start saved (fun _ => True) P₀ := by
  unfold Transaction.processOneEvent
  split
  case h_1 => trivial
  case h_2 body hb =>
    refine selectEvent_safe .true fun evt held hheld hread hstable => ?_
    cases evt
    case none     => trivial
    case some evt =>
      simp only
      split
      case isTrue     => trivial
      case isFalse hs =>
        have hpending : evt.status = .pending := by
          cases h : evt.status <;> simp_all
        refine selectCustomer_safe hstable rfl fun customer held' hheld' hstable => ?_
        refine selectEngagement_safe hstable (by simp [hheld']) fun eng hstable => ?_
        apply Safe.write hstable
        apply Safe.write hstable.append
        apply Safe.write hstable.append.append
        rintro s ⟨⟨⟨_, hseen⟩, hcustomer⟩, heng⟩
        have hevent : s.db.events.get body.eventId = some evt := hseen (.inl rfl)
        have hid : evt.eventId = body.eventId := Table.key_of_get hevent
        cases heng
        constructor
        case left =>
          constructor
          case keyed  => trivial
          case pre    => trivial
          case serial =>
            refine ⟨.done, rfl, .inl ?_⟩
            simp only [outcome, MarTech.processOneEvent, hb, hevent, if_neg hs, hcustomer]
            rfl
        case right =>
          refine applyEvent_permits (hid ▸ hevent) hpending hcustomer ?_ ?_
          case refine_1 => simp [hheld', hheld, hid]
          case refine_2 => simp [hheld']

theorem failEvent_safe (payload : Json.Object) (error : Error) (retries dlqId : Nat)
    (now : Timestamp) :
    (discipline closed).Safe (Spec settings closed known (.failEvent payload error retries dlqId now))
      (Transaction.failEvent payload error retries dlqId now) .start saved
      (pre closed known (.failEvent payload error retries dlqId now)) P₀ := by
  unfold Transaction.failEvent
  refine selectEvent_safe (pre_stable closed known _) fun evt held hheld hread hstable₀ => ?_
  split
  case isTrue     => trivial
  case isFalse hs =>
    refine insertLetter_safe hstable₀ rfl fun held' hheld' hstable => ?_
    cases evt
    case none =>
      rintro s' ⟨⟨hpre, hseen⟩, hk⟩
      constructor
      case left =>
        constructor
        case keyed  => exact hk
        case pre    => exact hpre
        case serial =>
          refine ⟨.done, rfl, ?_⟩
          by_cases hknown : known (payloadEventId payload)
          case neg => exact .inr ⟨rfl, hknown, rfl⟩
          case pos =>
            obtain ⟨s₀, hpre₀, h₀⟩ := hread
            have hclosed : closed := (hpre₀ hknown).resolve_right (by simp [h₀])
            have hnone := hseen (.inr hclosed)
            refine .inl ?_
            simp only [outcome, MarTech.failEvent, hnone, Option.any_none]
            rfl
      case right => exact deadLetter_permits settings none (by simp) (by simp) (by simp [hheld'])
    case some evt =>
      apply Safe.write hstable
      rintro s' ⟨⟨hpre, hseen⟩, hk⟩
      have hevent : s'.db.events.get (payloadEventId payload) = some evt := hseen (.inl rfl)
      constructor
      case left =>
        constructor
        case keyed  => exact hk
        case pre    => exact hpre
        case serial =>
          refine ⟨.done, rfl, .inl ?_⟩
          simp only [outcome, MarTech.failEvent, hevent, if_neg hs]
          rfl
      case right =>
        refine deadLetter_permits settings (some evt) ?_ ?_ (by simp [hheld'])
        case refine_1 =>
          intro e he
          cases he
          refine ⟨hevent, ?_⟩
          cases h : evt.status <;> simp_all
        case refine_2 => simp [hheld', hheld]

theorem replayDlq_safe (dlqId outboxId : Nat) (now : Timestamp) :
    (discipline closed).Safe (Spec settings closed known (.replayDlq dlqId outboxId now))
      (Transaction.replayDlq dlqId outboxId now) .start saved (fun _ => True) P₀ := by
  unfold Transaction.replayDlq
  refine selectLetter_safe .true rfl fun row hstable => ?_
  refine selectEvent_safe hstable fun evt held hheld _ hstable => ?_
  refine selectLetterForUpdate_safe hstable rfl fun row' held' hheld' hread hstable => ?_
  obtain ⟨s₀, ⟨⟨_, row₀, h₀, hsame⟩, _⟩, h₀'⟩ := hread
  have hsame : row'.eventId = row.eventId := by
    cases h₀.symm.trans h₀'
    exact hsame
  simp only
  split
  case isTrue     => trivial
  case isFalse hu =>
    split
    case h_1          => trivial
    case h_2 evt' he =>
      obtain ⟨he, hs⟩ := Option.filter_eq_some_iff.mp he
      split
      case h_1         => trivial
      case h_2 body hb =>
        apply Safe.write hstable
        apply Safe.write hstable.append
        refine insertOutbox_safe hstable.append.append (fun _ h => h) trivial ?_
        rintro held'' hheld'' _ hstable s ⟨⟨⟨⟨_, _⟩, hseen⟩, hrow⟩, hfresh⟩
        have hevent : s.db.events.get row.eventId = some evt' := by
          rw [he] at hseen
          exact hseen (.inl rfl)
        have hid : evt'.eventId = row.eventId := Table.key_of_get hevent
        have hrid : row'.id = dlqId := Table.key_of_get hrow
        have hu : row'.replayedAt = none := by simpa using hu
        simp only [decide_eq_true_eq] at hs
        constructor
        case left =>
          constructor
          case keyed  => trivial
          case pre    => trivial
          case serial =>
            refine ⟨_, rfl, .inl ?_⟩
            simp only [outcome, MarTech.replayDlq, hrow, hsame, hu, hevent, Option.filter, hs, hb,
              Option.isSome_none, Bool.false_eq_true, if_false, decide_true, if_true]
            rfl
        case right =>
          refine requeue_permits settings (hrid ▸ hrow) hu (hsame.trans hid.symm) (hid ▸ hevent) hs
            hfresh ?_ ?_ ?_
          case refine_1 => simp [hheld'', hheld', hheld, he, hid]
          case refine_2 => simp [hheld'', hheld', hrid]
          case refine_3 => simp [hheld'']

-- Each call of the consumer is safe, and so are any number of them together.
theorem safe (call : Consumption) :
    (discipline closed).Safe (Spec settings closed known call) (call.transaction settings) .start saved
      (call.pre closed known) P₀ := by
  cases call
  case processOneEvent payload now => exact processOneEvent_safe payload now
  case failEvent payload error retries dlqId now =>
    exact failEvent_safe payload error retries dlqId now
  case replayDlq dlqId outboxId now => exact replayDlq_safe dlqId outboxId now

end Consumption
end MarTech
