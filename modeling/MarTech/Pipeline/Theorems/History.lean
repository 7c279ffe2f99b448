import MarTech.Pipeline.System
import MarTech.Pipeline.Theorems.Reconcile
import MarTech.Pipeline.Theorems.View

namespace MarTech

variable {R : Type}

-- The time of processing is there just when the event has been processed.
def Db.Stamped (db : Db R) : Prop :=
  ∀ evt ∈ db.events, evt.processedAt.isSome ↔ evt.status = .processed

theorem Db.stamped_of_no_events {db : Db R} (h : db.events = ∅) : db.Stamped := by
  simp [Stamped, h, Table.mem_iff_get]

-- A dead letter of the event that is marked as replayed, and was not before.
structure Replayed (db db' : Db R) (eventId : String) (letter : DLQEvent) : Prop where
  stored   : db'.dlqEvents.get letter.id = some letter
  same     : letter.eventId = eventId
  marked   : letter.replayedAt.isSome
  unmarked : ∀ letter', db.dlqEvents.get letter.id = some letter' → letter'.replayedAt = none

variable [Field R] [LinearOrder R] [FloorRing R] [MathExp R] [Runtime]
         {settings : Settings R} {db db' db'' : Db R} {l : Label}

namespace Effect

theorem stamped (e : Effect settings db l db') (h : db.Stamped) : db'.Stamped := by
  intro evt' hm
  have hg := Table.mem_iff_get.mp hm
  have hold {id : String} {evt : Event} (hg : db.events.get id = some evt) :
      evt.processedAt.isSome ↔ evt.status = .processed :=
    h evt (Table.mem_of_get hg)
  cases e
  case ensureCustomer | rewriteOutbox => exact hold hg
  case acceptEvent absent _ =>
    rw [acceptEvent_events_get _ absent] at hg
    split at hg
    case isTrue  => cases hg; simp [EventIn.row]
    case isFalse => exact hold hg
  case applyEvent =>
    rw [applyEvent_events_get] at hg
    split at hg
    case isFalse => exact hold hg
    case isTrue  =>
      obtain ⟨evt, -, rfl⟩ := Option.map_eq_some_iff.mp hg
      simp
  case requeue =>
    rw [requeue_events_get] at hg
    split at hg
    case isFalse => exact hold hg
    case isTrue  =>
      obtain ⟨evt, -, rfl⟩ := Option.map_eq_some_iff.mp hg
      simp
  case deadLetter pending =>
    rw [deadLetter_events_get] at hg
    split at hg
    case isFalse   => exact hold hg
    case isTrue he =>
      -- What is failed was pending, so that it has no time of processing.
      obtain ⟨e, rfl⟩ := Option.isSome_iff_exists.mp he.left
      obtain ⟨evt, hevt, rfl⟩ := Option.map_eq_some_iff.mp hg
      obtain ⟨hsame, hp⟩ := pending e rfl
      have hne : ¬evt.processedAt.isSome := by
        rw [hold hevt]
        rw [← he.right, hsame] at hevt
        cases hevt
        simp [hp]
      simpa using hne

-- A dead letter stays marked.
theorem replayed_kept (e : Effect settings db l db') {id : Nat} {letter : DLQEvent}
    (h : db.dlqEvents.get id = some letter) (hr : letter.replayedAt.isSome) :
    ∃ letter', db'.dlqEvents.get id = some letter' ∧ letter'.eventId = letter.eventId ∧
      letter'.replayedAt.isSome := by
  cases e
  case requeue row evt body outboxId now _ _ _ _ _ =>
    rw [requeue_dlqEvents_get]
    split
    case isTrue  => simp [h]
    case isFalse => exact ⟨letter, h, rfl, hr⟩
  case deadLetter =>
    rw [deadLetter_dlqEvents]
    exact ⟨letter, Table.get_insert_of_some h, rfl, hr⟩
  all_goals exact ⟨letter, h, rfl, hr⟩

-- A failed event remains as it is, unless one of its dead letters is replayed.
theorem failed_kept (e : Effect settings db l db') {id : String} {evt : Event}
    (h : db.events.get id = some evt) (hf : evt.status = .failed) :
    db'.events.get id = some evt ∨ ∃ letter, Replayed db db' id letter := by
  cases e
  case ensureCustomer | rewriteOutbox => exact .inl h
  case acceptEvent absent _ =>
    rw [acceptEvent_events_get _ absent]
    split
    case isTrue he => simp [← he, absent] at h
    case isFalse   => exact .inl h
  case applyEvent event pending _ =>
    rw [applyEvent_events_get]
    split
    case isFalse   => exact .inl h
    case isTrue he =>
      rw [← he, event] at h
      cases h
      simp [pending] at hf
  case deadLetter pending =>
    rw [deadLetter_events_get]
    split
    case isFalse   => exact .inl h
    case isTrue he =>
      obtain ⟨e, rfl⟩ := Option.isSome_iff_exists.mp he.left
      obtain ⟨hg, hp⟩ := pending e rfl
      rw [← he.right, hg] at h
      cases h
      simp [hp] at hf
  case requeue row evt' body outboxId now letter unreplayed same event failed =>
    rw [requeue_events_get]
    split
    case isFalse   => exact .inl h
    case isTrue he =>
      refine .inr ⟨{ row with replayedAt := some now }, ?_, same.trans he, rfl, fun letter' h' => ?_⟩
      · rw [requeue_dlqEvents_get, if_pos rfl, letter]
        rfl
      · rw [letter] at h'
        cases h'
        exact unreplayed

end Effect

namespace Effects

variable {ls : List Label}

theorem stamped (e : Effects settings db ls db') (h : db.Stamped) : db'.Stamped := by
  induction e
  case refl        => exact h
  case step e _ hi => exact hi (e.stamped h)

theorem replayed_kept (e : Effects settings db ls db') {id : Nat} {letter : DLQEvent}
    (h : db.dlqEvents.get id = some letter) (hr : letter.replayedAt.isSome) :
    ∃ letter', db'.dlqEvents.get id = some letter' ∧ letter'.eventId = letter.eventId ∧
      letter'.replayedAt.isSome := by
  induction e generalizing letter
  case refl        => exact ⟨letter, h, rfl, hr⟩
  case step e _ hi =>
    obtain ⟨letter', h', hid, hr'⟩ := e.replayed_kept h hr
    obtain ⟨letter'', h'', hid', hr''⟩ := hi h' hr'
    exact ⟨letter'', h'', hid'.trans hid, hr''⟩

theorem failed_kept (e : Effects settings db ls db') {id : String} {evt : Event}
    (h : db.events.get id = some evt) (hf : evt.status = .failed) :
    db'.events.get id = some evt ∨ ∃ letter, Replayed db db' id letter := by
  induction e
  case refl => exact .inl h
  case step db₁ db₂ db₃ _ _ e es hi =>
    cases e.failed_kept h hf
    case inl h =>
      refine (hi h).imp_right fun ⟨letter, hl⟩ => ⟨letter, hl.stored, hl.same, hl.marked, ?_⟩
      -- What was not marked after the first transaction was not marked before it.
      intro letter' h'
      by_contra hn
      obtain ⟨letter'', h'', -, hr⟩ := e.replayed_kept h' (Option.isSome_iff_ne_none.mpr hn)
      simp [hl.unmarked letter'' h''] at hr
    case inr h =>
      obtain ⟨letter, hl⟩ := h
      obtain ⟨letter', h', hid, hr⟩ := es.replayed_kept hl.stored hl.marked
      have hkey : letter'.id = letter.id := Table.key_of_get h'
      exact .inr ⟨letter', hkey ▸ h', hid.trans hl.same, hr, hkey ▸ hl.unmarked⟩

-- A loop of which each turn is a sequence of effects is one itself.
theorem foldl {σ α : Type} (db : σ → Db R) {f : σ → α → σ}
    (h : ∀ s a, ∃ ls, Effects settings (db s) ls (db (f s a))) (s : σ) (as : List α) :
    ∃ ls, Effects settings (db s) ls (db (as.foldl f s)) := by
  induction as generalizing s
  case nil => exact ⟨_, .refl⟩
  case cons a _ hi =>
    obtain ⟨ls, e⟩   := h s a
    obtain ⟨ls', e'⟩ := hi (f s a)
    exact ⟨ls ++ ls', e.trans e'⟩

end Effects

namespace State

variable (settings) (s : State R)

theorem handleMessage_effects (now : Timestamp) (entry : StreamEntry) :
    ∃ ls, Effects settings s.db ls (s.handleMessage settings now entry).db := by
  simp only [handleMessage]
  split
  case h_1 error _ =>
    obtain ⟨ls, e, -⟩ := s.exec_effects settings
      (.failEvent entry.payload error settings.workerMaxRetries now)
    exact ⟨ls, e⟩
  case h_2 =>
    obtain ⟨ls, e, -⟩ := s.exec_effects settings (.processOneEvent entry.payload now)
    exact ⟨ls, e⟩

theorem iteration_effects (poll : Poll) :
    ∃ ls, Effects settings s.db ls (s.iteration settings poll).db := by
  obtain ⟨ls, e, -⟩ := s.exec_effects settings (.reconcileOutbox poll.now)
  simp only [iteration]
  split
  case h_1 => exact ⟨ls, e⟩
  case h_2 =>
    obtain ⟨ls', e'⟩ := Effects.foldl (fun s : State R => s.db)
      (fun s entry => s.handleMessage_effects settings poll.now entry)
      (s.exec settings (.reconcileOutbox poll.now))
      (poll.consume (s.exec settings (.reconcileOutbox poll.now)).stream)
    exact ⟨ls ++ ls', e.trans e'⟩

theorem iterations_effects (polls : List Poll) :
    ∃ ls, Effects settings s.db ls (s.iterations settings polls).db :=
  Effects.foldl (fun s : State R => s.db) (iteration_effects settings) s polls

end State

namespace Reconcile

omit [Field R] [LinearOrder R] [FloorRing R] [MathExp R] [Runtime] in
-- Nothing but the outbox is written.
theorem write_eq (r : Reconcile) (db : Db R) :
    r.write db = { db with eventOutbox := (r.write db).eventOutbox } := by
  have hmark (marks : List (Nat × MessageId × Timestamp)) :
      ∀ db : Db R, mark db marks = { db with eventOutbox := (mark db marks).eventOutbox } := by
    induction marks
    case nil             => exact fun _ => rfl
    case cons entry _ hi => exact fun db => hi (markPublished db entry.1 entry.2.1 entry.2.2)
  unfold write
  rw [hmark r.marks db]

end Reconcile

namespace Workers

omit [Field R] [LinearOrder R] [FloorRing R] [MathExp R] [Runtime] in
theorem advance_db (settings : Settings R) (s : Workers R) (r : Reconcile) (now : Timestamp) :
    (s.advance settings r now).db = s.db ∨ (s.advance settings r now).db = r.write s.db := by
  unfold advance
  split
  case h_7 => exact .inr rfl
  case h_1 | h_4 | h_5 => exact .inl rfl
  case h_2 =>
    split
    case h_1 => exact .inl rfl
    case h_2 => split <;> exact .inl rfl
  case h_3 => split <;> exact .inl rfl
  case h_6 => split <;> exact .inl rfl

variable (settings) (s : Workers R)

theorem happen_effects (happening : Happening) :
    ∃ ls, Effects settings s.db ls (s.happen settings happening).db := by
  cases happening
  case lose => exact ⟨_, .refl⟩
  case turn turn =>
    cases turn
    case transact op _ =>
      obtain ⟨ls, e, -⟩ := s.toState.exec_effects settings op
      exact ⟨ls, e⟩
    case advance id now =>
      simp only [happen, Workers.turn]
      cases s.reconciles.get id
      case none   => exact ⟨_, .refl⟩
      case some r =>
        simp only [Option.elim_some]
        cases s.advance_db settings r now
        case inl h => exact h ▸ ⟨_, .refl⟩
        case inr h =>
          rw [h, r.write_eq]
          exact ⟨_, Effects.single (.rewriteOutbox _)⟩
    all_goals exact ⟨_, .refl⟩

-- Whatever happens is a sequence of effects on the tables.
theorem history_effects (happenings : List Happening) :
    ∃ ls, Effects settings s.db ls (s.history settings happenings).db :=
  Effects.foldl (fun s : Workers R => s.db) (happen_effects settings) s happenings

theorem history_append (before after : List Happening) :
    s.history settings (before ++ after) = (s.history settings before).history settings after :=
  List.foldl_append

end Workers

-- The derived tables after any history, for the log of some order of the commits.
theorem Materialised.history (settings : Settings R) {s : State R} (he : s.db.events = ∅)
    (hs : s.db.engagementScores = ∅) (happenings : List Workers.Happening) :
    ∃ log, Materialised settings s.db ((Workers.idle s).history settings happenings).db log := by
  obtain ⟨ls, e⟩ := (Workers.idle s).history_effects settings happenings
  exact ⟨_, (Materialised.initial he hs).effects e⟩

end MarTech
