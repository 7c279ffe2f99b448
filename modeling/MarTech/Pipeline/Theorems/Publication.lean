import MarTech.Pipeline.Theorems.Consumption
import MarTech.Pipeline.Theorems.Ingestion

namespace MarTech

variable {R : Type}

-- What publication and retention do to the outbox: they delete no rows but those in `gone`, and they
-- leave the id and the event of the others as they are.
structure Rewrites (gone : List Nat) (f : Table EventOutbox → Table EventOutbox) : Prop where
  kept : ∀ t row, row ∈ t → row.id ∉ gone →
    ∃ row' ∈ f t, row'.id = row.id ∧ row'.eventId = row.eventId
  only : ∀ t row', row' ∈ f t → ∃ row ∈ t, row.id = row'.id ∧ row.eventId = row'.eventId

namespace Rewrites

variable {gone gone' : List Nat} {f : Table EventOutbox → Table EventOutbox}

theorem refl : Rewrites gone fun t => t where
  kept _ row hm _ := ⟨row, hm, rfl, rfl⟩
  only _ row hm   := ⟨row, hm, rfl, rfl⟩

theorem mono (h : Rewrites gone f) (hg : gone ⊆ gone') : Rewrites gone' f where
  kept t row hm hn := h.kept t row hm fun hm => hn (hg hm)
  only             := h.only

theorem update (h : Rewrites gone f) (id : Nat) {g : EventOutbox → EventOutbox}
    (hid : ∀ row, (g row).id = row.id) (he : ∀ row, (g row).eventId = row.eventId) :
    Rewrites gone fun t => (f t).update id g where
  kept t row hm hn := by
    obtain ⟨row', hm', hid', he'⟩ := h.kept t row hm hn
    have hg : (f t).get row'.id = some row' := Table.mem_iff_get.mp hm'
    by_cases e : id = row'.id
    case neg =>
      refine ⟨row', Table.mem_of_get (k := row'.id) ?_, hid', he'⟩
      rw [Table.get_update _ _ hid, if_neg e, hg]
    case pos =>
      refine ⟨g row', Table.mem_of_get (k := row'.id) ?_, (hid row').trans hid', (he row').trans he'⟩
      rw [Table.get_update _ _ hid, if_pos e, hg, Option.map_some]
  only t row hm := by
    rw [Table.mem_iff_get, Table.get_update _ _ hid] at hm
    split at hm
    case isFalse => exact h.only t row (Table.mem_iff_get.mpr hm)
    case isTrue =>
      obtain ⟨row', hg, e⟩ := Option.map_eq_some_iff.mp hm
      obtain ⟨r, hr, hid', he'⟩ := h.only t row' (Table.mem_of_get hg)
      exact ⟨r, hr, by rw [← e, hid, hid'], by rw [← e, he, he']⟩

theorem delete (h : Rewrites gone f) {id : Nat} (hg : id ∈ gone) :
    Rewrites gone fun t => (f t).delete (·.id = id) where
  kept t row hm hn := by
    obtain ⟨row', hm', hid, he⟩ := h.kept t row hm hn
    refine ⟨row', Table.mem_delete.mpr ⟨hm', ?_⟩, hid, he⟩
    simp only [hid, decide_eq_false_iff_not]
    rintro rfl
    exact hn hg
  only t row hm := h.only t row (Table.mem_delete.mp hm).left

end Rewrites

open Discipline Transaction

variable {held : List Lock} {saved : Point (Tables R) Lock} {P₀ : Tables R → Prop}
         {gone : List Nat} {f : Table EventOutbox → Table EventOutbox} {closed : Prop}

def Tables.rewrite (f : Table EventOutbox → Table EventOutbox) (s : Tables R) : Tables R :=
  s.modify fun db => { db with eventOutbox := f db.eventOutbox }

-- What is known while rows of the outbox are being deleted.
def Tables.Spares (gone : List Nat) (s : Tables R) : Prop :=
  s.Covered ∧ s.Clear gone

theorem Tables.Spares.stable : (discipline closed).Stable held (Tables.Spares (R := R) gone) :=
  fun _ _ _ ha h => ⟨ha.covered h.left, ha.clear gone h.right⟩

theorem rewrite_permits (hf : Rewrites gone f) {s : Tables R} (h : s.Spares gone) :
    (discipline closed).Permits held s (s.rewrite f) := by
  constructor
  case guarded =>
    intro l _
    cases l
    case customer   => exact ⟨rfl, rfl⟩
    case engagement => trivial
    all_goals rfl
  case always =>
    constructor
    case events    => exact fun _ h => h
    case customers => exact fun _ h => h
    case letters   => exact fun _ row hr => ⟨row, hr, rfl⟩
    case clear     => exact fun _ h => ⟨h.taken, h.unused⟩
    case closed    => exact fun _ _ h => h
    case covered =>
      intro _
      constructor
      case taken =>
        intro row hm
        obtain ⟨row', hm', hid, _⟩ := hf.only _ row hm
        exact hid ▸ h.left.taken row' hm'
      case queued =>
        intro evt hm hs
        obtain ⟨row, hr, he, hc⟩ := h.left.queued evt hm hs
        have hn : row.id ∉ gone := fun hg => h.right.unused evt hm hs row.id hg hc
        obtain ⟨row', hr', hid, he'⟩ := hf.kept _ row hr hn
        exact ⟨row', hr', he'.trans he, hid ▸ hc⟩

-- A row that retention finds expired is the current row of no pending event.
theorem Tables.Covered.clear_expired {s : Tables R} (h : s.Covered) (settings : Settings R)
    (now : Timestamp) (hf : Rewrites gone f) :
    s.Clear (((s.rewrite f).db.eventOutbox.rows.filter (expired settings (s.rewrite f).db now)).map
      (·.id)) := by
  have origin : ∀ id ∈ ((s.rewrite f).db.eventOutbox.rows.filter
      (expired settings (s.rewrite f).db now)).map (·.id),
      ∃ row ∈ s.db.eventOutbox, row.id = id ∧ isTerminal s.db row.eventId := by
    intro id hm
    obtain ⟨row', hm', e⟩ := List.mem_map.mp hm
    obtain ⟨hm', hx⟩ := List.mem_filter.mp hm'
    obtain ⟨row, hr, hid, he⟩ := hf.only _ row' hm'
    refine ⟨row, hr, hid.trans e, ?_⟩
    rw [he]
    exact (Bool.and_eq_true_iff.mp hx).right
  constructor
  case taken =>
    intro id hm
    obtain ⟨row, hr, hid, _⟩ := origin id hm
    exact hid ▸ h.taken row hr
  case unused =>
    intro evt hm hs id hid hc
    obtain ⟨row, hr, hid, ht⟩ := origin id hid
    obtain ⟨row', hr', he, hc'⟩ := h.queued evt hm hs
    have hid' : row'.id = id := Option.some.inj (hc'.symm.trans hc)
    have : row' = row := Table.key_injective hr' hr (hid'.trans hid.symm)
    have hg : s.db.events.get evt.eventId = some evt := Table.mem_iff_get.mp hm
    rw [← this, he, isTerminal, hg] at ht
    simp [hs] at ht

theorem Tables.Covered.stable : (discipline closed).Stable held (Tables.Covered (R := R)) :=
  fun _ _ _ ha h => ha.covered h

def Tables.OutboxRewritten (s s' : Tables R) : Prop :=
  s'.db = { s.db with eventOutbox := s'.db.eventOutbox }

theorem commit_safe (hf : Rewrites gone f) (answer : Except Error Reply) :
    (discipline closed).Safe (fun _ s s' => s.OutboxRewritten s') (.commit answer)
      ⟨held, Tables.rewrite (R := R) f⟩ saved (Tables.Spares gone) P₀ :=
  fun _ h => ⟨rfl, rewrite_permits hf h⟩

theorem deleteRows_safe {answer : Except Error Reply} {ids : List Nat} (hf : Rewrites gone f)
    (hg : ids ⊆ gone) :
    (discipline closed).Safe (fun _ s s' => s.OutboxRewritten s') (deleteRows (.commit answer) ids)
      ⟨held, Tables.rewrite (R := R) f⟩ saved (Tables.Spares gone) P₀ := by
  induction ids generalizing held f
  case nil => exact commit_safe hf answer
  case cons id ids hi =>
    obtain ⟨hid, hids⟩ := List.cons_subset.mp hg
    exact Safe.write Tables.Spares.stable (hi (hf.delete hid) hids)

theorem cleanupOutbox_safe (settings : Settings R) {now : Timestamp} {answer : Except Error Reply}
    (hf : Rewrites [] f) :
    (discipline closed).Safe (fun _ s s' => s.OutboxRewritten s')
      (Transaction.cleanupOutbox settings now (.commit answer)) ⟨held, Tables.rewrite f⟩ saved
      Tables.Covered P₀ := by
  refine Safe.select fun s hs => ?_
  have hclear := hs.clear_expired settings now hf
  refine ⟨_, ⟨hs, hclear⟩, Tables.Spares.stable, ?_⟩
  exact deleteRows_safe (hf.mono (List.nil_subset _)) (List.Subset.refl _)

theorem publishRows_safe {now : Timestamp} {queue : Queue} {next : Nat → Transaction R}
    (h : ∀ count held f, Rewrites [] f → (discipline closed).Safe (fun _ s s' => s.OutboxRewritten s')
      (next count) ⟨held, Tables.rewrite f⟩ saved Tables.Covered P₀)
    (rows : List EventOutbox) (count : Nat) (hf : Rewrites [] f) :
    (discipline closed).Safe (fun _ s s' => s.OutboxRewritten s')
      (Transaction.publishRows now queue next count rows) ⟨held, Tables.rewrite f⟩ saved
      Tables.Covered P₀ := by
  induction rows generalizing count held f
  case nil => exact h count held f hf
  case cons row rows hi =>
    simp only [Transaction.publishRows]
    split
    case h_1 => trivial
    case h_2 messageId n _ =>
      apply Safe.write Tables.Covered.stable
      exact hi _ (hf.update row.id (by intro; rfl) (by intro; rfl))

theorem reconcileOutbox_safe (settings : Settings R) (now : Timestamp) (queue : Queue) :
    (discipline closed).Safe (fun _ s s' => s.OutboxRewritten s')
      (Transaction.reconcileOutbox settings now queue) .start saved Tables.Covered P₀ := by
  intro s hs locks _
  refine ⟨_, hs, Tables.Covered.stable, ?_⟩
  exact publishRows_safe (fun _ _ _ hf => cleanupOutbox_safe settings hf) _ _ .refl

namespace Call

variable [Runtime]

def pre (known : String → Prop) : Call → Tables R → Prop
  | consume call, s         => call.pre False known s
  | reconcileOutbox .., s   => s.Covered
  | cleanupOutbox .., s     => s.Covered
  | ingestEvent .., _       => True
  | ingestBatch .., _       => True

theorem pre_stable (known : String → Prop) (call : Call) :
    (discipline False).Stable [] (call.pre (R := R) known) := by
  cases call
  case consume call => exact call.pre_stable False known
  case reconcileOutbox | cleanupOutbox => exact Tables.Covered.stable
  case ingestEvent | ingestBatch => exact .true

variable [Field R] [LinearOrder R] [FloorRing R] [MathExp R] {settings : Settings R}
         {known : String → Prop}

-- What a call that commits does to the tables.
def Spec (settings : Settings R) (known : String → Prop) (call : Call) (answer : Except Error Reply)
    (s s' : Tables R) : Prop :=
  match call with
  | consume call                        => call.Spec settings False known answer s s'
  | ingestEvent .. | ingestBatch ..     => s.Ingested s'
  | reconcileOutbox .. | cleanupOutbox .. => s.OutboxRewritten s'

theorem safe (call : Call) :
    (discipline False).Safe (Spec settings known call) (call.transaction settings) .start saved
      (call.pre known) P₀ := by
  cases call
  case consume call => exact call.safe
  case ingestEvent body fault outboxId now =>
    exact (Submission.ingestEvent body fault outboxId now).transaction_safe
  case ingestBatch items outboxIds now =>
    exact (Submission.ingestBatch items outboxIds now).transaction_safe
  case reconcileOutbox queue now => exact reconcileOutbox_safe settings now queue
  case cleanupOutbox now => exact cleanupOutbox_safe settings .refl

end Call
end MarTech
