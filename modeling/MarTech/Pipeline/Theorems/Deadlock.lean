import MarTech.Pipeline.Theorems.LockOrder
import MarTech.Pipeline.Theorems.View

namespace MarTech

variable {R : Type}

section Runs

variable {settings : Settings R} {place : Lock → Nat} {states : List (Service R)} {service : Service R}
         {a b c : Session Call (Tables R) Lock (Except Error Reply)} {l l' : Lock}

-- Whoever waits for somebody else has come to a lock in its order.
theorem Service.comes (hs : service.Sound arrivals fun _ _ _ _ => True)
    (ho : service.Orderly (Meets states) (Call.Asks settings place states) Call.Fits)
    (hm : service ∈ states) (hq : service.Sequenced) (h : service.Blocks l a b) :
    a.call.Comes settings place states service.committed a.now.held l := by
  have hgiven : service.Given (Meets states) :=
    fun session hsession => ⟨service, hm, rfl, session, hsession, rfl⟩
  obtain hheld | ⟨id, hid, rfl⟩ | hcomes := ho.asked hgiven h.left h.wanted l h.wanted
  · exact absurd h.held (hs.exclusive a h.left b h.right h.other l hheld)
  · have hfree := ((hq a h.left).right id hid).right
    refine absurd (List.any_eq_true.mpr ⟨b, h.right, ?_⟩) hfree
    simpa using ⟨h.other.symm, h.held⟩
  · exact hcomes

-- What one sweep can publish no other one waits for in order to delete it.
theorem InOrder.not_deletes (h : InOrder settings place states) (hm : service ∈ states)
    (hb : service.Blocks l a b) (hd : a.call.Deletes settings states l) :
    ¬b.call.Publishes states l := by
  rintro ⟨s', row', hs', hrow', hp, rfl⟩
  obtain ⟨s, row, hs, hrow, hd, e⟩ := hd
  exact h.disjoint service hm a hb.left b hb.right hb.other s s' hs hs' row hrow hd row' hrow' hp
    (Lock.outbox.inj e).symm

-- Whoever holds a lock waits, if at all, for one that comes later.
theorem InOrder.deadlockFree (h : InOrder settings place states)
    (hs : service.Sound arrivals fun _ _ _ _ => True)
    (ho : service.Orderly (Meets states) (Call.Asks settings place states) Call.Fits)
    (hm : service ∈ states) (hq : service.Sequenced) : service.DeadlockFree := by
  let rank (l : Lock) : ℕ ×ₗ ℕ := toLex (service.committed.level l, place l)
  have lt_of_level {l l' : Lock} (h : service.committed.level l < service.committed.level l') :
      rank l < rank l' :=
    Prod.Lex.toLex_lt_toLex.mpr (.inl h)
  have lt_of_place {l l' : Lock} (h : service.committed.level l = service.committed.level l')
      (hp : place l < place l') : rank l < rank l' :=
    Prod.Lex.toLex_lt_toLex.mpr (.inr ⟨h, hp⟩)
  refine .of_rank rank fun {a b c l l'} hab hbc => ?_
  have hwaits := Service.comes hs ho hm hq hab
  have hcomes := Service.comes hs ho hm hq hbc
  have hfits  := ho.held b hbc.left l hab.held
  simp only [Call.Comes, Call.Fits] at hcomes hfits
  cases hk : b.call.kind <;> rw [hk] at hcomes hfits
  case consumer  => exact lt_of_level (hcomes.right l hab.held)
  case ingestion =>
    obtain ⟨hlevel, hbefore⟩ := hcomes
    obtain hl | hl := Nat.lt_or_eq_of_le hfits
    · exact lt_of_level (hl.trans_eq hlevel.symm)
    · exact lt_of_place (hl.trans hlevel.symm) (hbefore l hab.held hl)
  case sweep     =>
    obtain ⟨⟨_, row, _, _, _, rfl⟩, hbefore⟩ := hcomes
    refine lt_of_place hfits ((hbefore l hab.held).resolve_left fun hp => ?_)
    -- Nobody but another sweep waits for a row that a sweep has claimed.
    simp only [Call.Comes] at hwaits
    cases hk' : a.call.kind <;> rw [hk'] at hwaits
    case consumer  => exact hwaits.left.ne' hfits
    case ingestion => exact absurd (hfits.symm.trans hwaits.left) Nat.zero_ne_one
    case sweep     => exact h.not_deletes hm hab hwaits.left hp

variable [Field R] [LinearOrder R] [FloorRing R] [MathExp R] [Runtime]

theorem Call.arrivals_safe (settings : Settings R) (call : Call) :
    arrivals.Safe (fun _ _ _ => True) (call.transaction settings) .start .start (fun _ => True)
      fun _ => True :=
  MarTech.arrivals_safe (call.brought settings) .refl .refl
    |>.imp (fun _ _ => nofun) fun _ _ => nofun

-- In a run whose calls keep to one order of the keys the transactions never deadlock.
theorem deadlockFree_of_inOrder (settings : Settings R) (s : Tables R) (moves : List (Move Call))
    (place : Lock → Nat) (hq : ∀ service ∈ Service.states settings s moves, service.Sequenced)
    (ho : InOrder settings place (Service.states settings s moves)) :
    ∀ service ∈ Service.states settings s moves, service.DeadlockFree := by
  intro service hm
  obtain ⟨earlier, hearlier, rfl⟩ := List.mem_map.mp hm
  have hgiven : ∀ earlier' ∈ earlier.inits,
      (Server.idle s |>.run (Call.transaction settings) earlier').Given
        (Meets (Service.states settings s moves)) := by
    intro earlier' hm' session hsession
    have hprefix := ((List.mem_inits ..).mp hm').trans ((List.mem_inits ..).mp hearlier)
    exact ⟨_, List.mem_map_of_mem ((List.mem_inits ..).mpr hprefix), rfl, session, hsession, rfl⟩
  obtain ⟨hsound, horderly⟩ := Server.run_orderly (fun _ => .true) (Call.arrivals_safe settings)
    (Call.transaction_orderly hq ho) Call.Fits.kept (.idle s) (.idle s) (.of_forall fun _ _ => trivial)
    hgiven
  exact ho.deadlockFree hsound horderly hm (hq _ hm)

end Runs

section Example

open EpochDay

def unsubscribedAgain : EventIn :=
  { unsubscription with eventId := "e2", eventId_length := by decide }

def ingestTwo (first second : EventIn) (outboxIds : Nat → Nat) : Call :=
  .ingestBatch [⟨first, none⟩, ⟨second, none⟩] outboxIds (40 * Timestamp.day)

-- Tables with a processed event, whose row of the outbox is kept no longer, and a pending one.
noncomputable def retained : Tables ℝ where
  db := { seeded.db with
    events      := (∅ : Table Event).insert { unsubscription.row with eventId := "e5" }
      |>.insert { unsubscription.row with eventId := "e6", status := .processed }
    eventOutbox := (∅ : Table EventOutbox).insert ⟨5, "e5", [], 0, none, none⟩
      |>.insert ⟨6, "e6", [], 0, some 0, some 0⟩ }
  drawn := [("e6", 6), ("e5", 5)]

-- Two batches with the same events, the second of which has got to wait for the first one, and two
-- sweeps at once, one of which publishes the one row, while the other one deletes the other row.
noncomputable def aligned : List (Move Call) :=
  [.start 0 (ingestTwo unsubscription unsubscribedAgain (· + 7)),
   .start 1 (ingestTwo unsubscription unsubscribedAgain (· + 9))] ++
    List.replicate 6 (.advance 0) ++ List.replicate 3 (.advance 1) ++
    [.start 2 (.reconcileOutbox ⟨fun _ => false, fun _ => .ok 0⟩ (40 * Timestamp.day)), .advance 2,
     .start 3 (.cleanupOutbox (40 * Timestamp.day)), .advance 3, .advance 3, .advance 2]

theorem deadlockFree_aligned :
    (∃ service ∈ Service.states .default retained aligned, ∃ a b, service.WaitsFor a b) ∧
      ∀ service ∈ Service.states .default retained aligned, service.DeadlockFree := by
  let states : List (Service ℝ) := Service.states .default retained aligned
  have hwait : ∃ service ∈ states, ∃ a ∈ service.sessions.rows, ∃ b ∈ service.sessions.rows,
      a.id ≠ b.id ∧ .event "e1" ∈ a.wants service.committed ∧ .event "e1" ∈ b.now.held := by
    decide +kernel
  obtain ⟨service, hm, a, ha, b, hb, hwait⟩ := hwait
  let place (l : Lock) : Nat := if l = .event "e2" then 1 else 0
  have hq : ∀ service ∈ states, service.Sequenced := by decide +kernel
  have ho : InOrder .default place states := by
    constructor
    case sorted  => decide +kernel
    case deletes => decide +kernel
    case disjoint =>
      have hids : ∀ service ∈ states, ∀ a ∈ service.sessions.rows,
          ∀ row ∈ service.committed.db.eventOutbox.rows,
            (a.call.deletes .default service.committed row → row.id = 6) ∧
            (a.call.publishes service.committed row → row.id = 5) := by
        decide +kernel
      intro _ _ a' _ b' _ _ _ _ hs hs' row hrow hd row' hrow' hp
      obtain ⟨service, hm, rfl, a, ha, ea⟩ := hs
      obtain ⟨service', hm', rfl, b, hb, eb⟩ := hs'
      rw [← ea] at hd
      rw [← eb] at hp
      have hdeletes   := (hids service hm a ha row hrow).left hd
      have hpublishes := (hids service' hm' b hb row' hrow').right hp
      omega
  exact ⟨⟨service, hm, a, b, _, ha, hb, hwait.left, hwait.right.left, hwait.right.right⟩,
    deadlockFree_of_inOrder .default retained aligned place hq ho⟩

-- The same events in opposite orders.
noncomputable def crossed : List (Move Call) :=
  [.start 0 (ingestTwo unsubscription unsubscribedAgain (· + 1)),
   .start 1 (ingestTwo unsubscribedAgain unsubscription (· + 3))] ++
    List.replicate 6 (.advance 0) ++ List.replicate 6 (.advance 1)

theorem crossed_deadlock :
    let service : Service ℝ :=
      Server.idle ⟨seeded.db, []⟩ |>.run (Call.transaction .default) crossed
    service.Sequenced ∧ ¬service.DeadlockFree := by
  intro service
  have hcycle : ∃ a ∈ service.sessions.rows, ∃ b ∈ service.sessions.rows, a.id ≠ b.id ∧
      (.event "e2" ∈ a.wants service.committed ∧ .event "e2" ∈ b.now.held) ∧
      (.event "e1" ∈ b.wants service.committed ∧ .event "e1" ∈ a.now.held) := by
    decide +kernel
  obtain ⟨a, ha, b, hb, hid, hab, hba⟩ := hcycle
  have hab : service.WaitsFor a b := ⟨_, ha, hb, hid, hab.left, hab.right⟩
  have hba : service.WaitsFor b a := ⟨_, hb, ha, hid.symm, hba.left, hba.right⟩
  exact ⟨by decide +kernel, fun h => h a (.tail (.single hab) hba)⟩

end Example
end MarTech
