import MarTech.Library.ConsumerGroup

universe u v w

-- What holds of each member of a list next to those before it also does when the list goes on.
theorem forall_split_append {α : Type*} {P : List α → α → Prop} {xs ys : List α}
    (hx : ∀ earlier x later, xs = earlier ++ x :: later → P earlier x)
    (hy : ∀ earlier y later, ys = earlier ++ y :: later → P (xs ++ earlier) y) :
    ∀ earlier z later, xs ++ ys = earlier ++ z :: later → P earlier z := by
  intro earlier z later he
  obtain ⟨earlier', rfl, hr⟩ | ⟨rest, hl, hr⟩ := List.append_eq_append_iff.mp he
  · exact hy earlier' z later hr
  · cases rest
    case nil =>
      rw [List.append_nil] at hl
      simpa [hl] using hy [] z later hr.symm
    case cons =>
      obtain ⟨rfl, -⟩ := List.cons.inj hr
      exact hx earlier z _ hl

-- A server with one log and one group, which is not there before it is created, and what has become
-- of the items so far: to whom each was handed out and when, and which were acknowledged.
structure Broker (φ : Type u) (ν : Type v) (τ : Type w) where
  log      : MessageLog φ
  group    : Option (ConsumerGroup ν τ)
  handouts : List (Handout ν τ)
  acked    : List Nat

-- What clients ask of the server, and that it loses its memory.
inductive BrokerCommand (φ : Type u) (ν : Type v) (τ : Type w)
  | add (fields : φ)
  | create
  | claim (consumer : ν) (count start : Nat) (now : τ)
  | read (consumer : ν) (count : Nat) (now : τ)
  | ack (id : Nat)
  | lose

namespace Broker

variable {φ : Type u} {ν : Type v} {τ : Type w}

def empty : Broker φ ν τ where
  log      := .empty
  group    := none
  handouts := []
  acked    := []

variable (broker : Broker φ ν τ)

def add (fields : φ) : Broker φ ν τ :=
  { broker with log := broker.log.add fields }

-- A group that is there stays as it is.
def create : Broker φ ν τ :=
  { broker with group := broker.group.getD .empty }

def handOut (consumer : ν) (now : τ) (group : ConsumerGroup ν τ) (items : List (LogItem φ)) :
    Broker φ ν τ :=
  { broker with
    group    := some group
    handouts := broker.handouts ++ items.map (ConsumerGroup.handout consumer now) }

-- Without a group the server answers with an error.
def read (consumer : ν) (count : Nat) (now : τ) : Broker φ ν τ × Option (List (LogItem φ)) :=
  match broker.group with
  | none       => (broker, none)
  | some group =>
    let (group, items) := group.read broker.log consumer count now
    (broker.handOut consumer now group items, some items)

def ack (id : Nat) : Broker φ ν τ :=
  { broker with
    log   := broker.log.delete id
    group := broker.group.map (·.ack id)
    acked := broker.acked ++ [id] }

def lose : Broker φ ν τ :=
  { broker with
    log   := broker.log.clear
    group := none }

-- How a server can go on: what has happened stays so.
structure Extends (broker' : Broker φ ν τ) : Prop where
  handouts : broker.handouts <+: broker'.handouts
  acked    : broker.acked ⊆ broker'.acked

namespace Extends

variable {broker} {broker' broker'' : Broker φ ν τ}

theorem refl : broker.Extends broker where
  handouts := List.prefix_refl _
  acked    := List.Subset.refl _

theorem trans (h : broker.Extends broker') (h' : broker'.Extends broker'') :
    broker.Extends broker'' where
  handouts := h.handouts.trans h'.handouts
  acked    := List.Subset.trans h.acked h'.acked

end Extends

variable [AddGroup τ] [LinearOrder τ] (minIdle : τ)

def claim (consumer : ν) (count start : Nat) (now : τ) :
    Broker φ ν τ × Option (List (LogItem φ) × Nat) :=
  match broker.group with
  | none       => (broker, none)
  | some group =>
    let (group, items, cursor) := group.claim broker.log consumer minIdle count start now
    (broker.handOut consumer now group items, some (items, cursor))

def exec : BrokerCommand φ ν τ → Broker φ ν τ
  | .add fields                     => broker.add fields
  | .create                         => broker.create
  | .claim consumer count start now => (broker.claim minIdle consumer count start now).1
  | .read consumer count now        => (broker.read consumer count now).1
  | .ack id                         => broker.ack id
  | .lose                           => broker.lose

def run (commands : List (BrokerCommand φ ν τ)) : Broker φ ν τ :=
  commands.foldl (·.exec minIdle ·) broker

theorem exec_extends (command : BrokerCommand φ ν τ) :
    broker.Extends (broker.exec minIdle command) := by
  cases command
  case add | create | lose => exact ⟨List.prefix_refl _, List.Subset.refl _⟩
  case ack                 => exact ⟨List.prefix_refl _, List.subset_append_left ..⟩
  case claim consumer count start now =>
    simp only [exec, claim]
    split
    · exact .refl
    · exact ⟨List.prefix_append .., List.Subset.refl _⟩
  case read consumer count now =>
    simp only [exec, read]
    split
    · exact .refl
    · exact ⟨List.prefix_append .., List.Subset.refl _⟩

-- Nothing but its acknowledgement, or the loss of all, takes an item out of the log.
theorem exec_items {item : LogItem φ} (h : item ∈ broker.log.items ∨ item.id ∈ broker.acked)
    {command : BrokerCommand φ ν τ} (hl : command ≠ .lose) :
    item ∈ (broker.exec minIdle command).log.items ∨
      item.id ∈ (broker.exec minIdle command).acked := by
  obtain h | h := h
  case inr => exact .inr <| (broker.exec_extends minIdle command).acked h
  cases command
  case add fields => exact .inl <| List.mem_append_left _ h
  case create     => exact .inl h
  case lose       => exact absurd rfl hl
  case claim consumer count start now =>
    simp only [exec, claim]
    split <;> exact .inl h
  case read consumer count now =>
    simp only [exec, read]
    split <;> exact .inl h
  case ack id =>
    by_cases he : item.id = id
    case pos => exact .inr <| List.mem_append_right _ (by simp [he])
    case neg => exact .inl <| List.mem_filter.mpr ⟨h, by simpa using he⟩

theorem run_items {item : LogItem φ} {commands : List (BrokerCommand φ ν τ)}
    (h : item ∈ broker.log.items ∨ item.id ∈ broker.acked) (hl : .lose ∉ commands) :
    item ∈ (broker.run minIdle commands).log.items ∨
      item.id ∈ (broker.run minIdle commands).acked := by
  induction commands generalizing broker
  case nil => exact h
  case cons command _ hi =>
    have hc : command ≠ .lose := (List.ne_of_not_mem_cons hl).symm
    exact hi _ (broker.exec_items minIdle h hc) (List.not_mem_of_not_mem_cons hl)

theorem run_extends (commands : List (BrokerCommand φ ν τ)) :
    broker.Extends (broker.run minIdle commands) := by
  induction commands generalizing broker
  case nil => exact .refl
  case cons command _ hi => exact (broker.exec_extends minIdle command).trans (hi _)

end Broker

-- What holds of a server whatever is asked of it. What has been handed out and is still in the log is
-- pending, and what is pending is in the log. Between two handouts of an item lies the time after
-- which it may be taken over.
structure Broker.Sound {φ : Type u} {ν : Type v} {τ : Type w} [AddGroup τ] [LinearOrder τ]
    (minIdle : τ) (broker : Broker φ ν τ) : Prop where
  pending : ∀ group ∈ broker.group, group.pending.map (·.id) =
    (broker.log.items.filter (·.id < group.next)).map (·.id)
  next    : ∀ group ∈ broker.group, group.next ≤ broker.log.nextId
  past    : ∀ h ∈ broker.handouts, h.id < broker.log.nextId
  unread  : ∀ item ∈ broker.log.items, (∀ group ∈ broker.group, group.next ≤ item.id) →
    ∀ h ∈ broker.handouts, h.id < item.id
  latest  : ∀ group ∈ broker.group, ∀ p ∈ group.pending, ∃ earlier later,
    broker.handouts = earlier ++ p :: later ∧ ∀ h ∈ later, h.id ≠ p.id
  spaced  : broker.handouts.Pairwise fun h h' => h.id = h'.id → minIdle + h.time ≤ h'.time
  inOrder : ∀ earlier h later, broker.handouts = earlier ++ h :: later →
    (∃ h' ∈ earlier, h'.id = h.id) ∨ ∀ h' ∈ earlier, h'.id < h.id

namespace Broker.Sound

variable {φ : Type u} {ν : Type v} {τ : Type w} [AddGroup τ] [LinearOrder τ] {minIdle : τ}
         {broker : Broker φ ν τ}

theorem empty : Sound minIdle (Broker.empty : Broker φ ν τ) where
  pending _ h := by cases h
  next _ h    := by cases h
  past _ h    := by cases h
  unread _ h  := by cases h
  latest _ h  := by cases h
  spaced      := .nil
  inOrder _ _ _ h := by simp [Broker.empty] at h

theorem get_isSome (h : Sound minIdle broker) {group : ConsumerGroup ν τ}
    (hg : broker.group = some group) : ∀ p ∈ group.pending, (broker.log.get p.id).isSome := by
  intro p hp
  have hm : p.id ∈ group.pending.map (·.id) := List.mem_map_of_mem hp
  rw [h.pending group hg] at hm
  exact MessageLog.get_isSome <| (List.filter_sublist.map _).mem hm

-- What is in the log is pending, or waits to be read.
theorem length_eq (h : Sound minIdle broker) {group : ConsumerGroup ν τ}
    (hg : broker.group = some group) :
    broker.log.items.length = group.pending.length + (group.unread broker.log).length := by
  have hp := congrArg List.length (h.pending group hg)
  simp only [List.length_map] at hp
  rw [hp, ConsumerGroup.unread, ← List.length_append, broker.log.split]

theorem add (h : Sound minIdle broker) (fields : φ) : Sound minIdle (broker.add fields) where
  pending group hg := by
    have hn : ¬broker.log.nextId < group.next := not_lt.mpr <| h.next group hg
    simp [Broker.add, MessageLog.add, List.filter_append, hn, h.pending group hg]
  next group hg := Nat.le_succ_of_le <| h.next group hg
  past handout hm := Nat.lt_succ_of_lt <| h.past handout hm
  unread item hm hn := by
    obtain hm | hm := List.mem_append.mp hm
    · exact h.unread item hm hn
    · exact List.mem_singleton.mp hm ▸ h.past
  latest  := h.latest
  spaced  := h.spaced
  inOrder := h.inOrder

theorem create (h : Sound minIdle broker) : Sound minIdle broker.create := by
  cases hb : broker.group
  case some group =>
    have he : broker.create = broker := by
      cases broker
      cases hb
      rfl
    exact he ▸ h
  case none =>
    have hg : broker.create.group = some .empty := by simp [Broker.create, hb]
    exact {
      pending group hm := by
        rw [hg, Option.mem_some] at hm
        simp [← hm, ConsumerGroup.empty]
      next group hm := by
        rw [hg, Option.mem_some] at hm
        simp [← hm, ConsumerGroup.empty]
      latest group hm := by
        rw [hg, Option.mem_some] at hm
        simp [← hm, ConsumerGroup.empty]
      unread item hm _ := h.unread item hm (by simp [hb])
      past    := h.past
      spaced  := h.spaced
      inOrder := h.inOrder }

theorem ack (h : Sound minIdle broker) (id : Nat) : Sound minIdle (broker.ack id) where
  pending group hm := by
    obtain ⟨group, hg, rfl⟩ := Option.map_eq_some_iff.mp hm
    have hp := congrArg (List.filter (· ≠ id)) (h.pending group hg)
    rw [List.filter_map, List.filter_map, List.filter_comm] at hp
    exact hp
  next group hm := by
    obtain ⟨group, hg, rfl⟩ := Option.map_eq_some_iff.mp hm
    exact h.next group hg
  past := h.past
  unread item hm hn := by
    refine h.unread item (List.mem_filter.mp hm).left fun group hg => ?_
    exact hn (group.ack id) <| Option.map_eq_some_iff.mpr ⟨group, hg, rfl⟩
  latest group hm p hp := by
    obtain ⟨group, hg, rfl⟩ := Option.map_eq_some_iff.mp hm
    exact h.latest group hg p (List.mem_filter.mp hp).left
  spaced  := h.spaced
  inOrder := h.inOrder

-- What is handed out goes on record: it is new to everybody, or has rested for long enough.
theorem handOut (h : Sound minIdle broker) {consumer : ν} {now : τ} {group : ConsumerGroup ν τ}
    {items : List (LogItem φ)} (hinc : items.Pairwise (·.id < ·.id))
    (hitems : ∀ item ∈ items, item ∈ broker.log.items)
    (hspace : ∀ item ∈ items, ∀ h ∈ broker.handouts, h.id = item.id → minIdle + h.time ≤ now)
    (horder : ∀ item ∈ items, (∃ h ∈ broker.handouts, h.id = item.id) ∨
      ∀ h ∈ broker.handouts, h.id < item.id)
    (hpending : group.pending.map (·.id) =
      (broker.log.items.filter (·.id < group.next)).map (·.id))
    (hnext : group.next ≤ broker.log.nextId)
    (hunread : ∀ item ∈ broker.log.items, group.next ≤ item.id →
      (∀ h ∈ broker.handouts, h.id < item.id) ∧ ∀ item' ∈ items, item'.id < item.id)
    (hlatest : ∀ p ∈ group.pending, (∃ item ∈ items, p = ConsumerGroup.handout consumer now item) ∨
      (∀ item ∈ items, item.id ≠ p.id) ∧ ∃ earlier later,
        broker.handouts = earlier ++ p :: later ∧ ∀ h ∈ later, h.id ≠ p.id) :
    Sound minIdle (broker.handOut consumer now group items) where
  pending _ hg := Option.some.inj hg ▸ hpending
  next _ hg    := Option.some.inj hg ▸ hnext
  past handout hm := by
    obtain hm | hm := List.mem_append.mp hm
    · exact h.past handout hm
    · obtain ⟨item, hi, rfl⟩ := List.mem_map.mp hm
      exact MessageLog.id_lt_nextId (hitems item hi)
  unread item hm hn handout hh := by
    obtain ⟨hold, hnew⟩ := hunread item hm (hn group rfl)
    obtain hh | hh := List.mem_append.mp hh
    · exact hold handout hh
    · obtain ⟨item', hm', rfl⟩ := List.mem_map.mp hh
      exact hnew item' hm'
  latest _ hg p hp := by
    obtain rfl := Option.some.inj hg
    obtain ⟨item, hm, rfl⟩ | ⟨hne, earlier, later, he, hl⟩ := hlatest p hp
    · obtain ⟨items₁, items₂, rfl⟩ := List.append_of_mem hm
      refine ⟨broker.handouts ++ items₁.map (ConsumerGroup.handout consumer now),
        items₂.map (ConsumerGroup.handout consumer now), by simp [Broker.handOut], ?_⟩
      intro h' hm'
      obtain ⟨item', hi, rfl⟩ := List.mem_map.mp hm'
      obtain ⟨-, hafter, -⟩ := List.pairwise_append.mp hinc
      exact (List.rel_of_pairwise_cons hafter hi).ne'
    · refine ⟨earlier, later ++ items.map (ConsumerGroup.handout consumer now),
        by simp [Broker.handOut, he], fun h' hm' => ?_⟩
      obtain hm' | hm' := List.mem_append.mp hm'
      · exact hl h' hm'
      · obtain ⟨item, hi, rfl⟩ := List.mem_map.mp hm'
        exact hne item hi
  spaced := by
    refine List.pairwise_append.mpr ⟨h.spaced, ?_, fun h₁ hm h₂ hm' => ?_⟩
    · refine List.pairwise_map.mpr <| hinc.imp fun hlt he => absurd he hlt.ne
    · obtain ⟨item, hi, rfl⟩ := List.mem_map.mp hm'
      exact hspace item hi h₁ hm
  inOrder := by
    refine forall_split_append h.inOrder fun earlier h₁ later hr => ?_
    obtain ⟨items₁, rest, rfl, rfl, hrest⟩ := List.map_eq_append_iff.mp hr
    obtain ⟨item, items₂, rfl, rfl, -⟩ := List.map_eq_cons_iff.mp hrest
    obtain ⟨h', hm, hid⟩ | hlt := horder item (by simp)
    · exact .inl ⟨h', List.mem_append_left _ hm, hid⟩
    · refine .inr fun h' hm => ?_
      obtain hm | hm := List.mem_append.mp hm
      · exact hlt h' hm
      · obtain ⟨item', hi, rfl⟩ := List.mem_map.mp hm
        obtain ⟨-, -, hbefore⟩ := List.pairwise_append.mp hinc
        exact hbefore item' hi item (by simp)

theorem read (h : Sound minIdle broker) (consumer : ν) (count : Nat) (now : τ) :
    Sound minIdle (broker.read consumer count now).1 := by
  cases hb : broker.group
  case none => simpa [Broker.read, hb] using h
  case some group =>
    have hr : (broker.read consumer count now).1 = broker.handOut consumer now
        (group.read broker.log consumer count now).1 (group.read broker.log consumer count now).2 := by
      simp [Broker.read, hb]
    have hfresh : ∀ item ∈ (group.read broker.log consumer count now).2,
        item ∈ broker.log.items ∧ group.next ≤ item.id ∧ ∀ h ∈ broker.handouts, h.id < item.id := by
      intro item hm
      obtain ⟨hl, hn⟩ := ConsumerGroup.mem_unread.mp <| List.mem_of_mem_take hm
      exact ⟨hl, hn, h.unread item hl (by simpa [hb] using hn)⟩
    obtain ⟨hle, hinc⟩ := group.nextAfter_unread broker.log count
    rw [hr]
    refine h.handOut ?_ (fun item hm => (hfresh item hm).left) ?_ ?_ ?_ ?_ ?_ ?_
    · exact group.unread_increasing broker.log |>.sublist <| List.take_sublist ..
    · exact fun item hm h' hh hid => absurd hid ((hfresh item hm).right.right h' hh).ne
    · exact fun item hm => .inr (hfresh item hm).right.right
    · rw [group.handed_read broker.log consumer count now, List.map_append, ← h.pending group hb]
      simp [ConsumerGroup.read, Function.comp_def, ConsumerGroup.handout]
    · exact ConsumerGroup.nextAfter_le_nextId (h.next group hb) count
    · refine fun item hm hn => ⟨h.unread item hm (by simpa [hb] using hle.trans hn), ?_⟩
      intro item' hm'
      obtain ⟨-, -, hlt⟩ := List.pairwise_append.mp hinc
      exact (hlt item'.id (List.mem_map_of_mem hm') _ (List.mem_singleton_self _)).trans_le hn
    · intro p hp
      obtain hp | hp := List.mem_append.mp hp
      · refine .inr ⟨fun item hm => ?_, h.latest group hb p hp⟩
        exact ((ConsumerGroup.id_lt_next hp).trans_le (hfresh item hm).right.left).ne'
      · obtain ⟨item, hm, rfl⟩ := List.mem_map.mp hp
        exact .inl ⟨item, hm, rfl⟩

theorem claim [AddLeftMono τ] [AddRightMono τ] (h : Sound minIdle broker) (hi : 0 ≤ minIdle)
    (consumer : ν) (count start : Nat) (now : τ) :
    Sound minIdle (broker.claim minIdle consumer count start now).1 := by
  cases hb : broker.group
  case none => simpa [Broker.claim, hb] using h
  case some group =>
    have hc := group.claimed broker.log consumer minIdle count start now
    have hr : (broker.claim minIdle consumer count start now).1 = broker.handOut consumer now
        (group.claim broker.log consumer minIdle count start now).1
        (group.claim broker.log consumer minIdle count start now).2.1 := by
      simp [Broker.claim, hb]
    generalize (group.claim broker.log consumer minIdle count start now).1 = group',
      (group.claim broker.log consumer minIdle count start now).2.1 = items at hc hr
    rw [hr]
    -- What is taken over was handed out before, the last time long enough ago.
    have hlast : ∀ item ∈ items, ∃ p ∈ broker.handouts, p.id = item.id ∧ p.id < group.next ∧
        minIdle + p.time ≤ now ∧ ∀ h ∈ broker.handouts, h.id = p.id → h.time ≤ p.time := by
      intro item hm
      obtain ⟨-, p, hp, hid, hold⟩ := hc.idle item hm
      obtain ⟨earlier, later, he, hl⟩ := h.latest group hb p hp
      refine ⟨p, by simp [he], hid, ConsumerGroup.id_lt_next hp, le_sub_iff_add_le.mp hold, ?_⟩
      intro h' hh hid'
      rw [he, List.mem_append, List.mem_cons] at hh
      obtain hh | rfl | hh := hh
      · have hspaced := h.spaced
        rw [he] at hspaced
        obtain ⟨-, -, hbefore⟩ := List.pairwise_append.mp hspaced
        exact (le_add_of_nonneg_left hi).trans <| hbefore h' hh p (List.mem_cons_self ..) hid'
      · rfl
      · exact absurd hid' (hl h' hh)
    refine h.handOut hc.increasing (fun item hm => (hc.idle item hm).left) ?_ ?_ ?_ ?_ ?_ ?_
    · intro item hm h' hh hid
      obtain ⟨p, -, hid', -, hold, hlatest⟩ := hlast item hm
      exact (add_le_add_right (hlatest h' hh (hid.trans hid'.symm)) _).trans hold
    · intro item hm
      obtain ⟨p, hh, hid, -⟩ := hlast item hm
      exact .inl ⟨p, hh, hid⟩
    · rw [hc.ids (h.get_isSome hb), hc.next, h.pending group hb]
    · exact hc.next.trans_le <| h.next group hb
    · intro item hm hn
      rw [hc.next] at hn
      refine ⟨h.unread item hm (by simpa [hb] using hn), fun item' hm' => ?_⟩
      obtain ⟨p, -, hid, hlt, -⟩ := hlast item' hm'
      exact hid ▸ hlt.trans_le hn
    · intro p hp
      obtain ⟨hp, hne⟩ | hnew := hc.pending p hp
      · exact .inr ⟨hne, h.latest group hb p hp⟩
      · exact .inl hnew

theorem lose (h : Sound minIdle broker) : Sound minIdle broker.lose where
  pending _ hm := by cases hm
  next _ hm    := by cases hm
  latest _ hm  := by cases hm
  unread _ hm  := by cases hm
  past         := h.past
  spaced       := h.spaced
  inOrder      := h.inOrder

variable [AddLeftMono τ] [AddRightMono τ]

theorem exec (h : Sound minIdle broker) (hi : 0 ≤ minIdle) (command : BrokerCommand φ ν τ) :
    Sound minIdle (broker.exec minIdle command) := by
  cases command
  case add fields                     => exact h.add fields
  case create                         => exact h.create
  case claim consumer count start now => exact h.claim hi consumer count start now
  case read consumer count now        => exact h.read consumer count now
  case ack id                         => exact h.ack id
  case lose                           => exact h.lose

theorem run (h : Sound minIdle broker) (hi : 0 ≤ minIdle) (commands : List (BrokerCommand φ ν τ)) :
    Sound minIdle (broker.run minIdle commands) := by
  induction commands generalizing broker
  case nil                 => exact h
  case cons command _ hrun => exact hrun (h.exec hi command)

end Broker.Sound
