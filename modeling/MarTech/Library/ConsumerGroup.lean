import Mathlib.Algebra.Order.Group.Defs
import Mathlib.Data.List.Induction
import Mathlib.Data.List.Nodup
import Mathlib.Data.List.TakeWhile

universe u v w

-- What comes before a number, and what comes from it on.
theorem List.Pairwise.split {α : Type u} {f : α → Nat} {l : List α}
    (h : l.Pairwise (f · < f ·)) (n : Nat) :
    l.filter (f · < n) ++ l.filter (n ≤ f ·) = l := by
  induction l
  case nil => rfl
  case cons a l hi =>
    obtain ⟨ha, hl⟩ := List.pairwise_cons.mp h
    by_cases hlt : f a < n
    case pos => simpa [hlt, not_le.mpr hlt] using hi hl
    case neg =>
      have hle : ∀ b ∈ l, n ≤ f b := fun b hb => (not_lt.mp hlt).trans (ha b hb).le
      have hlow : l.filter (f · < n) = [] := by
        simpa only [List.filter_eq_nil_iff, decide_eq_true_eq, not_lt] using hle
      have hhigh : l.filter (n ≤ f ·) = l := by
        simpa only [List.filter_eq_self, decide_eq_true_eq] using hle
      simp [hlt, not_lt.mp hlt, hlow, hhigh]

structure LogItem (φ : Type u) where
  id     : Nat
  fields : φ

-- A log keeps its items in the order of their ids, and gives out no id twice.
structure MessageLog (φ : Type u) where
  items  : List (LogItem φ)
  nextId : Nat
  increasing : (items.map (·.id) ++ [nextId]).Pairwise (· < ·)

namespace MessageLog

variable {φ : Type u} (log : MessageLog φ)

def empty : MessageLog φ where
  items      := []
  nextId     := 0
  increasing := by simp

theorem id_lt_nextId {log : MessageLog φ} {item : LogItem φ} (h : item ∈ log.items) :
    item.id < log.nextId :=
  List.pairwise_append.mp log.increasing |>.right.right _ (List.mem_map_of_mem h) _ (by simp)

theorem items_increasing : log.items.Pairwise (·.id < ·.id) :=
  List.pairwise_map.mp <| List.pairwise_append.mp log.increasing |>.left

theorem split (id : Nat) :
    log.items.filter (·.id < id) ++ log.items.filter (id ≤ ·.id) = log.items :=
  log.items_increasing.split id

def add (fields : φ) : MessageLog φ where
  items      := log.items ++ [⟨log.nextId, fields⟩]
  nextId     := log.nextId + 1
  increasing := by
    rw [List.map_append, List.pairwise_append]
    refine ⟨log.increasing, by simp, fun id hm id' h => ?_⟩
    rw [List.mem_singleton.mp h]
    obtain hm | hm := List.mem_append.mp hm
    · obtain ⟨item, hitem, rfl⟩ := List.mem_map.mp hm
      exact (id_lt_nextId hitem).trans (Nat.lt_succ_self _)
    · rw [List.mem_singleton.mp hm]
      exact Nat.lt_succ_self _

def delete (id : Nat) : MessageLog φ where
  items      := log.items.filter (·.id ≠ id)
  nextId     := log.nextId
  increasing :=
    log.increasing.sublist <| (List.filter_sublist.map _).append_right _

theorem delete_length (id : Nat) : (log.delete id).items.length ≤ log.items.length ∧
    log.items.length ≤ (log.delete id).items.length + 1 := by
  have hnodup : (log.items.map (·.id)).Nodup :=
    List.pairwise_map.mpr <| log.items_increasing.imp ne_of_lt
  have hcount : log.items.countP (·.id = id) ≤ 1 := by
    have := List.nodup_iff_count_le_one.mp hnodup id
    rwa [List.count, List.countP_map] at this
  have hlength : log.items.length =
      log.items.countP (·.id = id) + (log.delete id).items.length := by
    rw [delete, ← List.countP_eq_length_filter, List.length_eq_countP_add_countP (·.id = id)]
    simp
  omega

-- All items are gone. Their ids are not given out again.
def clear : MessageLog φ where
  items      := []
  nextId     := log.nextId
  increasing := by simp

def get (id : Nat) : Option (LogItem φ) :=
  log.items.find? (·.id = id)

theorem mem_of_get {log : MessageLog φ} {id : Nat} {item : LogItem φ} (h : log.get id = some item) :
    item ∈ log.items ∧ item.id = id :=
  ⟨List.mem_of_find?_eq_some h, by simpa using List.find?_some h⟩

theorem get_isSome {log : MessageLog φ} {id : Nat} (h : id ∈ log.items.map (·.id)) :
    (log.get id).isSome := by
  simpa [get, List.find?_isSome] using h

end MessageLog

-- That an item was handed to a consumer at a time.
structure Handout (ν : Type v) (τ : Type w) where
  id       : Nat
  consumer : ν
  time     : τ

-- What the server knows of a group of consumers: the items from `next` on have not been handed out
-- yet, and those in `pending` have been but are not acknowledged.
structure ConsumerGroup (ν : Type v) (τ : Type w) where
  next    : Nat
  pending : List (Handout ν τ)
  increasing : (pending.map (·.id) ++ [next]).Pairwise (· < ·)

namespace ConsumerGroup

variable {φ : Type u} {ν : Type v} {τ : Type w}

def empty : ConsumerGroup ν τ where
  next       := 0
  pending    := []
  increasing := by simp

section

variable (group : ConsumerGroup ν τ)

theorem pending_increasing : group.pending.Pairwise (·.id < ·.id) :=
  List.pairwise_map.mp <| List.pairwise_append.mp group.increasing |>.left

theorem id_lt_next {group : ConsumerGroup ν τ} {p : Handout ν τ} (h : p ∈ group.pending) :
    p.id < group.next :=
  List.pairwise_append.mp group.increasing |>.right.right _ (List.mem_map_of_mem h) _ (by simp)

theorem pending_split (start : Nat) :
    group.pending.filter (·.id < start) ++ group.pending.filter (start ≤ ·.id) = group.pending :=
  group.pending_increasing.split start

theorem eq_of_id {group : ConsumerGroup ν τ} {p q : Handout ν τ} (hp : p ∈ group.pending)
    (hq : q ∈ group.pending) (h : p.id = q.id) : p = q :=
  List.inj_on_of_nodup_map
    (List.pairwise_map.mpr <| group.pending_increasing.imp ne_of_lt) hp hq h

-- Acknowledging an item that is not pending does nothing.
def ack (id : Nat) : ConsumerGroup ν τ where
  next       := group.next
  pending    := group.pending.filter (·.id ≠ id)
  increasing := group.increasing.sublist <| (List.filter_sublist.map _).append_right _

end

def handout (consumer : ν) (now : τ) (item : LogItem φ) : Handout ν τ where
  id       := item.id
  consumer := consumer
  time     := now

-- Where the reading goes on once the given items have been handed out.
def nextAfter (next : Nat) (items : List (LogItem φ)) : Nat :=
  items.getLast?.elim next (·.id + 1)

theorem nextAfter_increasing {next : Nat} {items : List (LogItem φ)}
    (hs : items.Pairwise (·.id < ·.id)) (hn : ∀ item ∈ items, next ≤ item.id) :
    next ≤ nextAfter next items ∧ (items.map (·.id) ++ [nextAfter next items]).Pairwise (· < ·) := by
  induction items using List.reverseRecOn
  case nil => simp [nextAfter]
  case append_singleton items last _ =>
    obtain ⟨hs, -, hlast⟩ := List.pairwise_append.mp hs
    have hnext : nextAfter next (items ++ [last]) = last.id + 1 := by simp [nextAfter]
    rw [hnext]
    refine ⟨Nat.le_succ_of_le <| hn last (by simp), ?_⟩
    rw [List.pairwise_append, List.pairwise_map, List.pairwise_append]
    refine ⟨⟨hs, List.pairwise_singleton .., hlast⟩, List.pairwise_singleton .., ?_⟩
    simp only [List.map_append, List.map_cons, List.map_nil, List.mem_append, List.mem_map,
      List.mem_singleton]
    rintro id (⟨item, hm, rfl⟩ | rfl) id' rfl
    · exact Nat.lt_succ_of_lt <| hlast item hm last (by simp)
    · exact Nat.lt_succ_self _

section Read

variable (group : ConsumerGroup ν τ) (log : MessageLog φ)

-- The items that have not been handed out.
def unread : List (LogItem φ) :=
  log.items.filter (group.next ≤ ·.id)

variable {group log} in
@[simp]
theorem mem_unread {item : LogItem φ} :
    item ∈ group.unread log ↔ item ∈ log.items ∧ group.next ≤ item.id := by
  simp [unread]

theorem unread_increasing : (group.unread log).Pairwise (·.id < ·.id) :=
  log.items_increasing.filter _

theorem nextAfter_unread (count : Nat) :
    let items := (group.unread log).take count
    group.next ≤ nextAfter group.next items ∧
      (items.map (·.id) ++ [nextAfter group.next items]).Pairwise (· < ·) :=
  nextAfter_increasing (group.unread_increasing log |>.sublist <| List.take_sublist ..)
    fun _ hm => mem_unread.mp (List.mem_of_mem_take hm) |>.right

-- Hands out the next unread items, `count` at most.
def read (consumer : ν) (count : Nat) (now : τ) : ConsumerGroup ν τ × List (LogItem φ) :=
  let items := (group.unread log).take count
  ({ next       := nextAfter group.next items
     pending    := group.pending ++ items.map (handout consumer now)
     increasing := by
       obtain ⟨hle, hinc⟩ := group.nextAfter_unread log count
       rw [List.map_append, List.map_map, List.append_assoc, List.pairwise_append]
       refine ⟨List.pairwise_map.mpr group.pending_increasing, hinc, fun id hid id' hid' => ?_⟩
       obtain ⟨p, hp, rfl⟩ := List.mem_map.mp hid
       have hlt := id_lt_next hp
       obtain hm | hm := List.mem_append.mp hid'
       · obtain ⟨item, hitem, rfl⟩ := List.mem_map.mp hm
         exact hlt.trans_le (mem_unread.mp (List.mem_of_mem_take hitem)).right
       · exact hlt.trans_le <| hle.trans_eq (List.mem_singleton.mp hm).symm }, items)

variable {group log} in
theorem nextAfter_le_nextId (h : group.next ≤ log.nextId) (count : Nat) :
    nextAfter group.next ((group.unread log).take count) ≤ log.nextId := by
  cases hl : ((group.unread log).take count).getLast?
  case none => simpa [nextAfter, hl] using h
  case some last =>
    have hm := mem_unread.mp <| List.mem_of_mem_take <| List.mem_of_getLast? hl
    simpa [nextAfter, hl] using Nat.succ_le_of_lt (MessageLog.id_lt_nextId hm.left)

-- A read leaves the items with ids from the new `next` on.
theorem nextAfter_le_of_mem_drop {group : ConsumerGroup ν τ} {log : MessageLog φ} {count : Nat}
    {item : LogItem φ} (h : item ∈ (group.unread log).drop count) :
    nextAfter group.next ((group.unread log).take count) ≤ item.id := by
  have hinc := group.unread_increasing log
  rw [← List.take_append_drop count (group.unread log)] at hinc
  cases hl : ((group.unread log).take count).getLast?
  case none => simpa [nextAfter, hl] using (mem_unread.mp <| List.mem_of_mem_drop h).right
  case some last =>
    have hlt := List.pairwise_append.mp hinc |>.right.right last (List.mem_of_getLast? hl) item h
    simpa [nextAfter, hl] using Nat.succ_le_of_lt hlt

theorem handed_upto {next : Nat} {items rest : List (LogItem φ)}
    (hs : group.unread log = items ++ rest) (hle : group.next ≤ next)
    (hlt : ∀ item ∈ items, item.id < next) (hge : ∀ item ∈ rest, next ≤ item.id) :
    log.items.filter (·.id < next) = log.items.filter (·.id < group.next) ++ items := by
  have hlow : (log.items.filter (·.id < group.next)).filter (·.id < next) =
      log.items.filter (·.id < group.next) := by
    simp only [List.filter_eq_self, List.mem_filter, decide_eq_true_eq]
    exact fun item hm => hm.right.trans_le hle
  have hitems : items.filter (·.id < next) = items := by
    simpa only [List.filter_eq_self, decide_eq_true_eq] using hlt
  have hrest : rest.filter (·.id < next) = [] := by
    simpa only [List.filter_eq_nil_iff, decide_eq_true_eq, not_lt] using hge
  calc log.items.filter (·.id < next)
    _ = (log.items.filter (·.id < group.next) ++ (items ++ rest)).filter (·.id < next) := by
      rw [← hs, unread, log.split]
    _ = _ := by
      rw [List.filter_append, List.filter_append, hlow, hitems, hrest, List.append_nil]

-- What has been handed out after a read is what was before it and what it returns.
theorem handed_read (consumer : ν) (count : Nat) (now : τ) :
    log.items.filter (·.id < (group.read log consumer count now).1.next) =
      log.items.filter (·.id < group.next) ++ (group.read log consumer count now).2 := by
  obtain ⟨hle, hinc⟩ := group.nextAfter_unread log count
  obtain ⟨-, -, hlt⟩ := List.pairwise_append.mp hinc
  refine group.handed_upto log (List.take_append_drop count _).symm hle (fun item hm => ?_)
    fun item hm => nextAfter_le_of_mem_drop hm
  exact hlt item.id (List.mem_map_of_mem hm) _ (List.mem_singleton_self _)

end Read

section Claim

variable [AddGroup τ] [LinearOrder τ]

-- Goes on from a position among the pending items, and takes over those whose last handout is not
-- younger than `minIdle`. It looks at as many items as `attempts` says and takes over no more than
-- `count`. An item that the log does not have any more is no longer pending. The result is what
-- becomes of the pending items, those taken over, and where the next call is to go on.
def sweep (log : MessageLog φ) (consumer : ν) (minIdle now : τ) :
    Nat → Nat → List (Handout ν τ) → List (Handout ν τ) × List (LogItem φ) × Nat
  | _, _, []                        => ([], [], 0)
  | 0, _, p :: ps | _, 0, p :: ps   => (p :: ps, [], p.id)
  | attempts + 1, count + 1, p :: ps =>
    match log.get p.id with
    | none      => sweep log consumer minIdle now attempts count ps
    | some item =>
      if now - p.time < minIdle then
        let (pending, items, cursor) := sweep log consumer minIdle now attempts (count + 1) ps
        (p :: pending, items, cursor)
      else
        let (pending, items, cursor) := sweep log consumer minIdle now attempts count ps
        (handout consumer now item :: pending, item :: items, cursor)

variable {log : MessageLog φ} {consumer : ν} {minIdle now : τ} {attempts count : Nat}
         {ps : List (Handout ν τ)}

theorem sweep_sublist :
    ((sweep log consumer minIdle now attempts count ps).1.map (·.id)).Sublist (ps.map (·.id)) := by
  fun_induction sweep log consumer minIdle now attempts count ps
  case case1 => exact .slnil
  case case2 | case3 => exact .refl _
  case case4 hi => exact hi.cons _
  case case5 he hi =>
    simp only [he] at hi
    exact hi.cons_cons _
  case case6 hg _ _ _ _ he hi =>
    simp only [he] at hi
    simpa [handout, (MessageLog.mem_of_get hg).right] using hi

variable (log consumer minIdle now) in
-- What a sweep makes of a pending item that it looks at.
def renewed (p : Handout ν τ) : Option (Handout ν τ) :=
  (log.get p.id).map fun item => if now - p.time < minIdle then p else handout consumer now item

variable (log minIdle now) in
-- The item, if a sweep that looks at it takes it over.
def taken (p : Handout ν τ) : Option (LogItem φ) :=
  if now - p.time < minIdle then none else log.get p.id

theorem renewed_id {p p' : Handout ν τ} (h : renewed log consumer minIdle now p = some p') :
    p'.id = p.id := by
  obtain ⟨item, hg, rfl⟩ := Option.map_eq_some_iff.mp h
  split
  case isTrue  => rfl
  case isFalse => exact (MessageLog.mem_of_get hg).right

variable (consumer minIdle now) in
theorem renewed_ids (h : ∀ p ∈ ps, (log.get p.id).isSome) :
    (ps.filterMap (renewed log consumer minIdle now)).map (·.id) = ps.map (·.id) := by
  induction ps
  case nil => rfl
  case cons p ps hi =>
    obtain ⟨hp, hps⟩ := List.forall_mem_cons.mp h
    obtain ⟨item, hg⟩ := Option.isSome_iff_exists.mp hp
    obtain ⟨p', hr⟩ : ∃ p', renewed log consumer minIdle now p = some p' :=
      ⟨_, by rw [renewed, hg, Option.map_some]⟩
    rw [List.filterMap_cons_some hr, List.map_cons, renewed_id hr, hi hps, List.map_cons]

theorem taken_spec {p : Handout ν τ} {item : LogItem φ} (h : taken log minIdle now p = some item) :
    item.id = p.id ∧ item ∈ log.items ∧ minIdle ≤ now - p.time := by
  simp only [taken] at h
  split at h
  case isTrue => cases h
  case isFalse hold =>
    obtain ⟨hm, hid⟩ := MessageLog.mem_of_get h
    exact ⟨hid, hm, not_lt.mp hold⟩

variable (log consumer minIdle now attempts count ps) in
-- A sweep looks at the first pending items, and stops before their end only if it has come to the
-- limit of its attempts or of its results.
theorem sweep_eq : ∃ seen rest, ps = seen ++ rest ∧
    sweep log consumer minIdle now attempts count ps =
      (seen.filterMap (renewed log consumer minIdle now) ++ rest,
        seen.filterMap (taken log minIdle now), rest.head?.elim 0 (·.id)) ∧
    (rest = [] ∨ seen.length = attempts ∨
      seen.countP (fun p => (log.get p.id).isNone ∨ minIdle ≤ now - p.time) = count) := by
  fun_induction sweep log consumer minIdle now attempts count ps
  case case1 => exact ⟨[], [], by simp⟩
  case case2 p ps => exact ⟨[], p :: ps, by simp⟩
  case case3 p ps _ => exact ⟨[], p :: ps, by simp⟩
  case case4 p ps hg hi =>
    obtain ⟨seen, rest, rfl, he, hstop⟩ := hi
    refine ⟨p :: seen, rest, rfl, ?_, ?_⟩
    · simp [he, renewed, taken, hg]
    · simpa [hg] using hstop
  case case5 p ps item hg hyoung _ _ _ hs hi =>
    obtain ⟨seen, rest, rfl, he, hstop⟩ := hi
    refine ⟨p :: seen, rest, rfl, ?_, ?_⟩
    · simp only [hs, Prod.mk.injEq] at he
      simp [he, renewed, taken, hg, hyoung]
    · simpa [hg, hyoung] using hstop
  case case6 p ps item hg hold _ _ _ hs hi =>
    obtain ⟨seen, rest, rfl, he, hstop⟩ := hi
    refine ⟨p :: seen, rest, rfl, ?_, ?_⟩
    · simp only [hs, Prod.mk.injEq] at he
      simp [he, renewed, taken, hg, hold]
    · simpa [hg, not_lt.mp hold] using hstop

section

variable (group : ConsumerGroup ν τ) (log : MessageLog φ)

-- Looks for items that have been pending for too long, at ten times as many as it may take over,
-- from the id `start` on.
def claim (consumer : ν) (minIdle : τ) (count start : Nat) (now : τ) :
    ConsumerGroup ν τ × List (LogItem φ) × Nat :=
  let swept := sweep log consumer minIdle now (10 * count) count
    (group.pending.filter (start ≤ ·.id))
  ({ next       := group.next
     pending    := group.pending.filter (·.id < start) ++ swept.1
     increasing := by
       refine group.increasing.sublist <| List.Sublist.append_right ?_ _
       nth_rewrite 2 [← group.pending_split start]
       rw [List.map_append, List.map_append]
       exact sweep_sublist.append_left _ }, swept.2)

end

-- What a claim does: of the pending items some were seen, from `start` on, and of those it took over
-- the ones that were old enough.
structure Claimed (group : ConsumerGroup ν τ) (log : MessageLog φ) (consumer : ν) (minIdle now : τ)
    (group' : ConsumerGroup ν τ) (items : List (LogItem φ)) : Prop where
  next       : group'.next = group.next
  increasing : items.Pairwise (·.id < ·.id)
  idle       : ∀ item ∈ items, item ∈ log.items ∧
    ∃ p ∈ group.pending, p.id = item.id ∧ minIdle ≤ now - p.time
  pending    : ∀ p ∈ group'.pending, (p ∈ group.pending ∧ ∀ item ∈ items, item.id ≠ p.id) ∨
    ∃ item ∈ items, p = handout consumer now item
  ids        : (∀ p ∈ group.pending, (log.get p.id).isSome) →
    group'.pending.map (·.id) = group.pending.map (·.id)

theorem claimed (group : ConsumerGroup ν τ) (log : MessageLog φ) (consumer : ν) (minIdle : τ)
    (count start : Nat) (now : τ) :
    Claimed group log consumer minIdle now (group.claim log consumer minIdle count start now).1
      (group.claim log consumer minIdle count start now).2.1 := by
  obtain ⟨seen, rest, hs, he, -⟩ := sweep_eq log consumer minIdle now (10 * count) count
    (group.pending.filter (start ≤ ·.id))
  have hsplit := group.pending_split start
  rw [hs] at hsplit
  obtain ⟨-, hafter, hbefore⟩ := List.pairwise_append.mp (hsplit ▸ group.pending_increasing)
  obtain ⟨hseen, -, hrest⟩ := List.pairwise_append.mp hafter
  simp only [claim, he]
  constructor
  case next => rfl
  case increasing =>
    refine hseen.filterMap _ fun p q hlt item hp item' hq => ?_
    rwa [(taken_spec hp).left, (taken_spec hq).left]
  case idle =>
    intro item hm
    obtain ⟨p, hp, ht⟩ := List.mem_filterMap.mp hm
    obtain ⟨hid, hl, hold⟩ := taken_spec ht
    exact ⟨hl, p, hsplit ▸ by simp [hp], hid.symm, hold⟩
  case pending =>
    -- Nothing but what the sweep has seen is taken over.
    have hother {p : Handout ν τ} (h : ∀ q ∈ seen, p.id ≠ q.id) :
        ∀ item ∈ seen.filterMap (taken log minIdle now), item.id ≠ p.id := by
      intro item hm hid
      obtain ⟨q, hq, ht⟩ := List.mem_filterMap.mp hm
      exact h q hq <| hid.symm.trans (taken_spec ht).left
    intro p hp
    obtain hp | hp := List.mem_append.mp hp
    · have hm : p ∈ group.pending := hsplit ▸ List.mem_append_left _ hp
      exact .inl ⟨hm, hother fun q hq => (hbefore p hp q (List.mem_append_left _ hq)).ne⟩
    obtain hp | hp := List.mem_append.mp hp
    · obtain ⟨q, hq, hr⟩ := List.mem_filterMap.mp hp
      have hm : q ∈ group.pending := hsplit ▸ by simp [hq]
      obtain ⟨item, hg, rfl⟩ := Option.map_eq_some_iff.mp hr
      split
      case isTrue hyoung =>
        refine .inl ⟨hm, fun item' hitem hid => ?_⟩
        obtain ⟨q', hq', ht⟩ := List.mem_filterMap.mp hitem
        obtain ⟨hid', -, hold⟩ := taken_spec ht
        have hm' : q' ∈ group.pending := hsplit ▸ by simp [hq']
        rw [eq_of_id hm hm' (hid.symm.trans hid')] at hyoung
        exact absurd hyoung <| not_lt.mpr hold
      case isFalse hold =>
        exact .inr ⟨item, List.mem_filterMap.mpr ⟨q, hq, by simp [taken, hold, hg]⟩, rfl⟩
    · have hm : p ∈ group.pending := hsplit ▸ by simp [hp]
      exact .inl ⟨hm, hother fun q hq => (hrest q hq p hp).ne'⟩
  case ids =>
    intro hl
    have hseen : ∀ p ∈ seen, (log.get p.id).isSome := fun p hp => hl p <| hsplit ▸ by simp [hp]
    have hids := renewed_ids consumer minIdle now hseen
    show List.map _ (group.pending.filter _ ++ (seen.filterMap _ ++ rest)) = _
    rw [List.map_append, List.map_append, hids, ← List.map_append, ← List.map_append, hsplit]

-- A pending item stays as it is unless it is taken over.
theorem Claimed.kept {group group' : ConsumerGroup ν τ} {items : List (LogItem φ)}
    (h : Claimed group log consumer minIdle now group' items)
    (hl : ∀ p ∈ group.pending, (log.get p.id).isSome) {p : Handout ν τ} (hp : p ∈ group.pending) :
    p ∈ group'.pending ∨ ∃ item ∈ items, item.id = p.id := by
  have hm : p.id ∈ group'.pending.map (·.id) := h.ids hl ▸ List.mem_map_of_mem hp
  obtain ⟨p', hp', hid⟩ := List.mem_map.mp hm
  obtain ⟨hold, -⟩ | ⟨item, hi, rfl⟩ := h.pending p' hp'
  · exact .inl <| eq_of_id hold hp hid ▸ hp'
  · exact .inr ⟨item, hi, hid⟩

end Claim

section Distance

variable (group : ConsumerGroup ν τ)

-- How far a consumer is from the pending item `id` if its next claim starts at `cursor`: the items
-- that come before, where the way from the end back to the beginning counts as `turn` items.
def distance (turn cursor id : Nat) : Nat :=
  if cursor ≤ id then
    group.pending.countP fun p => cursor ≤ p.id ∧ p.id < id
  else
    group.pending.countP (cursor ≤ ·.id) + group.pending.countP (·.id < id) + turn

theorem distance_congr {group group' : ConsumerGroup ν τ}
    (h : group'.pending.map (·.id) = group.pending.map (·.id)) (turn cursor id : Nat) :
    group'.distance turn cursor id = group.distance turn cursor id := by
  have hcount (q : Nat → Bool) :
      group'.pending.countP (fun p => q p.id) = group.pending.countP fun p => q p.id := by
    have := congrArg (List.countP q) h
    rwa [List.countP_map, List.countP_map] at this
  simp only [distance, hcount fun n => cursor ≤ n ∧ n < id, hcount fun n => cursor ≤ n,
    hcount fun n => n < id]

theorem distance_ack (turn cursor id id' : Nat) :
    (group.ack id').distance turn cursor id ≤ group.distance turn cursor id := by
  have hcount (q : Handout ν τ → Bool) :
      (group.ack id').pending.countP q ≤ group.pending.countP q :=
    List.filter_sublist.countP_le
  unfold distance
  split
  case isTrue  => exact hcount _
  case isFalse => exact Nat.add_le_add_right (Nat.add_le_add (hcount _) (hcount _)) turn

theorem countP_between {a b c : Nat} (hab : a ≤ b) (hbc : b ≤ c) :
    group.pending.countP (fun p => a ≤ p.id ∧ p.id < c) =
      group.pending.countP (fun p => a ≤ p.id ∧ p.id < b) +
        group.pending.countP fun p => b ≤ p.id ∧ p.id < c := by
  induction group.pending
  case nil => rfl
  case cons p ps hi =>
    simp only [List.countP_cons, hi, decide_eq_true_eq]
    split_ifs <;> omega

theorem countP_from {a b : Nat} (hab : a ≤ b) :
    group.pending.countP (a ≤ ·.id) =
      group.pending.countP (fun p => a ≤ p.id ∧ p.id < b) + group.pending.countP (b ≤ ·.id) := by
  induction group.pending
  case nil => rfl
  case cons p ps hi =>
    simp only [List.countP_cons, hi, decide_eq_true_eq]
    split_ifs <;> omega

theorem countP_disjoint {q q' : Handout ν τ → Bool} (h : ∀ p, q p → ¬q' p)
    (ps : List (Handout ν τ)) : ps.countP q + ps.countP q' ≤ ps.length := by
  induction ps
  case nil => rfl
  case cons p ps hi =>
    have hp := h p
    simp only [List.countP_cons, List.length_cons]
    split <;> split <;> simp_all <;> omega

theorem distance_le (turn cursor id : Nat) :
    group.distance turn cursor id ≤ group.pending.length + turn := by
  unfold distance
  split
  case isTrue  => exact List.countP_le_length.trans (Nat.le_add_right ..)
  case isFalse =>
    exact Nat.add_le_add_right
      (countP_disjoint (by simp only [decide_eq_true_eq]; omega) group.pending) turn

-- What is handed out for the first time comes after all that is pending.
theorem distance_read (log : MessageLog φ) (consumer : ν) (count : Nat) (now : τ)
    (turn cursor : Nat) {p : Handout ν τ} (h : p ∈ group.pending) :
    (group.read log consumer count now).1.distance turn cursor p.id ≤
      group.distance turn cursor p.id +
        if cursor ≤ p.id then 0 else (group.read log consumer count now).2.length := by
  have hlt := id_lt_next h
  have hnew : ∀ p' ∈ (group.read log consumer count now).2.map (handout consumer now),
      p.id < p'.id := by
    intro p' hm
    obtain ⟨item, hitem, rfl⟩ := List.mem_map.mp hm
    exact hlt.trans_le (mem_unread.mp <| List.mem_of_mem_take hitem).right
  have hpending : (group.read log consumer count now).1.pending =
      group.pending ++ (group.read log consumer count now).2.map (handout consumer now) := rfl
  unfold distance
  rw [hpending]
  split
  case isTrue =>
    have hz : ((group.read log consumer count now).2.map (handout consumer now)).countP
        (fun p' => cursor ≤ p'.id ∧ p'.id < p.id) = 0 := by
      simp only [List.countP_eq_zero, decide_eq_true_eq]
      exact fun p' hm h' => lt_asymm (hnew p' hm) h'.right
    rw [List.countP_append, hz]
  case isFalse =>
    have hz : ((group.read log consumer count now).2.map (handout consumer now)).countP
        (·.id < p.id) = 0 := by
      simp only [List.countP_eq_zero, decide_eq_true_eq]
      exact fun p' hm h' => lt_asymm (hnew p' hm) h'
    have hle : ((group.read log consumer count now).2.map (handout consumer now)).countP
        (cursor ≤ ·.id) ≤ (group.read log consumer count now).2.length :=
      List.countP_le_length.trans_eq (List.length_map _)
    rw [List.countP_append, List.countP_append, hz]
    omega

variable [AddGroup τ] [LinearOrder τ]

-- Whatever old item is seen is taken over.
theorem taken_of_old {log : MessageLog φ} {minIdle now : τ} {p : Handout ν τ}
    (hl : (log.get p.id).isSome) (hold : minIdle ≤ now - p.time) :
    ∃ item, taken log minIdle now p = some item ∧ item.id = p.id := by
  obtain ⟨item, hg⟩ := Option.isSome_iff_exists.mp hl
  exact ⟨item, by rw [taken, if_neg (not_lt.mpr hold), hg], (MessageLog.mem_of_get hg).right⟩

-- A sweep that stops before the end has seen `count` items at least, and all that it may see if it
-- has taken over none of them.
theorem sweep_length {log : MessageLog φ} {minIdle now : τ} {count : Nat} {seen : List (Handout ν τ)}
    (hl : ∀ p ∈ seen, (log.get p.id).isSome)
    (hstop : seen.length = 10 * count ∨
      seen.countP (fun p => (log.get p.id).isNone ∨ minIdle ≤ now - p.time) = count) :
    (if seen.filterMap (taken log minIdle now) = [] then 10 * count else count) ≤ seen.length := by
  obtain hn | hn := hstop
  · rw [hn]
    split <;> omega
  · have hle : count ≤ seen.length := hn ▸ List.countP_le_length
    by_cases hc : count = 0
    case pos => simp [hc]
    case neg =>
      obtain ⟨q, hq, hq'⟩ := List.countP_pos_iff.mp (hn ▸ Nat.pos_of_ne_zero hc)
      have hold : minIdle ≤ now - q.time := by
        simpa [Option.isSome_iff_ne_none.mp (hl q hq)] using hq'
      obtain ⟨item, ht, -⟩ := taken_of_old (hl q hq) hold
      rwa [if_neg (List.ne_nil_of_mem (List.mem_filterMap.mpr ⟨q, hq, ht⟩))]

-- A claim goes past `count` items at least, and past ten times as many if it takes over none of them,
-- or comes to the end.
theorem distance_claim {log : MessageLog φ} (hl : ∀ p ∈ group.pending, (log.get p.id).isSome)
    (consumer : ν) {minIdle : τ} (count start : Nat) {now : τ} {p : Handout ν τ}
    (hp : p ∈ group.pending) (hold : minIdle ≤ now - p.time) :
    let claim := group.claim log consumer minIdle count start now
    (∃ item ∈ claim.2.1, item.id = p.id) ∨ claim.1.distance count claim.2.2 p.id +
      (if claim.2.1 = [] ∧ p.id < claim.2.2 then 10 * count else count) ≤
        group.distance count start p.id := by
  obtain ⟨seen, rest, hs, he, hstop⟩ := sweep_eq log consumer minIdle now (10 * count) count
    (group.pending.filter (start ≤ ·.id))
  have hsplit := group.pending_split start
  rw [hs] at hsplit
  intro claim
  have hids := (group.claimed log consumer minIdle count start now).ids hl
  have hitems : claim.2.1 = seen.filterMap (taken log minIdle now) := by
    simp only [claim, ConsumerGroup.claim, he]
  have hcursor : claim.2.2 = rest.head?.elim 0 (·.id) := by
    simp only [claim, ConsumerGroup.claim, he]
  rw [distance_congr hids, hitems, hcursor]
  have hlseen : ∀ q ∈ seen, (log.get q.id).isSome := fun q hq => hl q <| hsplit ▸ by simp [hq]
  have htaken (hm : p ∈ seen) : ∃ item ∈ seen.filterMap (taken log minIdle now), item.id = p.id := by
    obtain ⟨item, ht, hid⟩ := taken_of_old (hlseen p hm) hold
    exact ⟨item, List.mem_filterMap.mpr ⟨p, hm, ht⟩, hid⟩
  have hfrom : ∀ q ∈ seen ++ rest, start ≤ q.id := by
    rw [← hs]
    simp
  cases rest
  case nil =>
    by_cases hle : start ≤ p.id
    case pos =>
      have hm : p ∈ seen ++ [] := hs ▸ List.mem_filter.mpr ⟨hp, by simpa using hle⟩
      exact .inl <| htaken (by simpa using hm)
    case neg =>
      refine .inr ?_
      simp only [List.head?_nil, Option.elim_none, distance, Nat.zero_le, if_true, true_and, hle,
        if_false, Nat.not_lt_zero, and_false]
      omega
  case cons r rest =>
    have hlen := sweep_length hlseen (hstop.resolve_left (List.cons_ne_nil r rest))
    have hpairs := group.pending_increasing.filter (start ≤ ·.id)
    rw [hs] at hpairs
    obtain ⟨-, hrest, hbefore⟩ := List.pairwise_append.mp hpairs
    have hstart : start ≤ r.id := hfrom r (by simp)
    have hseen : seen.length ≤ group.pending.countP fun q => start ≤ q.id ∧ q.id < r.id := by
      have hall : seen.countP (fun q => start ≤ q.id ∧ q.id < r.id) = seen.length := by
        simp only [List.countP_eq_length, decide_eq_true_eq]
        exact fun q hq => ⟨hfrom q (by simp [hq]), hbefore q hq r (by simp)⟩
      refine hall ▸ List.Sublist.countP_le ?_
      exact (hs ▸ List.sublist_append_left ..).trans List.filter_sublist
    simp only [List.head?_cons, Option.elim_some]
    by_cases hle : start ≤ p.id
    case pos =>
      have hm : p ∈ seen ++ r :: rest := hs ▸ List.mem_filter.mpr ⟨hp, by simpa using hle⟩
      obtain hm | hm := List.mem_append.mp hm
      · exact .inl <| htaken hm
      · have hr : r.id ≤ p.id := by
          obtain rfl | hm := List.mem_cons.mp hm
          · rfl
          · exact (List.rel_of_pairwise_cons hrest hm).le
        have hc₁ := group.countP_between hstart hr
        simp only [distance, hr, hle, if_true, not_lt.mpr hr, and_false, if_false]
        split at hlen <;> omega
    case neg =>
      have hr : ¬r.id ≤ p.id := fun h => hle (hstart.trans h)
      have hc₁ := group.countP_from hstart
      simp only [distance, hr, hle, if_false, not_le.mp hr, and_true]
      omega

end Distance
end ConsumerGroup
