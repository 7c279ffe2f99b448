import MarTech.Library.Simulation
import MarTech.Pipeline.Queue

namespace MarTech

open RedisStreamsQueue

namespace Cluster

-- Each turn is a command to the server, or none.
theorem turn_redis (settings : QueueSettings) (cluster : Cluster) (t : ClusterTurn) :
    ∃ commands, (cluster.turn settings t).redis =
      cluster.redis.run settings.workerClaimIdleMs commands ∧ (.lose ∈ commands → t = .lose) := by
  cases t
  case enqueue customerId payload => exact ⟨[.add ⟨customerId, payload⟩], rfl, by simp⟩
  case ensureGroup                => exact ⟨[.create], rfl, by simp⟩
  case crash                      => exact ⟨[], rfl, by simp⟩
  case lose                       => exact ⟨[.lose], rfl, fun _ => rfl⟩
  case autoclaim name now =>
    refine ⟨[.claim name settings.workerBatchSize (cluster.queues name).claimCursor now], ?_, by simp⟩
    simp only [turn, work, RedisStreamsQueue.autoclaim]
    split <;> simp_all [Broker.run, Broker.exec]
  case readgroup name now =>
    simp only [turn, work, RedisStreamsQueue.readgroup]
    split
    case isTrue =>
      refine ⟨[.read name settings.workerBatchSize now], ?_, by simp⟩
      split <;> simp_all [Broker.run, Broker.exec]
    case isFalse => exact ⟨[], rfl, by simp⟩
  case ack name messageId =>
    simp only [turn, work, RedisStreamsQueue.ack]
    split
    case isTrue  => exact ⟨[.ack messageId], rfl, by simp⟩
    case isFalse => exact ⟨[], rfl, by simp⟩

theorem simulates_redis (settings : QueueSettings) :
    Simulates (turn settings) (Broker.exec · settings.workerClaimIdleMs ·)
      (·.redis) fun t command => command = .lose → t = .lose where
  step cluster t := by
    obtain ⟨commands, hc, hl⟩ := cluster.turn_redis settings t
    exact ⟨commands, hc, fun command hm he => hl (he ▸ hm)⟩

-- A run is a list of commands to the server.
theorem run_redis (settings : QueueSettings) (cluster : Cluster) (turns : List ClusterTurn) :
    ∃ commands, (cluster.run settings turns).redis =
      cluster.redis.run settings.workerClaimIdleMs commands ∧ (.lose ∈ commands → .lose ∈ turns) := by
  obtain ⟨commands, hc, hl⟩ := (simulates_redis settings).run cluster turns
  refine ⟨commands, hc, fun hm => ?_⟩
  obtain ⟨t, ht, hlose⟩ := hl _ hm
  exact hlose rfl ▸ ht

theorem run_extends (settings : QueueSettings) (cluster : Cluster) (turns : List ClusterTurn) :
    cluster.redis.Extends (cluster.run settings turns).redis := by
  obtain ⟨commands, hc, -⟩ := cluster.run_redis settings turns
  exact hc ▸ Broker.run_extends _ _ commands

section Steps

variable {settings : QueueSettings} {cluster : Cluster}

-- Handing messages out leaves the stream as it is.
theorem autoclaim_log (name : String) (now : Int) :
    (cluster.turn settings (.autoclaim name now)).redis.log = cluster.redis.log := by
  simp only [turn, work]
  cases hg : cluster.redis.group
  case none       => rw [RedisStreamsQueue.autoclaim_of_none hg]
  case some group => rw [RedisStreamsQueue.autoclaim_of_some hg]; rfl

theorem readgroup_log (name : String) (now : Int) :
    (cluster.turn settings (.readgroup name now)).redis.log = cluster.redis.log := by
  simp only [turn, work]
  cases hr : (cluster.queues name).reading
  case false => rw [RedisStreamsQueue.readgroup_of_not_reading hr]
  case true =>
    cases hg : cluster.redis.group
    case none       => rw [RedisStreamsQueue.readgroup_of_none hg hr]
    case some group => rw [RedisStreamsQueue.readgroup_of_some hg hr]; rfl

variable (settings) in
-- What is in a worker's batch has been there before, or has been read from the log.
theorem turn_batch (t : ClusterTurn) (name : String) {item : LogItem StreamFields}
    (hm : item ∈ ((cluster.turn settings t).queues name).batch) :
    item ∈ (cluster.queues name).batch ∨ item ∈ cluster.redis.log.items := by
  have hwork {name' : String} {step : RedisStreamsQueue → RedisStream → RedisStream × RedisStreamsQueue}
      (hm : item ∈ ((cluster.work name' step).queues name).batch)
      (hs : ∀ item ∈ (step (cluster.queues name') cluster.redis).2.batch,
        item ∈ (cluster.queues name').batch ∨ item ∈ cluster.redis.log.items) :
      item ∈ (cluster.queues name).batch ∨ item ∈ cluster.redis.log.items := by
    by_cases he : name = name'
    case pos =>
      subst he
      exact hs item (by simpa [work] using hm)
    case neg => exact .inl (by simpa [work, he] using hm)
  cases t
  case enqueue | ensureGroup | lose => exact .inl hm
  case crash name' =>
    by_cases he : name = name'
    case pos => simp [turn, he] at hm
    case neg => exact .inl (by simpa [turn, he] using hm)
  case autoclaim name' now =>
    rw [turn] at hm
    refine hwork hm fun item hm => ?_
    cases hg : cluster.redis.group
    case none       => simp [RedisStreamsQueue.autoclaim_of_none hg] at hm
    case some group =>
      rw [RedisStreamsQueue.autoclaim_of_some hg] at hm
      exact .inr ((group.claimed ..).idle item hm).left
  case readgroup name' now =>
    rw [turn] at hm
    refine hwork hm fun item hm => ?_
    cases hr : (cluster.queues name').reading
    case false =>
      rw [RedisStreamsQueue.readgroup_of_not_reading hr] at hm
      exact .inl hm
    case true =>
      cases hg : cluster.redis.group
      case none       => simp [RedisStreamsQueue.readgroup_of_none hg hr] at hm
      case some group =>
        rw [RedisStreamsQueue.readgroup_of_some hg hr] at hm
        exact .inr (ConsumerGroup.mem_unread.mp (List.mem_of_mem_take hm)).left
  case ack name' messageId =>
    rw [turn] at hm
    refine hwork hm fun item hm => ?_
    simp only [RedisStreamsQueue.ack] at hm
    split at hm
    case isTrue  => exact .inl (List.mem_filter.mp hm).left
    case isFalse => exact .inl hm

end Steps

-- The server is sound, and whoever has a message in the batch was handed it.
structure Sound (settings : QueueSettings) (cluster : Cluster) : Prop where
  redis : cluster.redis.Sound settings.workerClaimIdleMs
  batch : ∀ name, ∀ item ∈ (cluster.queues name).batch,
    ∃ h ∈ cluster.redis.handouts, h.id = item.id ∧ h.consumer = name
  acked : ∀ id ∈ cluster.redis.acked, ∃ h ∈ cluster.redis.handouts, h.id = id

namespace Sound

variable {settings : QueueSettings} {cluster : Cluster}

theorem start : Sound settings start where
  redis       := .empty
  batch _ _ h := by cases h
  acked _ h   := by cases h

variable {name : String}
         {step : RedisStreamsQueue → RedisStream → RedisStream × RedisStreamsQueue}
         {queue : RedisStreamsQueue}

-- A step of one worker is sound if what it has in the batch afterwards was handed to it, and if it
-- acknowledges nothing but what it had there.
theorem work (h : Sound settings cluster)
    (hredis : (cluster.work name step).redis.Sound settings.workerClaimIdleMs)
    (hkept : ∀ handout ∈ cluster.redis.handouts, handout ∈ (cluster.work name step).redis.handouts)
    (hbatch : ∀ item ∈ (step (cluster.queues name) cluster.redis).2.batch,
      ∃ h ∈ (cluster.work name step).redis.handouts, h.id = item.id ∧ h.consumer = name)
    (hacked : ∀ id ∈ (cluster.work name step).redis.acked, id ∈ cluster.redis.acked ∨
      id ∈ (cluster.queues name).batch.map (·.id)) :
    Sound settings (cluster.work name step) where
  redis := hredis
  batch name' item hm := by
    by_cases he : name' = name
    case pos =>
      subst he
      simp only [Cluster.work, Function.update_self] at hm
      exact hbatch item hm
    case neg =>
      simp only [Cluster.work, Function.update_of_ne he] at hm
      obtain ⟨handout, hh, hid⟩ := h.batch name' item hm
      exact ⟨handout, hkept handout hh, hid⟩
  acked id hm := by
    obtain hm | hm := hacked id hm
    · obtain ⟨handout, hh, hid⟩ := h.acked id hm
      exact ⟨handout, hkept handout hh, hid⟩
    · obtain ⟨item, hitem, rfl⟩ := List.mem_map.mp hm
      obtain ⟨handout, hh, hid, -⟩ := h.batch name item hitem
      exact ⟨handout, hkept handout hh, hid⟩

-- The worker is handed its next batch.
theorem served (h : Sound settings cluster) {now : Int} {group : ConsumerGroup String Int}
    {items : List (LogItem StreamFields)} (hs : step (cluster.queues name) cluster.redis =
      (cluster.redis.handOut name now group items, queue)) (hb : queue.batch = items)
    (hredis : (cluster.work name step).redis.Sound settings.workerClaimIdleMs) :
    Sound settings (cluster.work name step) := by
  have hr : (cluster.work name step).redis = cluster.redis.handOut name now group items := by
    rw [Cluster.work, hs]
  refine h.work hredis (fun handout hm => ?_) (fun item hm => ?_) fun id hm => ?_
  · rw [hr]
    exact List.mem_append_left _ hm
  · rw [hs, hb] at hm
    refine ⟨ConsumerGroup.handout name now item, ?_, rfl, rfl⟩
    rw [hr]
    exact List.mem_append_right _ (List.mem_map_of_mem hm)
  · rw [hr] at hm
    exact .inl hm

-- The worker leaves the server alone, and has at most what it had.
theorem unserved (h : Sound settings cluster) (hb : queue.batch ⊆ (cluster.queues name).batch)
    (hs : step (cluster.queues name) cluster.redis = (cluster.redis, queue)) :
    Sound settings (cluster.work name step) := by
  have hr : (cluster.work name step).redis = cluster.redis := by rw [Cluster.work, hs]
  refine h.work (hr ▸ h.redis) (fun handout hm => hr ▸ hm) (fun item hm => ?_)
    fun id hm => .inl (hr ▸ hm)
  rw [hs] at hm
  exact hr ▸ h.batch name item (hb hm)

-- The worker acknowledges a message of its batch.
theorem acknowledged (h : Sound settings cluster) {messageId : MessageId}
    (hm : messageId ∈ (cluster.queues name).batch.map (·.id))
    (hs : step (cluster.queues name) cluster.redis = (cluster.redis.ack messageId,
      { cluster.queues name with batch := (cluster.queues name).batch.filter (·.id ≠ messageId) }))
    (hredis : (cluster.work name step).redis.Sound settings.workerClaimIdleMs) :
    Sound settings (cluster.work name step) := by
  have hr : (cluster.work name step).redis = cluster.redis.ack messageId := by rw [Cluster.work, hs]
  refine h.work hredis (fun handout hh => hr ▸ hh) (fun item hitem => ?_) fun id hid => ?_
  · rw [hs] at hitem
    rw [hr]
    exact h.batch name item (List.mem_filter.mp hitem).left
  · rw [hr] at hid
    obtain hid | hid := List.mem_append.mp hid
    · exact .inl hid
    · exact .inr (List.mem_singleton.mp hid ▸ hm)

theorem turn (h : Sound settings cluster) (t : ClusterTurn) :
    Sound settings (cluster.turn settings t) := by
  obtain ⟨commands, hc, -⟩ := cluster.turn_redis settings t
  have hredis : (cluster.turn settings t).redis.Sound settings.workerClaimIdleMs :=
    hc ▸ h.redis.run (by linarith [settings.workerClaimIdleMs_bound]) commands
  cases t <;> simp only [Cluster.turn] at hredis ⊢
  case enqueue | lose => exact ⟨hredis, h.batch, h.acked⟩
  case ensureGroup    => exact ⟨hredis, h.batch, h.acked⟩
  case crash name =>
    refine ⟨hredis, fun name' item hm => ?_, h.acked⟩
    by_cases he : name' = name
    case pos => simp [he] at hm
    case neg => exact h.batch name' item (by simpa [he] using hm)
  case autoclaim name now =>
    cases hg : cluster.redis.group
    case none   => exact h.unserved (List.nil_subset _) (autoclaim_of_none hg)
    case some _ => exact h.served (autoclaim_of_some hg) rfl hredis
  case readgroup name now =>
    cases hr : (cluster.queues name).reading
    case false => exact h.unserved (List.Subset.refl _) (readgroup_of_not_reading hr)
    case true =>
      cases hg : cluster.redis.group
      case none   => exact h.unserved (List.nil_subset _) (readgroup_of_none hg hr)
      case some _ => exact h.served (readgroup_of_some hg hr) rfl hredis
  case ack name messageId =>
    by_cases hm : messageId ∈ (cluster.queues name).batch.map (·.id)
    case neg => exact h.unserved (List.Subset.refl _) (if_neg hm)
    case pos => exact h.acknowledged hm (if_pos hm) hredis

theorem run (h : Sound settings cluster) (turns : List ClusterTurn) :
    Sound settings (cluster.run settings turns) := by
  induction turns generalizing cluster
  case nil         => exact h
  case cons t _ hi => exact hi (h.turn t)

end Sound

section Waiting

variable (settings : QueueSettings) (name : String)

-- How much the worker still has to go past before it comes to a pending message.
def waiting (cluster : Cluster) (group : ConsumerGroup String Int) (id : MessageId) : Nat :=
  group.distance settings.workerBatchSize (cluster.queues name).claimCursor id +
    if (cluster.queues name).reading ∧ id < (cluster.queues name).claimCursor then
      settings.workerBatchSize
    else
      0

-- The message has been handed out again or acknowledged, or the worker has come closer to it: by
-- a batch for each of its polls, less what others were handed meanwhile.
inductive Nearer (cluster : Cluster) (p : Handout String Int) (distance polls : Nat) :
    Cluster → Prop
  | acked {cluster'} (h : p.id ∈ cluster'.redis.acked) : Nearer cluster p distance polls cluster'
  | handed {cluster'} (new : List (Handout String Int))
    (hn : cluster'.redis.handouts = cluster.redis.handouts ++ new) (h : ∃ h ∈ new, h.id = p.id) :
    Nearer cluster p distance polls cluster'
  | pending {cluster'} (new : List (Handout String Int)) (group : ConsumerGroup String Int)
    (hn : cluster'.redis.handouts = cluster.redis.handouts ++ new)
    (hg : cluster'.redis.group = some group) (hp : p ∈ group.pending)
    (hd : cluster'.waiting settings name group p.id + settings.workerBatchSize * polls ≤
      distance + new.countP (·.consumer ≠ name)) : Nearer cluster p distance polls cluster'

variable {settings name} {cluster : Cluster} {group : ConsumerGroup String Int}
         {p : Handout String Int}

theorem waiting_congr {cluster' : Cluster} {group' : ConsumerGroup String Int}
    (hq : cluster'.queues name = cluster.queues name)
    (hi : group'.pending.map (·.id) = group.pending.map (·.id)) (id : MessageId) :
    cluster'.waiting settings name group' id = cluster.waiting settings name group id := by
  rw [waiting, waiting, hq, ConsumerGroup.distance_congr hi]

-- Nothing has happened to the message, and the worker is where it was.
theorem Nearer.unmoved {cluster' : Cluster} (hg : cluster.redis.group = some group)
    (hp : p ∈ group.pending) (hr : cluster'.redis.handouts = cluster.redis.handouts)
    (hg' : cluster'.redis.group = cluster.redis.group)
    (hw : cluster'.waiting settings name group p.id ≤ cluster.waiting settings name group p.id) :
    Nearer settings name cluster p (cluster.waiting settings name group p.id) 0 cluster' :=
  .pending [] group (by rw [hr, List.append_nil]) (hg'.trans hg) hp (by simpa using hw)

theorem autoclaim_nearer (h : Sound settings cluster) (hg : cluster.redis.group = some group)
    (hp : p ∈ group.pending) (name' : String) {now : Int}
    (hi : name' = name → settings.workerClaimIdleMs ≤ now - p.time) :
    Nearer settings name cluster p (cluster.waiting settings name group p.id)
      (if name' = name then 1 else 0) (cluster.turn settings (.autoclaim name' now)) := by
  have hget := h.redis.get_isSome hg
  have hc := group.claimed cluster.redis.log name' settings.workerClaimIdleMs
    settings.workerBatchSize (cluster.queues name').claimCursor now
  have hd := fun hi : settings.workerClaimIdleMs ≤ now - p.time =>
    group.distance_claim hget name' settings.workerBatchSize
    (cluster.queues name').claimCursor hp hi
  have hs : (cluster.queues name').autoclaim settings cluster.redis name' now = _ :=
    autoclaim_of_some hg
  simp only [turn, work] at hs hd ⊢
  rw [hs]
  obtain ⟨item, hm, hid⟩ | hp' := (hc.kept hget hp).symm
  · exact .handed _ rfl ⟨_, List.mem_map_of_mem hm, hid⟩
  by_cases he : name' = name
  case neg =>
    refine .pending _ _ rfl rfl hp' ?_
    rw [if_neg he, waiting_congr (Function.update_of_ne (Ne.symm he) ..) (hc.ids hget)]
    exact Nat.le_add_right ..
  case pos =>
    subst he
    obtain ⟨item, hm, hid⟩ | hd := hd (hi rfl)
    · exact .handed _ rfl ⟨_, List.mem_map_of_mem hm, hid⟩
    · refine .pending _ _ rfl rfl hp' ?_
      simp only [claim, waiting, Function.update_self, List.isEmpty_iff, if_true, Nat.mul_one]
      split_ifs at hd ⊢ <;> omega

theorem readgroup_nearer (hg : cluster.redis.group = some group) (hp : p ∈ group.pending)
    (name' : String) (now : Int) :
    Nearer settings name cluster p (cluster.waiting settings name group p.id) 0
      (cluster.turn settings (.readgroup name' now)) := by
  have hd := group.distance_read cluster.redis.log name' settings.workerBatchSize now
    settings.workerBatchSize (cluster.queues name).claimCursor hp
  have hcount : (group.read cluster.redis.log name' settings.workerBatchSize now).2.length ≤
      settings.workerBatchSize :=
    List.length_take_le ..
  simp only [turn, work]
  cases hr : (cluster.queues name').reading
  case false =>
    rw [readgroup_of_not_reading hr]
    refine .unmoved hg hp rfl rfl <| le_of_eq <| waiting_congr ?_ rfl _
    exact congrFun (Function.update_eq_self ..) _
  case true =>
    have hs : (cluster.queues name').readgroup settings cluster.redis name' now = _ :=
      readgroup_of_some hg hr
    rw [hs]
    refine .pending _ _ rfl rfl (List.mem_append_left _ hp) ?_
    by_cases he : name' = name
    case neg =>
      have hnew : ((read settings cluster.redis name' now group).2.map
          (ConsumerGroup.handout name' now)).countP (·.consumer ≠ name) =
            (read settings cluster.redis name' now group).2.length := by
        rw [List.countP_eq_length.mpr ?_, List.length_map]
        simpa [ConsumerGroup.handout] using fun _ _ => he
      rw [hnew]
      simp only [RedisStreamsQueue.read, waiting, Function.update_of_ne (Ne.symm he), Nat.mul_zero,
        Nat.add_zero]
      split_ifs at hd ⊢ <;> omega
    case pos =>
      subst he
      simp only [RedisStreamsQueue.read, waiting, Function.update_self, hr, true_and,
        Bool.false_eq_true, false_and, if_false, Nat.mul_zero, Nat.add_zero]
      by_cases hle : (cluster.queues name').claimCursor ≤ p.id
      case pos =>
        rw [if_pos hle] at hd
        omega
      case neg =>
        rw [if_neg hle] at hd
        rw [if_pos (not_le.mp hle)]
        omega

theorem ack_nearer (hg : cluster.redis.group = some group) (hp : p ∈ group.pending)
    (name' : String) (messageId : MessageId) :
    Nearer settings name cluster p (cluster.waiting settings name group p.id) 0
      (cluster.turn settings (.ack name' messageId)) := by
  have hq : ∀ queue : RedisStreamsQueue,
      queue.claimCursor = (cluster.queues name').claimCursor →
      queue.reading = (cluster.queues name').reading →
      (Function.update cluster.queues name' queue name).claimCursor =
          (cluster.queues name).claimCursor ∧
        (Function.update cluster.queues name' queue name).reading =
          (cluster.queues name).reading := by
    intro queue hcursor hreading
    by_cases he : name = name'
    case pos => simp [he, hcursor, hreading]
    case neg => simp [he]
  simp only [turn, work, RedisStreamsQueue.ack]
  split
  case isFalse =>
    refine .unmoved hg hp rfl rfl <| le_of_eq <| waiting_congr ?_ rfl _
    exact congrFun (Function.update_eq_self ..) _
  case isTrue =>
    by_cases hid : p.id = messageId
    case pos => exact .acked <| List.mem_append_right _ (by simp [hid])
    case neg =>
      refine .pending [] (group.ack messageId) (List.append_nil _).symm ?_
        (List.mem_filter.mpr ⟨hp, by simpa using hid⟩) ?_
      · exact Option.map_eq_some_iff.mpr ⟨group, hg, rfl⟩
      · have hd := group.distance_ack settings.workerBatchSize
          (cluster.queues name).claimCursor p.id messageId
        obtain ⟨hcursor, hreading⟩ := hq { cluster.queues name' with
          batch := (cluster.queues name').batch.filter (·.id ≠ messageId) } rfl rfl
        simp only [waiting, hcursor, hreading]
        simpa using hd

theorem turn_nearer (h : Sound settings cluster) (hg : cluster.redis.group = some group)
    (hp : p ∈ group.pending) {t : ClusterTurn} (hl : t ≠ .lose) (hc : t ≠ .crash name)
    (hi : ∀ now, t = .autoclaim name now → settings.workerClaimIdleMs ≤ now - p.time) :
    Nearer settings name cluster p (cluster.waiting settings name group p.id)
      (if t.polls name then 1 else 0) (cluster.turn settings t) := by
  cases t
  case lose => exact absurd rfl hl
  case enqueue customerId payload =>
    exact .unmoved hg hp rfl rfl (le_refl _)
  case ensureGroup =>
    refine .unmoved hg hp rfl ?_ (le_refl _)
    simp [turn, RedisStreamsQueue.ensureGroup, Broker.create, hg]
  case crash name' =>
    refine .unmoved hg hp rfl rfl <| le_of_eq <| waiting_congr ?_ rfl _
    exact Function.update_of_ne (fun he => hc <| congrArg ClusterTurn.crash he.symm) ..
  case autoclaim name' now =>
    simpa [ClusterTurn.polls] using autoclaim_nearer h hg hp name' fun he => hi now (he ▸ rfl)
  case readgroup name' now   => exact readgroup_nearer hg hp name' now
  case ack name' messageId   => exact ack_nearer hg hp name' messageId

theorem run_nearer (h : Sound settings cluster) (hg : cluster.redis.group = some group)
    (hp : p ∈ group.pending) {turns : List ClusterTurn} (hl : .lose ∉ turns)
    (hc : .crash name ∉ turns)
    (hi : ∀ now, .autoclaim name now ∈ turns → settings.workerClaimIdleMs ≤ now - p.time) :
    Nearer settings name cluster p (cluster.waiting settings name group p.id)
      (turns.countP (·.polls name)) (cluster.run settings turns) := by
  induction turns generalizing cluster group
  case nil => exact .unmoved hg hp rfl rfl (le_refl _)
  case cons t turns hrun =>
    obtain ⟨new', hnew'⟩ := (run_extends settings (cluster.turn settings t) turns).handouts
    have ht := turn_nearer h hg hp (List.ne_of_not_mem_cons hl).symm
      (List.ne_of_not_mem_cons hc).symm fun now he => hi now (he ▸ List.mem_cons_self ..)
    cases ht
    case acked ha => exact .acked <| (run_extends settings _ turns).acked ha
    case handed new hn hm =>
      obtain ⟨handout, hm, hid⟩ := hm
      refine .handed (new ++ new') ?_ ⟨handout, List.mem_append_left _ hm, hid⟩
      rw [← List.append_assoc, ← hn]
      exact hnew'.symm
    case pending new group' hn hg' hp' hd =>
      have hrest := hrun (h.turn t) hg' hp' (List.not_mem_of_not_mem_cons hl)
        (List.not_mem_of_not_mem_cons hc) fun now hm => hi now (List.mem_cons_of_mem _ hm)
      cases hrest
      case acked ha => exact .acked ha
      case handed new₂ hn₂ hm =>
        obtain ⟨handout, hm, hid⟩ := hm
        refine .handed (new ++ new₂) ?_ ⟨handout, List.mem_append_right _ hm, hid⟩
        rw [← List.append_assoc, ← hn]
        exact hn₂
      case pending new₂ group₂ hn₂ hg₂ hp₂ hd₂ =>
        refine .pending (new ++ new₂) group₂ ?_ hg₂ hp₂ ?_
        · rw [← List.append_assoc, ← hn]
          exact hn₂
        · have hpolls : (t :: turns).countP (·.polls name) =
              turns.countP (·.polls name) + if t.polls name then 1 else 0 :=
            List.countP_cons
          have hlast : (cluster.run settings (t :: turns)).waiting settings name group₂ p.id =
              ((cluster.turn settings t).run settings turns).waiting settings name group₂ p.id :=
            rfl
          rw [List.countP_append, hpolls, Nat.mul_add, hlast]
          omega

theorem waiting_le (settings : QueueSettings) (name : String) (cluster : Cluster)
    (group : ConsumerGroup String Int) (id : MessageId) :
    cluster.waiting settings name group id ≤
      group.pending.length + 2 * settings.workerBatchSize := by
  have hd := group.distance_le settings.workerBatchSize (cluster.queues name).claimCursor id
  unfold waiting
  split <;> omega

end Waiting

variable (settings : QueueSettings)

-- Delivery is at least once: a message stays in the stream as it was published, waiting to be read or
-- pending, until it is acknowledged by somebody to whom it was handed out.
theorem published_kept (before after : List ClusterTurn) (customerId : Json) (payload : Json.Object)
    (h : .lose ∉ after) :
    let messageId := (enqueue (start.run settings before).redis customerId payload).2
    let redis := (start.run settings (before ++ .enqueue customerId payload :: after)).redis
    ⟨messageId, ⟨customerId, payload⟩⟩ ∈ redis.log.items ∧ (∀ group ∈ redis.group,
        group.next ≤ messageId ∨ ∃ p ∈ group.pending, p.id = messageId) ∨
      messageId ∈ redis.acked ∧ ∃ h ∈ redis.handouts, h.id = messageId := by
  intro messageId redis
  let item : LogItem StreamFields := ⟨messageId, ⟨customerId, payload⟩⟩
  have hsound : Sound settings (start.run settings (before ++ .enqueue customerId payload :: after)) :=
    Sound.start.run _
  have hitem : item ∈ redis.log.items ∨ item.id ∈ redis.acked := by
    let published := (start.run settings before).turn settings (.enqueue customerId payload)
    obtain ⟨commands, hc, hl⟩ := published.run_redis settings after
    have hr : redis = published.redis.run settings.workerClaimIdleMs commands := by
      rw [← hc]
      simp only [redis, run, List.foldl_append, List.foldl_cons, published]
    rw [hr]
    refine Broker.run_items _ _ (.inl ?_) fun hm => h (hl hm)
    exact List.mem_append_right _ (List.mem_singleton_self _)
  obtain hm | ha := hitem
  · refine .inl ⟨hm, fun group hg => ?_⟩
    by_cases hn : group.next ≤ messageId
    case pos => exact .inl hn
    case neg =>
      have hid : messageId ∈ group.pending.map (·.id) := by
        rw [hsound.redis.pending group hg]
        exact List.mem_map.mpr ⟨item, List.mem_filter.mpr ⟨hm, by simpa using hn⟩, rfl⟩
      exact .inr (List.mem_map.mp hid)
  · exact .inr ⟨ha, hsound.acked _ ha⟩

-- The message is handed out and acknowledged, and this is what is left of it.
theorem published_kept_claimed :
    let redis := (start.run {} [.enqueue .null [], .ensureGroup, .autoclaim "a" 0, .readgroup "a" 0,
      .ack "a" 0]).redis
    0 ∈ redis.acked ∧ ∃ h ∈ redis.handouts, h.id = 0 := by
  intro redis
  have hlog : redis.log.items = [] := rfl
  have hkept := published_kept {} [] [.ensureGroup, .autoclaim "a" 0, .readgroup "a" 0, .ack "a" 0]
    .null [] (by simp)
  refine hkept.resolve_left fun ⟨hm, _⟩ => ?_
  exact absurd (hlog ▸ hm) List.not_mem_nil

-- Whatever the workers do, a message that one of them was handed is handed to nobody else before the
-- idle time is over, and messages are handed out for the first time in the order of publication.
theorem handouts_spaced (turns : List ClusterTurn) :
    let handouts := (start.run settings turns).redis.handouts
    handouts.Pairwise (fun h h' => h.id = h'.id → settings.workerClaimIdleMs + h.time ≤ h'.time) ∧
      ∀ earlier h later, handouts = earlier ++ h :: later →
        (∃ h' ∈ earlier, h'.id = h.id) ∨ ∀ h' ∈ earlier, h'.id < h.id :=
  have h : Sound settings (start.run settings turns) := Sound.start.run turns
  ⟨h.redis.spaced, h.redis.inOrder⟩

-- A message of a worker that has died comes to another one: if its polls are enough for what was
-- pending, for one way round and for what others were handed meanwhile, then the message has been
-- handed out again or acknowledged.
theorem taken_over (before after : List ClusterTurn) (name : String)
    {group : ConsumerGroup String Int} (hg : (start.run settings before).redis.group = some group)
    {p : Handout String Int} (hp : p ∈ group.pending) (hl : .lose ∉ after) (hc : .crash name ∉ after)
    (hi : ∀ now, .autoclaim name now ∈ after → settings.workerClaimIdleMs ≤ now - p.time)
    (hpolls : group.pending.length + 2 * settings.workerBatchSize +
      ((start.run settings before).handedOut settings after).countP (·.consumer ≠ name) <
        settings.workerBatchSize * after.countP (·.polls name)) :
    (∃ h ∈ (start.run settings before).handedOut settings after, h.id = p.id) ∨
      p.id ∈ (start.run settings (before ++ after)).redis.acked := by
  have hrun : start.run settings (before ++ after) = (start.run settings before).run settings after :=
    List.foldl_append
  have hnearer := run_nearer (Sound.start.run before) hg hp hl hc hi
  rw [hrun]
  cases hnearer
  case acked ha => exact .inr ha
  case handed new hn hm =>
    rw [handedOut, hn, List.drop_left]
    exact .inl hm
  case pending new group' hn hg' hp' hd =>
    rw [handedOut, hn, List.drop_left] at hpolls
    have hle := waiting_le settings name (start.run settings before) group p.id
    omega

theorem taken_over_crashed :
    let before := [ClusterTurn.enqueue .null [], .ensureGroup, .autoclaim "a" 0, .readgroup "a" 0]
    let after := ClusterTurn.crash "a" :: List.replicate 4 (.autoclaim "b" 60000)
    (∃ h ∈ (start.run { workerBatchSize := 1 } before).handedOut { workerBatchSize := 1 } after,
      h.id = 0) ∨ 0 ∈ (start.run { workerBatchSize := 1 } (before ++ after)).redis.acked :=
  taken_over { workerBatchSize := 1 } _ _ "b" rfl (p := ⟨0, "a", 0⟩) (List.mem_singleton_self _)
    (by simp) (by simp) (by simp) (by decide)

end Cluster
end MarTech
