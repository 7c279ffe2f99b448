import MarTech.Api.Health
import MarTech.Pipeline.Theorems.Queue

namespace MarTech

section Heartbeats

variable {settings : HealthSettings}

-- The last that was heard of a consumer is a heartbeat, at the time `t`.
def LastBeat (pulses : List HeartbeatTurn) (consumerName : String) (t : Int) : Prop :=
  ∃ earlier later, pulses = earlier ++ .beat consumerName t :: later ∧ .lose ∉ later ∧
    .delete consumerName ∉ later ∧ ∀ t', .beat consumerName t' ∉ later

theorem LastBeat.concat {pulses : List HeartbeatTurn} {pulse : HeartbeatTurn} {consumerName : String}
    {t : Int} :
    LastBeat (pulses ++ [pulse]) consumerName t ↔ pulse = .beat consumerName t ∨
      LastBeat pulses consumerName t ∧ pulse ≠ .lose ∧ pulse ≠ .delete consumerName ∧
        ∀ t', pulse ≠ .beat consumerName t' := by
  constructor
  case mp =>
    rintro ⟨earlier, later, he, hl, hd, hb⟩
    cases later using List.reverseRecOn
    case nil =>
      obtain ⟨-, hp⟩ := List.append_inj' he rfl
      exact .inl (List.singleton_inj.mp hp)
    case append_singleton later last _ =>
      rw [← List.cons_append, ← List.append_assoc] at he
      obtain ⟨rfl, hp⟩ := List.append_inj' he rfl
      obtain rfl := List.singleton_inj.mp hp
      refine .inr ⟨⟨earlier, later, rfl, ?_, ?_, fun t' hm => ?_⟩, ?_, ?_, fun t' hp => ?_⟩
      · exact fun hm => hl (List.mem_append_left _ hm)
      · exact fun hm => hd (List.mem_append_left _ hm)
      · exact hb t' (List.mem_append_left _ hm)
      · exact fun hp => hl (by simp [hp])
      · exact fun hp => hd (by simp [hp])
      · exact hb t' (by simp [hp])
  case mpr =>
    rintro (rfl | ⟨⟨earlier, later, rfl, hl, hd, hb⟩, hl', hd', hb'⟩)
    · exact ⟨pulses, [], rfl, by simp, by simp, by simp⟩
    · refine ⟨earlier, later ++ [pulse], by simp, ?_, ?_, fun t' => ?_⟩
      · simpa [hl] using hl'.symm
      · simpa [hd] using hd'.symm
      · simpa [hb t'] using (hb' t').symm

-- The keys that are there are those of the last heartbeats.
theorem Heartbeats.mem_run {pulses : List HeartbeatTurn} {consumerName : String} {expires : Int} :
    (consumerName, expires) ∈ run settings pulses ↔
      ∃ t, LastBeat pulses consumerName t ∧ expires = t + settings.workerHeartbeatTtl := by
  induction pulses using List.reverseRecOn
  case nil =>
    simp only [run, List.foldl_nil, List.not_mem_nil, false_iff, not_exists]
    rintro t ⟨⟨earlier, later, he, -⟩, -⟩
    simp at he
  case append_singleton pulses pulse hi =>
    simp only [LastBeat.concat]
    have hrun : run settings (pulses ++ [pulse]) = (run settings pulses).pulse settings pulse := by
      simp [run]
    rw [hrun]
    cases pulse
    case lose => simp [Heartbeats.pulse]
    case delete name =>
      simp only [Heartbeats.pulse, Heartbeats.delete, List.mem_filter, decide_eq_true_eq, hi]
      constructor
      · rintro ⟨⟨t, hb, he⟩, hne⟩
        exact ⟨t, .inr ⟨hb, by simp, by simpa using Ne.symm hne, by simp⟩, he⟩
      · rintro ⟨t, hp | ⟨hb, -, hne, -⟩, he⟩
        · cases hp
        · exact ⟨⟨t, hb, he⟩, by simpa using Ne.symm hne⟩
    case beat name now =>
      simp only [Heartbeats.pulse, Heartbeats.delete, List.mem_append, List.mem_filter,
        decide_eq_true_eq, hi, List.mem_singleton, Prod.mk.injEq]
      constructor
      · rintro (⟨⟨t, hb, he⟩, hne⟩ | ⟨rfl, rfl⟩)
        · refine ⟨t, .inr ⟨hb, by simp, by simp, fun t' hp => ?_⟩, he⟩
          cases hp
          exact hne rfl
        · exact ⟨now, .inl rfl, rfl⟩
      · rintro ⟨t, hp | ⟨hb, -, -, hne⟩, he⟩
        · cases hp
          exact .inr ⟨rfl, he⟩
        · refine .inl ⟨⟨t, hb, he⟩, fun hname => ?_⟩
          exact hne now (by rw [hname])

end Heartbeats

section Health

open HealthOut

variable {R : Type}

namespace HealthOut

variable (out : HealthOut) (probe : HealthProbe R) (settings : HealthSettings)

theorem checkDatabase_frame : (out.checkDatabase probe).status = out.status ∧
    (out.checkDatabase probe).redis = out.redis ∧ (out.checkDatabase probe).worker = out.worker := by
  unfold checkDatabase
  split
  case isTrue  => exact ⟨rfl, rfl, rfl⟩
  case isFalse => split <;> exact ⟨rfl, rfl, rfl⟩

theorem checkDatabase_database : (out.checkDatabase probe).database =
    if probe.databaseFault = none then "ok" else out.database := by
  unfold checkDatabase
  cases h : probe.databaseFault
  case none => simp
  case some fault => cases fault <;> simp

theorem checkQueue_frame : (out.checkQueue probe).status = out.status ∧
    (out.checkQueue probe).database = out.database ∧ (out.checkQueue probe).redis = out.redis ∧
    (out.checkQueue probe).worker = out.worker := by
  unfold checkQueue
  split
  case isTrue => exact ⟨rfl, rfl, rfl, rfl⟩
  case isFalse =>
    split
    case h_1 => exact ⟨rfl, rfl, rfl, rfl⟩
    case h_2 =>
      split
      case h_1 => exact ⟨rfl, rfl, rfl, rfl⟩
      case h_2 => split <;> exact ⟨rfl, rfl, rfl, rfl⟩

theorem checkRedis_frame : (out.checkRedis probe settings).status = out.status ∧
    (out.checkRedis probe settings).database = out.database := by
  unfold checkRedis
  split
  case isTrue => exact ⟨rfl, rfl⟩
  case isFalse =>
    split
    case isTrue => exact ⟨rfl, rfl⟩
    case isFalse =>
      simp only [checkQueue_frame]
      split <;> split <;> exact ⟨rfl, rfl⟩

theorem checkRedis_ok (hr : out.redis = "error") (hw : out.worker = "error") :
    ((out.checkRedis probe settings).redis = "ok" ∧ (out.checkRedis probe settings).worker = "ok") ↔
      probe.redisFault ≠ some .ping ∧ probe.redisFault ≠ some .scan ∧
        probe.heartbeats.anyAlive probe.now ∧ (settings.runEmbeddedWorker → probe.taskRunning) := by
  unfold checkRedis
  split
  case isTrue h => simp [h, hr]
  case isFalse hping =>
    split
    case isTrue h => simp [h, hw]
    case isFalse hscan =>
      simp only [checkQueue_frame, ne_eq, hping, hscan, not_false_eq_true, true_and]
      split
      case isTrue h => simp [h.left, h.right]
      case isFalse h =>
        have hrunning : settings.runEmbeddedWorker → probe.taskRunning := by simpa using h
        split
        case isTrue ha  => simpa [ha] using hrunning
        case isFalse ha => simp [ha, hw]

end HealthOut

variable (settings : HealthSettings)

theorem health_status (probe : HealthProbe R) :
    let (out, code) := health settings probe
    (out.status = "ok" ↔ probe.databaseFault = none ∧
      probe.redisFault ≠ some .ping ∧ probe.redisFault ≠ some .scan ∧
      probe.heartbeats.anyAlive probe.now ∧ (settings.runEmbeddedWorker → probe.taskRunning)) ∧
    code = if out.status = "ok" then 200 else 503 := by
  have hok := checkRedis_ok (({} : HealthOut).checkDatabase probe) probe settings
    (checkDatabase_frame ..).right.left (checkDatabase_frame ..).right.right
  have hdatabase : ((({} : HealthOut).checkDatabase probe).checkRedis probe settings).database =
      if probe.databaseFault = none then "ok" else "error" :=
    (checkRedis_frame ..).right.trans (checkDatabase_database ..)
  have hstatus : ((({} : HealthOut).checkDatabase probe).checkRedis probe settings).status = "ok" :=
    (checkRedis_frame ..).left.trans (checkDatabase_frame ..).left
  simp only [health]
  split
  case isTrue h =>
    have hne : "degraded" ≠ "ok" := by decide
    simp only [hne, if_false, false_iff, and_true]
    rintro ⟨hfault, hrest⟩
    obtain ⟨hr, hw⟩ := hok.mpr hrest
    rw [if_pos hfault] at hdatabase
    simp [hdatabase, hr, hw] at h
  case isFalse h =>
    simp only [not_or, not_not] at h
    obtain ⟨hd, hr, hw⟩ := h
    simp only [hstatus, true_iff]
    refine ⟨⟨?_, hok.mp ⟨hr, hw⟩⟩, trivial⟩
    by_contra hfault
    rw [hd, if_neg hfault] at hdatabase
    exact absurd hdatabase (by decide)

-- The endpoint says that all is well exactly if the database and Redis have answered, some worker's last
-- sign of life is a heartbeat that is no older than its time to live, and the embedded worker, if there
-- is to be one, is running. Otherwise the status code tells.
theorem health_ok_iff (pulses : List HeartbeatTurn) (probe : HealthProbe R) :
    let (out, code) := health settings { probe with heartbeats := .run settings pulses }
    (out.status = "ok" ↔ probe.databaseFault = none ∧
      probe.redisFault ≠ some .ping ∧ probe.redisFault ≠ some .scan ∧
      (∃ name t, LastBeat pulses name t ∧ probe.now ≤ t + settings.workerHeartbeatTtl) ∧
      (settings.runEmbeddedWorker → probe.taskRunning)) ∧
    code = if out.status = "ok" then 200 else 503 := by
  have halive : (Heartbeats.run settings pulses).anyAlive probe.now ↔
      ∃ name t, LastBeat pulses name t ∧ probe.now ≤ t + settings.workerHeartbeatTtl := by
    simp only [Heartbeats.anyAlive, List.any_eq_true, Prod.exists, decide_eq_true_eq,
      Heartbeats.mem_run]
    constructor
    · rintro ⟨name, _, ⟨t, hb, rfl⟩, hlt⟩
      exact ⟨name, t, hb, hlt⟩
    · rintro ⟨name, t, hb, hlt⟩
      exact ⟨name, _, ⟨t, hb, rfl⟩, hlt⟩
  rw [← halive]
  exact health_status settings { probe with heartbeats := .run settings pulses }

end Health

section Figures

variable {settings : QueueSettings} {cluster : Cluster}

namespace Cluster

variable (settings cluster) in
theorem turn_length {t : ClusterTurn} (hl : t ≠ .lose) :
    (cluster.turn settings t).redis.log.items.length ≤
        cluster.redis.log.items.length + (if t.publishes then 1 else 0) ∧
      cluster.redis.log.items.length ≤
        (cluster.turn settings t).redis.log.items.length + (if t.acknowledges then 1 else 0) := by
  cases t
  case lose              => exact absurd rfl hl
  case ensureGroup       => exact ⟨le_refl _, le_refl _⟩
  case crash             => exact ⟨le_refl _, le_refl _⟩
  case autoclaim name now => rw [autoclaim_log]; exact ⟨le_refl _, le_refl _⟩
  case readgroup name now => rw [readgroup_log]; exact ⟨le_refl _, le_refl _⟩
  case enqueue customerId payload =>
    simp [turn, RedisStreamsQueue.enqueue, Broker.add, MessageLog.add, ClusterTurn.publishes,
      ClusterTurn.acknowledges]
  case ack name messageId =>
    simp only [turn, work, RedisStreamsQueue.ack, ClusterTurn.publishes, ClusterTurn.acknowledges]
    split
    case isTrue  => exact cluster.redis.log.delete_length messageId
    case isFalse => exact ⟨le_refl _, Nat.le_succ _⟩

variable (settings cluster) in
-- Between two readings the stream has grown by no more than was published, and shrunk by no more than
-- was acknowledged.
theorem run_length {turns : List ClusterTurn} (hl : .lose ∉ turns) :
    (cluster.run settings turns).redis.log.items.length ≤
        cluster.redis.log.items.length + turns.countP (·.publishes) ∧
      cluster.redis.log.items.length ≤
        (cluster.run settings turns).redis.log.items.length + turns.countP (·.acknowledges) := by
  induction turns generalizing cluster
  case nil => exact ⟨le_refl _, le_refl _⟩
  case cons t turns hi =>
    obtain ⟨hup, hdown⟩ := turn_length settings cluster (List.ne_of_not_mem_cons hl).symm
    obtain ⟨hup', hdown'⟩ := hi (cluster.turn settings t) (List.not_mem_of_not_mem_cons hl)
    have hrun : cluster.run settings (t :: turns) = (cluster.turn settings t).run settings turns := rfl
    rw [hrun, List.countP_cons, List.countP_cons]
    omega

end Cluster

-- What `health` reports of the queue, whenever it asks. `queue_pending` is the number of messages that
-- have been handed out and not acknowledged. `queue_depth` is the number of those that nobody has been
-- handed, or misses it by no more than what was published and acknowledged between its two questions.
theorem queue_figures (settings : QueueSettings) {R : Type} (out : HealthOut) (probe : HealthProbe R)
    (turns between : List ClusterTurn) (hl : .lose ∉ between) {group : ConsumerGroup String Int}
    (hg : (Cluster.start.run settings turns).redis.group = some group)
    (hlag : ∀ n ∈ probe.lag, n = (group.unread (Cluster.start.run settings turns).redis.log).length) :
    let redis := (Cluster.start.run settings turns).redis
    let out := out.checkQueue { probe with
      redisFault := none
      group      := some group
      xlen       := (Cluster.start.run settings (turns ++ between)).redis.log.items.length }
    ∃ depth, out.queueDepth = some depth ∧
      out.queuePending = some (redis.log.items.countP fun item => item.id < group.next) ∧
      depth ≤ (redis.log.items.countP fun item => group.next ≤ item.id) +
        between.countP (·.publishes) ∧
      (redis.log.items.countP fun item => group.next ≤ item.id) ≤
        depth + between.countP (·.acknowledges) := by
  intro redis out
  have hsound : Cluster.Sound settings (Cluster.start.run settings turns) := Cluster.Sound.start.run turns
  have hrun : Cluster.start.run settings (turns ++ between) =
      (Cluster.start.run settings turns).run settings between :=
    List.foldl_append
  have hpending : redis.log.items.countP (fun item => item.id < group.next) = group.pending.length := by
    have := congrArg List.length (hsound.redis.pending group hg)
    rw [List.length_map, List.length_map, ← List.countP_eq_length_filter] at this
    exact this.symm
  have hunread : redis.log.items.countP (fun item => group.next ≤ item.id) =
      (group.unread redis.log).length := by
    rw [ConsumerGroup.unread, List.countP_eq_length_filter]
  rw [hpending, hunread]
  cases hlag' : probe.lag
  case some lag =>
    have hexact := hlag lag hlag'
    refine ⟨lag, ?_, ?_, hexact ▸ Nat.le_add_right .., hexact ▸ Nat.le_add_right ..⟩
    · simp [out, HealthOut.checkQueue, hlag']
    · simp [out, HealthOut.checkQueue, hlag']
  case none =>
    have hlength : redis.log.items.length = group.pending.length + (group.unread redis.log).length :=
      hsound.redis.length_eq hg
    obtain ⟨hup, hdown⟩ := Cluster.run_length settings (Cluster.start.run settings turns) hl
    rw [← hrun] at hup hdown
    refine ⟨(Cluster.start.run settings (turns ++ between)).redis.log.items.length -
      group.pending.length, ?_, ?_, ?_, ?_⟩
    · simp [out, HealthOut.checkQueue, hlag']
    · simp [out, HealthOut.checkQueue, hlag']
    all_goals
      change redis.log.items.length ≤ _ at hdown
      change _ ≤ redis.log.items.length + _ at hup
      omega

def oneOfTwo : List ClusterTurn :=
  [.enqueue .null [], .ensureGroup, .autoclaim "a" 0, .readgroup "a" 0, .enqueue .null []]

def groupProbe (lag : Option Nat) : HealthProbe Nat :=
  ⟨none, ⟨∅, ∅, ∅, ∅, ∅⟩, none, 0, [], true, some ⟨1, [⟨0, "a", 0⟩], by simp⟩, lag, 3⟩

-- One message has been handed out, one has not, and a third comes while the endpoint asks. A server
-- that reports the lag has counted before that.
theorem queue_figures_published :
    let redis := (Cluster.start.run {} oneOfTwo).redis
    let out   := ({} : HealthOut).checkQueue (groupProbe none)
    let out'  := ({} : HealthOut).checkQueue (groupProbe (some 1))
    (∃ depth, out.queueDepth = some depth ∧
      out.queuePending = some (redis.log.items.countP fun item => item.id < 1) ∧
      depth ≤ (redis.log.items.countP fun item => 1 ≤ item.id) + 1 ∧
      (redis.log.items.countP fun item => 1 ≤ item.id) ≤ depth + 0) ∧
    ∃ depth, out'.queueDepth = some depth ∧
      out'.queuePending = some (redis.log.items.countP fun item => item.id < 1) ∧
      depth ≤ (redis.log.items.countP fun item => 1 ≤ item.id) + 1 ∧
      (redis.log.items.countP fun item => 1 ≤ item.id) ≤ depth + 0 := by
  refine ⟨?_, ?_⟩
  · exact queue_figures {} {} (groupProbe none) oneOfTwo [.enqueue .null []] (by simp) rfl
      (by simp [groupProbe])
  · exact queue_figures {} {} (groupProbe (some 1)) oneOfTwo [.enqueue .null []] (by simp) rfl
      fun _ hm => (Option.some.inj hm).symm

end Figures

end MarTech
