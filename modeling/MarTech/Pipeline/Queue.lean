import MarTech.Library.Broker
import MarTech.Pipeline.Stream

namespace MarTech

-- What an entry of the stream holds. The JSON text of the payload is taken for the object it encodes.
structure StreamFields where
  customerId : Json
  payload    : Json.Object

-- The stream and its consumer group. Consumers are told apart by name, and the server's clock counts
-- milliseconds.
abbrev RedisStream := Broker StreamFields String Int

structure QueueSettings where
  workerClaimIdleMs : Int := 60000
  workerBatchSize   : Nat := 10
  workerClaimIdleMs_bound : 1000 ≤ workerClaimIdleMs := by decide

-- What a worker's process remembers of the queue: where its next XAUTOCLAIM starts, whether its
-- `consume` has found nothing to take over and goes on to XREADGROUP, and the messages of the last
-- batch that it has not acknowledged.
structure RedisStreamsQueue where
  claimCursor : Nat := 0
  reading     : Bool := false
  batch       : List (LogItem StreamFields) := []

namespace RedisStreamsQueue

def enqueue (redis : RedisStream) (customerId : Json) (payload : Json.Object) :
    RedisStream × MessageId :=
  (redis.add ⟨customerId, payload⟩, redis.log.nextId)

-- BUSYGROUP, which says that the group is there, is no error.
def ensureGroup (redis : RedisStream) : RedisStream :=
  redis.create

def contains (redis : RedisStream) (messageId : MessageId) : Bool :=
  (redis.log.get messageId).isSome

variable (settings : QueueSettings) (queue : RedisStreamsQueue) (redis : RedisStream)
         (consumerName : String) (now : Int)

-- `consume` up to the answer to XAUTOCLAIM. If the server knows no group then it raises.
def autoclaim : RedisStream × RedisStreamsQueue :=
  match redis.claim settings.workerClaimIdleMs consumerName settings.workerBatchSize queue.claimCursor
    now with
  | (redis, none)                 => (redis, { queue with reading := false, batch := [] })
  | (redis, some (items, cursor)) =>
    (redis, { claimCursor := cursor, reading := items.isEmpty, batch := items })

-- The rest of `consume`, if nothing was there to take over.
def readgroup : RedisStream × RedisStreamsQueue :=
  if queue.reading then
    match redis.read consumerName settings.workerBatchSize now with
    | (redis, none)       => (redis, { queue with reading := false, batch := [] })
    | (redis, some items) => (redis, { queue with reading := false, batch := items })
  else
    (redis, queue)

-- XACK and XDEL in one transaction, for a message of the batch.
def ack (messageId : MessageId) : RedisStream × RedisStreamsQueue :=
  if messageId ∈ queue.batch.map (·.id) then
    (redis.ack messageId, { queue with batch := queue.batch.filter (·.id ≠ messageId) })
  else
    (redis, queue)

section

variable {settings queue redis consumerName now}

theorem autoclaim_of_none (h : redis.group = none) :
    queue.autoclaim settings redis consumerName now =
      (redis, { queue with reading := false, batch := [] }) := by
  simp [autoclaim, Broker.claim, h]

variable (settings queue redis consumerName now) in
-- The answer to the XAUTOCLAIM.
abbrev claim (group : ConsumerGroup String Int) :
    ConsumerGroup String Int × List (LogItem StreamFields) × Nat :=
  group.claim redis.log consumerName settings.workerClaimIdleMs settings.workerBatchSize
    queue.claimCursor now

variable (settings redis consumerName now) in
-- The answer to the XREADGROUP.
abbrev read (group : ConsumerGroup String Int) :
    ConsumerGroup String Int × List (LogItem StreamFields) :=
  group.read redis.log consumerName settings.workerBatchSize now

theorem autoclaim_of_some {group : ConsumerGroup String Int} (h : redis.group = some group) :
    let claim := queue.claim settings redis consumerName now group
    queue.autoclaim settings redis consumerName now =
      (redis.handOut consumerName now claim.1 claim.2.1,
        { claimCursor := claim.2.2, reading := claim.2.1.isEmpty, batch := claim.2.1 }) := by
  simp [autoclaim, Broker.claim, h]

theorem readgroup_of_not_reading (h : queue.reading = false) :
    queue.readgroup settings redis consumerName now = (redis, queue) := by
  simp [readgroup, h]

theorem readgroup_of_none (h : redis.group = none) (hr : queue.reading) :
    queue.readgroup settings redis consumerName now =
      (redis, { queue with reading := false, batch := [] }) := by
  simp [readgroup, Broker.read, h, hr]

theorem readgroup_of_some {group : ConsumerGroup String Int} (h : redis.group = some group)
    (hr : queue.reading) :
    let read := read settings redis consumerName now group
    queue.readgroup settings redis consumerName now =
      (redis.handOut consumerName now read.1 read.2,
        { queue with reading := false, batch := read.2 }) := by
  simp [readgroup, Broker.read, h, hr]

end

end RedisStreamsQueue

-- The server and the workers' processes, by the names of their consumers.
structure Cluster where
  redis  : RedisStream
  queues : String → RedisStreamsQueue

-- What can happen next: a message is published, a worker goes on with its loop or dies, or the server
-- loses its memory.
inductive ClusterTurn
  | enqueue (customerId : Json) (payload : Json.Object)
  | ensureGroup
  | autoclaim (consumerName : String) (now : Int)
  | readgroup (consumerName : String) (now : Int)
  | ack (consumerName : String) (messageId : MessageId)
  | crash (consumerName : String)
  | lose

-- Whether a worker asks for what it could take over.
def ClusterTurn.polls (consumerName : String) : ClusterTurn → Bool
  | .autoclaim consumerName' _ => consumerName' = consumerName
  | _                          => false

def ClusterTurn.publishes : ClusterTurn → Bool
  | .enqueue .. => true
  | _           => false

def ClusterTurn.acknowledges : ClusterTurn → Bool
  | .ack .. => true
  | _       => false

namespace Cluster

def start : Cluster where
  redis  := .empty
  queues := fun _ => {}

-- A worker's step changes the server and what the worker remembers.
def work (cluster : Cluster) (consumerName : String)
    (step : RedisStreamsQueue → RedisStream → RedisStream × RedisStreamsQueue) : Cluster :=
  let (redis, queue) := step (cluster.queues consumerName) cluster.redis
  { redis, queues := Function.update cluster.queues consumerName queue }

variable (settings : QueueSettings)

def turn (cluster : Cluster) : ClusterTurn → Cluster
  | .enqueue customerId payload =>
    { cluster with redis := (RedisStreamsQueue.enqueue cluster.redis customerId payload).1 }
  | .ensureGroup => { cluster with redis := RedisStreamsQueue.ensureGroup cluster.redis }
  | .autoclaim consumerName now =>
    cluster.work consumerName fun queue redis => queue.autoclaim settings redis consumerName now
  | .readgroup consumerName now =>
    cluster.work consumerName fun queue redis => queue.readgroup settings redis consumerName now
  | .ack consumerName messageId =>
    cluster.work consumerName fun queue redis => queue.ack redis messageId
  | .crash consumerName =>
    { cluster with queues := Function.update cluster.queues consumerName {} }
  | .lose => { cluster with redis := cluster.redis.lose }

def run (cluster : Cluster) (turns : List ClusterTurn) : Cluster :=
  turns.foldl (turn settings) cluster

-- What the server hands out in a run.
def handedOut (cluster : Cluster) (turns : List ClusterTurn) : List (Handout String Int) :=
  (cluster.run settings turns).redis.handouts.drop cluster.redis.handouts.length

end Cluster
end MarTech
