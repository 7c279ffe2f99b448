import MarTech.Pipeline.Queue
import MarTech.Pipeline.System

namespace MarTech

variable {R : Type}

-- What the transactions know of the server: the log, but not to whom its messages have been handed out.
def Stream.of (redis : RedisStream) : Stream where
  entries := redis.log.items.map fun item => ⟨item.id, item.fields.customerId, item.fields.payload⟩
  nextId  := redis.log.nextId

-- The message which the transaction publishes when it goes on, if it does.
def Reconcile.message (r : Reconcile) : Option (Json × Json.Object) :=
  match r.stage with
  | .enqueue row _ => (row.payload.get "customer_id").map fun customerId => (customerId, row.payload)
  | _              => none

-- The transactions of the endpoints.
def Op.isRequest : Op → Bool
  | ingestEvent .. | ingestBatch .. | replayDlq .. => true
  | _                                              => false

-- The whole service: the committed tables, what each `reconcile_outbox` is doing, and the server with
-- the workers' processes.
structure Platform (R : Type) where
  db         : Db R
  sequences  : Sequences
  reconciles : Table Reconcile
  cluster    : Cluster

-- What can happen next. Unlike in `Workers`, no payload reaches a worker but in a message of the batch
-- that the server has handed to it, and it acknowledges no other messages.
inductive PlatformTurn
  | request (op : Op) (request : op.isRequest)
  | start (id : Nat)
  | advance (id : Nat) (now : Timestamp)
  | abort (id : Nat)
  | queue (turn : ClusterTurn) (worker : turn.publishes = false)
  | process (consumerName : String) (messageId : MessageId) (now : Timestamp)
  | fail (consumerName : String) (messageId : MessageId) (error : Error) (now : Timestamp)

def PlatformTurn.bodies : PlatformTurn → List EventIn
  | request op _ => op.bodies
  | _            => []

namespace Platform

def start (db : Db R) (sequences : Sequences) : Platform R where
  db         := db
  sequences  := sequences
  reconciles := ∅
  cluster    := .start

-- The platform as `Workers` describes it.
def workers (p : Platform R) : Workers R where
  db         := p.db
  sequences  := p.sequences
  stream     := .of p.cluster.redis
  reconciles := p.reconciles

-- A message of the worker's batch.
def batched (p : Platform R) (consumerName : String) (messageId : MessageId) :
    Option (LogItem StreamFields) :=
  (p.cluster.queues consumerName).batch.find? (·.id = messageId)

variable (settings : Settings R) (queue : QueueSettings)

-- The transaction reads and writes the tables as it does in `Workers`, and what it publishes goes to
-- the server.
def advance (p : Platform R) (r : Reconcile) (now : Timestamp) : Platform R :=
  let w := p.workers.advance settings r now
  { db         := w.db
    sequences  := w.sequences
    reconciles := w.reconciles
    cluster    := r.message.elim p.cluster fun (customerId, payload) =>
      p.cluster.turn queue (.enqueue customerId payload) }

variable [Field R] [LinearOrder R] [FloorRing R] [MathExp R] [Runtime]

def transact (p : Platform R) (op : Op) : Platform R :=
  let s := p.workers.toState.exec settings op
  { p with db := s.db, sequences := s.sequences }

def turn (p : Platform R) : PlatformTurn → Platform R
  | .request op _   => p.transact settings op
  | .start id       => { p with reconciles := p.reconciles.insert (.start id) }
  | .advance id now => (p.reconciles.get id).elim p fun r => p.advance settings queue r now
  | .abort id       => { p with reconciles := p.reconciles.delete (·.id = id) }
  | .queue turn _   => { p with cluster := p.cluster.turn queue turn }
  | .process consumerName messageId now =>
    (p.batched consumerName messageId).elim p fun item =>
      p.transact settings (.processOneEvent item.fields.payload now)
  | .fail consumerName messageId error now =>
    (p.batched consumerName messageId).elim p fun item =>
      p.transact settings (.failEvent item.fields.payload error settings.workerMaxRetries now)

def run (p : Platform R) (turns : List PlatformTurn) : Platform R :=
  turns.foldl (turn settings queue) p

end Platform
end MarTech
