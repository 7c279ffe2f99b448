import MarTech.Pipeline.Queue

namespace MarTech

variable {R : Type}

-- The statements and the commands of `health`, in the order in which they are sent.
inductive DatabaseProbe
  | select
  | outboxPending
  | dlqSize
deriving DecidableEq

inductive RedisProbe
  | ping
  | scan
  | xinfoGroups
  | xlen
deriving DecidableEq

structure HealthSettings where
  workerHeartbeatTtl : Int := 120
  runEmbeddedWorker  : Bool := true
  workerHeartbeatTtl_bound : 30 ≤ workerHeartbeatTtl := by decide

-- The keys `workers:{group}:{consumer}`, with the times in seconds at which they expire.
abbrev Heartbeats := List (String × Int)

-- What becomes of the keys: `heartbeat_loop` sets one, `run_worker` deletes its own when it ends, and
-- Redis may lose them all.
inductive HeartbeatTurn
  | beat (consumerName : String) (now : Int)
  | delete (consumerName : String)
  | lose

namespace Heartbeats

variable (settings : HealthSettings) (heartbeats : Heartbeats)

def delete (consumerName : String) : Heartbeats :=
  heartbeats.filter (·.1 ≠ consumerName)

def pulse : HeartbeatTurn → Heartbeats
  | .beat consumerName now =>
    heartbeats.delete consumerName ++ [(consumerName, now + settings.workerHeartbeatTtl)]
  | .delete consumerName   => heartbeats.delete consumerName
  | .lose                  => []

def run (pulses : List HeartbeatTurn) : Heartbeats :=
  pulses.foldl (pulse settings) []

-- Whether the scan finds a key that exists. Redis keeps it up to the time at which it expires.
def anyAlive (now : Int) : Bool :=
  heartbeats.any (now ≤ ·.2)

end Heartbeats

structure HealthOut where
  status        : String := "ok"
  database      : String := "error"
  redis         : String := "error"
  worker        : String := "error"
  queueDepth    : Option Nat := none
  queuePending  : Option Nat := none
  outboxPending : Option Nat := none
  dlqSize       : Option Nat := none
  version       : String := "0.3.0"

-- What the checks find: the statement or the command that raises, if there is one, the tables, the
-- keys, the groups and the length of the stream, and whether the embedded worker's task is running.
-- Redis may be unable to tell the lag of a group.
structure HealthProbe (R : Type) where
  databaseFault : Option DatabaseProbe
  db            : Db R
  redisFault    : Option RedisProbe
  now           : Int
  heartbeats    : Heartbeats
  taskRunning   : Bool
  group         : Option (ConsumerGroup String Int)
  lag           : Option Nat
  xlen          : Nat

namespace HealthOut

variable (out : HealthOut) (probe : HealthProbe R)

-- What has been found before a statement raises stays in the answer.
def checkDatabase : HealthOut :=
  if probe.databaseFault = some .select ∨ probe.databaseFault = some .outboxPending then
    out
  else
    let out := { out with
      outboxPending := some <| probe.db.eventOutbox.rows.countP (·.publishedAt.isNone) }
    if probe.databaseFault = some .dlqSize then
      out
    else
      { out with
        dlqSize  := some <| probe.db.dlqEvents.rows.countP (·.replayedAt.isNone)
        database := "ok" }

-- Redis 6 does not know the lag. The group is found by its name.
def checkQueue : HealthOut :=
  if probe.redisFault = some .xinfoGroups then
    out
  else match probe.group with
    | none       => out
    | some group => match probe.lag with
      | some lag => { out with queueDepth := some lag, queuePending := some group.pending.length }
      | none     =>
        if probe.redisFault = some .xlen then
          out
        else
          { out with
            queueDepth   := some (probe.xlen - group.pending.length)
            queuePending := some group.pending.length }

def checkRedis (settings : HealthSettings) : HealthOut :=
  if probe.redisFault = some .ping then
    out
  else
    let out := { out with redis := "ok" }
    if probe.redisFault = some .scan then
      out
    else
      let out := if probe.heartbeats.anyAlive probe.now then { out with worker := "ok" } else out
      let out := if settings.runEmbeddedWorker ∧ ¬probe.taskRunning then
        { out with worker := "error" } else out
      out.checkQueue probe

end HealthOut

-- `GET /system/health`, with the status code of the response.
def health (settings : HealthSettings) (probe : HealthProbe R) : HealthOut × Nat :=
  let out : HealthOut := {}
  let out := out.checkDatabase probe |>.checkRedis probe settings
  if out.database ≠ "ok" ∨ out.redis ≠ "ok" ∨ out.worker ≠ "ok" then
    ({ out with status := "degraded" }, 503)
  else
    (out, 200)

end MarTech
