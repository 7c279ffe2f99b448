import Mathlib
import MarTech.Database.Models
import MarTech.Library.Window

namespace MarTech

-- The name of a member is `ARGV[4] .. ':' .. i`. Its two parts are kept apart here: there is no colon
-- in the `hex` of a UUID.
structure Member (T : Type) where
  uuid  : String
  unit  : Nat
  score : T

instance {T : Type} : Keyed (Member T) (String × Nat) where
  key member := (member.uuid, member.unit)

-- What Redis has under a key. A key without members does not exist.
structure SortedSet (T : Type) where
  members   : Table (Member T)
  expiresAt : Option T

abbrev Redis (T : Type) := String → Option (SortedSet T)

namespace SortedSet

variable {T : Type}

def rows (set : Option (SortedSet T)) : List (Member T) :=
  set.elim [] (·.members.rows)

def zcard (set : Option (SortedSet T)) : Nat :=
  (rows set).length

def zadd (member : Member T) (set : Option (SortedSet T)) : Option (SortedSet T) :=
  some {
    members   := (set.elim ∅ (·.members)).upsert member
    expiresAt := set.bind (·.expiresAt) }

def expire (time : T) (set : Option (SortedSet T)) : Option (SortedSet T) :=
  set.map fun set => { set with expiresAt := some time }

theorem rows_expire (time : T) (set : Option (SortedSet T)) : rows (expire time set) = rows set := by
  cases set <;> rfl

theorem rows_zadd {set : Option (SortedSet T)} {member : Member T}
    (h : ∀ m ∈ rows set, Keyed.key m ≠ Keyed.key member) :
    rows (zadd member set) = rows set ++ [member] := by
  cases set
  case none   => exact Table.rows_upsert (t := ∅) rfl
  case some s => exact Table.rows_upsert (Table.get_eq_none_iff.mpr h)

variable [LinearOrder T]

-- What is left of a key when it is read. Redis keeps it up to the time at which it expires.
def live (now : T) (set : Option (SortedSet T)) : Option (SortedSet T) :=
  set.filter fun set => set.expiresAt.all (now ≤ ·)

-- `ZREMRANGEBYSCORE` with the minimum `-inf`.
def zremrangebyscore (max : T) (set : Option (SortedSet T)) : Option (SortedSet T) :=
  set.bind fun set =>
    let members := set.members.delete (·.score ≤ max)
    if members.rows.isEmpty then none else some { set with members }

theorem rows_zremrangebyscore (max : T) (set : Option (SortedSet T)) :
    rows (zremrangebyscore max set) = (rows set).filter (max < ·.score) := by
  cases set
  case none => rfl
  case some s =>
    have hp : (fun m : Member T => !decide (m.score ≤ max)) = fun m => decide (max < m.score) := by
      funext m
      simp [← decide_not]
    simp only [zremrangebyscore, Option.bind_some, Table.delete, hp]
    split
    case isTrue he  => exact (List.isEmpty_iff.mp he).symm
    case isFalse he => rfl

theorem mem_zremrangebyscore {max : T} {s : SortedSet T} {set : Option (SortedSet T)}
    (h : s ∈ zremrangebyscore max set) :
    ∃ s' ∈ set, s.expiresAt = s'.expiresAt ∧ ∀ m ∈ s.members, m ∈ s'.members := by
  obtain ⟨s', hs, he⟩ := Option.bind_eq_some_iff.mp h
  simp only at he
  split at he
  case isTrue  => cases he
  case isFalse =>
    cases he
    exact ⟨s', hs, rfl, fun m hm => (Table.mem_delete.mp hm).left⟩

end SortedSet

open SortedSet

-- The loop of the script.
def addUnits {T : Type} (uuid : String) (now : T) (cost : Nat) (set : Option (SortedSet T)) :
    Option (SortedSet T) :=
  (List.range cost).foldl (fun set i => zadd ⟨uuid, i + 1, now⟩ set) set

theorem rows_addUnits {T : Type} {set : Option (SortedSet T)} {uuid : String} (now : T)
    (h : ∀ m ∈ rows set, m.uuid ≠ uuid) (cost : Nat) :
    rows (addUnits uuid now cost set) =
      rows set ++ (List.range cost).map fun i => ⟨uuid, i + 1, now⟩ := by
  induction cost
  case zero => simp [addUnits]
  case succ cost hi =>
    have hadd : addUnits uuid now (cost + 1) set =
        zadd ⟨uuid, cost + 1, now⟩ (addUnits uuid now cost set) := by
      simp [addUnits, List.range_succ]
    rw [hadd, rows_zadd, hi, List.range_succ, List.map_append, List.append_assoc, List.map_singleton]
    intro m hm
    rw [hi] at hm
    cases List.mem_append.mp hm
    case inl hm => exact fun e => h m hm (congrArg Prod.fst e)
    case inr hm =>
      obtain ⟨i, hi, e⟩ := List.mem_map.mp hm
      have hlt := List.mem_range.mp hi
      simp only [← e, Keyed.key, ne_eq, Prod.mk.injEq, true_and]
      omega

-- A call of `rate_limit_events`: what `request.client.host` is, what `time.time()` and `uuid4().hex`
-- return, and whether Redis raises, be it before it has run the script or after that.
inductive Connection
  | ok
  | lost (executed : Bool)
deriving DecidableEq

structure RateLimitCall (T : Type) where
  host       : Option String
  cost       : Nat
  now        : T
  uuid       : String
  connection : Connection := .ok

def RateLimitCall.clientIp {T : Type} (call : RateLimitCall T) : String :=
  call.host.getD "unknown"

def rateLimitKey (clientIp : String) : String :=
  "ratelimit:events:" ++ clientIp

theorem rateLimitKey_injective : Function.Injective rateLimitKey :=
  fun _ _ h => String.append_right_inj _ |>.mp h

def RateLimitCall.key {T : Type} (call : RateLimitCall T) : String :=
  rateLimitKey call.clientIp

def rateLimited (text : String) : Error where
  code := "rate_limited"
  text := text

instance atLeastTwo_window : Nat.AtLeastTwo 60 := ⟨by decide⟩
instance atLeastTwo_expiry : Nat.AtLeastTwo 61 := ⟨by decide⟩

section Limiter

variable {T : Type} [Ring T] [LinearOrder T] (rateLimitEventsPerMin : Nat)

-- `_SCRIPT`, which Redis runs atomically.
def rateLimitScript (now : T) (cost : Nat) (uuid : String) (set : Option (SortedSet T)) :
    Option (SortedSet T) × Bool :=
  let set := zremrangebyscore (now - 60) (live now set)
  if rateLimitEventsPerMin < zcard set + cost then
    (set, false)
  else
    (expire (now + 61) (addUnits uuid now cost set), true)

def evalScript (redis : Redis T) (call : RateLimitCall T) : Redis T × Bool :=
  let (set, allowed) :=
    rateLimitScript rateLimitEventsPerMin call.now call.cost call.uuid (redis call.key)
  (Function.update redis call.key set, allowed)

-- The limiter lets everything through while Redis is out.
def rateLimitEvents (redis : Redis T) (call : RateLimitCall T) : Redis T × Except Error Unit :=
  if rateLimitEventsPerMin < call.cost then
    (redis, .error <| rateLimited "Batch exceeds the event rate limit")
  else match call.connection with
    | .lost false => (redis, .ok ())
    | .lost true  => ((evalScript rateLimitEventsPerMin redis call).1, .ok ())
    | .ok =>
      let (redis, allowed) := evalScript rateLimitEventsPerMin redis call
      if allowed then
        (redis, .ok ())
      else
        (redis, .error <|
          rateLimited "Event rate limit exceeded; retry after the current minute")

-- Redis, and the calls that have been let through so far.
structure Limiter (T : Type) where
  redis    : Redis T
  admitted : List (RateLimitCall T)

namespace Limiter

def start : Limiter T where
  redis    := fun _ => none
  admitted := []

def serve (limiter : Limiter T) (call : RateLimitCall T) : Limiter T :=
  let (redis, answer) := rateLimitEvents rateLimitEventsPerMin limiter.redis call
  { redis    := redis
    admitted := if answer.isOk then limiter.admitted ++ [call] else limiter.admitted }

variable {rateLimitEventsPerMin} {redis : Redis T} {call : RateLimitCall T} (limiter : Limiter T)

theorem serve_of_ok
    (h : rateLimitEvents rateLimitEventsPerMin limiter.redis call = (redis, .ok ())) :
    limiter.serve rateLimitEventsPerMin call = ⟨redis, limiter.admitted ++ [call]⟩ := by
  rw [serve, h]
  rfl

theorem serve_of_error {error : Error}
    (h : rateLimitEvents rateLimitEventsPerMin limiter.redis call = (redis, .error error)) :
    limiter.serve rateLimitEventsPerMin call = ⟨redis, limiter.admitted⟩ := by
  rw [serve, h]
  rfl

variable (rateLimitEventsPerMin) in
def run (calls : List (RateLimitCall T)) : Limiter T :=
  calls.foldl (serve rateLimitEventsPerMin) start

end Limiter
end Limiter
end MarTech
