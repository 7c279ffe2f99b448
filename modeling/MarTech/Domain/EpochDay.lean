import MarTech.Domain.Events

namespace MarTech

-- A runtime that agrees with Python on strings of ASCII characters without quotes, on timestamps
-- given as a number of seconds, and on the instants of 1 January 1970 that are whole seconds.
namespace EpochDay

def two (n : Int) : String :=
  if n < 10 then "0" ++ toString n else toString n

def clock (t : Timestamp) : String :=
  two (t / Timestamp.hour) ++ ":" ++ two (t / Timestamp.minute % 60) ++ ":" ++
    two (t / Timestamp.second % 60)

def dumpDatetime (t : Timestamp) : String :=
  "1970-01-01T" ++ clock t ++ "Z"

def isoformat (t : Timestamp) : String :=
  "1970-01-01T" ++ clock t ++ "+00:00"

def parseDatetime : Json → Option Timestamp
  | .int n => some (n * Timestamp.second)
  | .str s => match s.toList.drop 11 with
    | [h₁, h₂, ':', m₁, m₂, ':', s₁, s₂, 'Z'] => do
      let digit (c : Char) : Option Int := if c.isDigit then some (c.toNat - '0'.toNat) else none
      let hour   := 10 * (← digit h₁) + (← digit h₂)
      let minute := 10 * (← digit m₁) + (← digit m₂)
      let second := 10 * (← digit s₁) + (← digit s₂)
      return hour * Timestamp.hour + minute * Timestamp.minute + second * Timestamp.second
    | _ => none
  | _ => none

def repr : Json → String
  | .null       => "None"
  | .bool true  => "True"
  | .bool false => "False"
  | .int n      => toString n
  | .float r    => r
  | .str s      => "'" ++ s ++ "'"
  | .array _    => "[]"
  | .object _   => "{}"

scoped instance : Runtime where
  lower         := String.toLower
  repr          := repr
  parseDatetime := parseDatetime
  dumpDatetime  := dumpDatetime
  isoformat     := isoformat

example : dumpDatetime (5 * Timestamp.second) = "1970-01-01T00:00:05Z" := by
  decide

example : parseDatetime (.str "1970-01-01T00:00:05Z") = some (5 * Timestamp.second) := by
  decide

end EpochDay
end MarTech
