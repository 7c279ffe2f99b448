import MarTech.Domain.Scoring
import MarTech.Library.Regex

namespace MarTech

-- The Unicode database, as far as `re` and `float` use it: the classes `\d`, `\s` and `\w`, the
-- values of digits, and the characters that a letter matches under `re.IGNORECASE`.
class Unicode where
  isDigit    : Char → Bool
  isSpace    : Char → Bool
  isWord     : Char → Bool
  digit      : Char → Nat
  ignoreCase : Char → Char → Bool
  punctuation       : ∀ c ∈ ['.', ',', '%', '$', '-'], !isDigit c && !isSpace c && !isWord c
  isSpace_not_digit : ∀ c, isSpace c → isDigit c = false
  isSpace_not_word  : ∀ c, isSpace c → isWord c = false
  ignoreCase_isWord : ∀ c ∈ ['d', 'w', 'h', 'm', 'y', 's'], ∀ c', ignoreCase c c' → isWord c'

-- `repr` of the numbers that stand for floats.
class FloatRepr (R : Type) where
  repr : R → String

section Numbers

-- A value in the context. Anything but an `int` or a `float`, and a `bool` too, is left alone.
inductive Value (R : Type)
  | int (n : Int)
  | float (x : R)
  | other

structure Context (R : Type) where
  metrics               : List (String × Value R)
  audienceSize          : Value R
  engagementScoreSample : List (String × Value R)

structure KnownNumber (R : Type) where
  name  : String
  value : R
deriving DecidableEq

instance {R : Type} : Keyed (KnownNumber R) String where
  key := KnownNumber.name

variable {R : Type} [Field R] [LinearOrder R] [FloorRing R]

def maxTargetDeltaPct : R := 10
def pctTolerancePp : R := 1
def absRelTolerance : R := 5 / 1000

def Value.number? : Value R → Option R
  | int n   => some n
  | float x => some x
  | other   => none

def extractContextNumbers (context : Context R) : Table (KnownNumber R) :=
  let metric (known : Table (KnownNumber R)) : String × Value R → Table (KnownNumber R)
    | (k, v) =>
      match v.number? with
      | none   => known
      | some x =>
        let known := known.upsert ⟨k, x⟩
        -- The percentage form.
        if 0 ≤ x ∧ x ≤ 1 then known.upsert ⟨k ++ "_pct", roundTo 4 (x * 100)⟩ else known
  let known := context.metrics.foldl metric ∅
  let known :=
    match context.audienceSize.number? with
    | none   => known
    | some x => known.upsert ⟨"audience_size", x⟩
  let statistic (known : Table (KnownNumber R)) (k : String) : Table (KnownNumber R) :=
    match (context.engagementScoreSample.lookup k).bind Value.number? with
    | none   => known
    | some x => known.upsert ⟨"engagement_sample_" ++ k, x⟩
  ["count", "mean", "max", "min"].foldl statistic known

def withinPct (value : R) (known : Table (KnownNumber R)) : Bool :=
  known.rows.any fun kv => |value - kv.value| ≤ pctTolerancePp

def withinAbs (value : R) (known : Table (KnownNumber R)) : Bool :=
  known.rows.any fun kv => |value - kv.value| ≤ max (1 / 100) (absRelTolerance * |kv.value|)

end Numbers

section Patterns

variable [Unicode]

open Regex Unicode

def isNumeral (c : Char) : Bool :=
  isDigit c || c = ','

def isNumberPart (c : Char) : Bool :=
  isDigit c || c = '.'

def char (c : Char) : Regex Char :=
  sat (· = c)

-- A word of a pattern that ignores case.
def word (w : String) : Regex Char :=
  concat <| w.toList.map fun c => sat (ignoreCase c)

-- `\.\d+`
def fraction : Regex Char :=
  concat [char '.', plus (sat isDigit)]

-- `\d[\d,]*(?:\.\d+)?`
def number : Regex Char :=
  concat [sat isDigit, many (sat isNumeral), opt fraction]

-- `\s*%`
def percentSign : Regex Char :=
  concat [many (sat isSpace), char '%']

def pctRe : Regex Char :=
  concat [notBehind isNumberPart, group number, percentSign]

def numRe : Regex Char :=
  concat [opt (char '$'), many (sat isSpace), group number]

-- `\bby\s+`
def byRe : Regex Char :=
  concat [boundary isWord, word "by", plus (sat isSpace)]

def deltaRe : Regex Char :=
  concat [byRe, number, percentSign]

def timeUnits : List String := [
  "day", "days", "week", "weeks", "hour", "hours", "month", "months", "year", "years", "minute",
  "minutes", "second", "seconds"
]

def timeUnitRe : Regex Char :=
  concat [start, many (sat isSpace), many (alt (char '-') (sat isSpace)),
    oneOf (timeUnits.map word), boundary isWord]

def directionalVerbs : List String := [
  "increase", "boost", "raise", "lift", "grow", "improve", "uplift", "gain", "reduce", "decrease",
  "lower", "drop", "cut", "double", "triple", "halve"
]

def hasDirectionalVerb [Runtime] (text : String) : Bool :=
  let lowered := lower text
  directionalVerbs.any fun verb => verb.toList <:+: lowered.toList

end Patterns

section Verify

variable [Unicode]

open Regex Unicode

-- `str.replace(",", "")`
def withoutCommas (text : List Char) : List Char :=
  text.filter (· ≠ ',')

def strip (text : List Char) : List Char :=
  (text.dropWhile isSpace).reverse.dropWhile isSpace |>.reverse

def isdigit (text : List Char) : Bool :=
  !text.isEmpty && text.all isDigit

variable {R : Type} [Field R] [LinearOrder R] [FloorRing R]

-- Python's `float` of digits with at most one point among them.
def float (text : List Char) : R :=
  let (whole, fraction) := text.span (· ≠ '.')
  let digits := whole ++ fraction.tail
  (digits.foldl (fun n c => 10 * n + digit c) 0 : Nat) / 10 ^ fraction.tail.length

variable [FloatRepr R] [Runtime]

-- What is noted of a match of `_PCT_RE`, if it is not accepted.
def judgePercentage (known : Table (KnownNumber R)) (rec : String) (m : Span Char) :
    Option String :=
  let value : R := float (withoutCommas m.text)
  if withinPct value known then
    none
  -- A small directional delta.
  else if value ≤ maxTargetDeltaPct ∧ deltaRe.search rec.toList ∧ hasDirectionalVerb rec then
    none
  else
    some <| "Contains unverified statistic '" ++ FloatRepr.repr value ++
      "%' not directly present in SQL metrics"

-- What is noted of a match of `_NUM_RE`, if it is not accepted.
def judgeNumber (known : Table (KnownNumber R)) (pctSpans : List (Span Char)) (m : Span Char) :
    Option String :=
  let raw := withoutCommas m.text
  let value : R := float raw
  if pctSpans.any fun p => p.start.index ≤ m.start.index ∧ m.start.index < p.stop.index then
    none
  else if timeUnitRe.matchStart m.stop.after then
    none
  else if isdigit raw ∧ 1 ≤ value ∧ value ≤ 12 then
    none
  else if withinAbs value known then
    none
  else
    some <| "Contains unverified figure '" ++ String.ofList (strip m.text) ++
      "' not directly present in SQL metrics"

def notesOn (known : Table (KnownNumber R)) (rec : String) : List String :=
  let pctSpans := pctRe.finditer rec.toList
  pctSpans.filterMap (judgePercentage known rec) ++
    (numRe.finditer rec.toList).filterMap (judgeNumber known pctSpans)

-- A recommendation is refused with a note, and only so.
def verifyGrounding (recommendations : List String) (context : Context R) : Bool × List String :=
  let notes := recommendations.flatMap (notesOn <| extractContextNumbers context)
  if notes.isEmpty then
    (true, ["All quantitative metrics strictly verified against PostgreSQL aggregates."])
  else
    (false, notes)

end Verify
end MarTech
