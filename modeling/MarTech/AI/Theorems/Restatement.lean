import MarTech.AI.Theorems.Grounding
import MarTech.Domain.Theorems.Rounding

namespace MarTech

open Unicode

-- A number in plain decimal notation: the digits of its whole part, with any separators among them,
-- and those of its fraction.
structure Numeral where
  whole    : List Char
  fraction : List Char

-- A text with one number in it, with a sign and a currency sign if it has them.
structure Restatement where
  before   : List Char
  negative : Bool
  currency : Option Char
  numeral  : Numeral
  after    : List Char

def Numeral.text (n : Numeral) : List Char :=
  n.whole ++ if n.fraction.isEmpty then [] else '.' :: n.fraction

namespace Restatement

-- What comes before the digits.
def front (r : Restatement) : List Char :=
  r.before ++ (if r.negative then ['-'] else []) ++ r.currency.toList

def text (r : Restatement) : List Char :=
  r.front ++ r.numeral.text ++ r.after

end Restatement

section

variable [Unicode]

structure Numeral.Valid (n : Numeral) : Prop where
  digit    : n.whole.head?.any isDigit
  whole    : ∀ c ∈ n.whole, isNumeral c
  fraction : ∀ c ∈ n.fraction, isDigit c

-- There are no other digits.
structure Restatement.Valid (r : Restatement) : Prop where
  numeral : r.numeral.Valid
  front   : ∀ c ∈ r.front, isDigit c = false
  after   : ∀ c ∈ r.after, isDigit c = false

def decimal (digits : List Char) : Nat :=
  digits.foldl (fun n c => 10 * n + digit c) 0

section Value

variable {R : Type} [Field R]

def Numeral.value (n : Numeral) : R :=
  decimal (n.whole.filter isDigit) + decimal n.fraction / 10 ^ n.fraction.length

def Restatement.value (r : Restatement) : R :=
  if r.negative then -r.numeral.value else r.numeral.value

end Value

namespace Restatement

-- Where the number starts.
def start (r : Restatement) : Cursor Char :=
  ⟨r.front.reverse, r.numeral.text ++ r.after⟩

-- The number as far as the guard reads it.
def span (r : Restatement) : Span Char where
  start := r.start
  stop  := numberEnd r.start

def attached (r : Restatement) : Bool :=
  percent r.span.stop

-- Whether a point comes right before the digits, after which `_PCT_RE` matches nothing.
def pointed (r : Restatement) : Bool :=
  r.front.getLast?.any (· = '.')

-- All that `_PCT_RE` matches of a percentage after a point: what follows the first comma that has a
-- digit after it.
def tail (r : Restatement) : Option (Span Char) :=
  if r.attached ∧ r.pointed then (afterComma r.start).map (⟨·, r.span.stop⟩) else none

end Restatement

section Reading

variable {n : Numeral} {r : Restatement}

theorem not_sees_isDigit {before after : List Char} (h : ∀ c ∈ after, isDigit c = false) :
    Cursor.sees ⟨before, after⟩ isDigit = false := by
  cases after
  case nil       => rfl
  case cons c cs => exact h c List.mem_cons_self

theorem not_next_sees_isDigit {before after : List Char} (h : ∀ c ∈ after, isDigit c = false) :
    (Cursor.next ⟨before, after⟩).sees isDigit = false := by
  cases after
  case nil       => rfl
  case cons c cs => exact not_sees_isDigit fun c hc => h c <| List.mem_cons_of_mem _ hc

-- The guard reads the number as it is written, and the commas that follow an integer.
theorem numberEnd_text (hn : n.Valid) {after : List Char} (ha : ∀ c ∈ after, isDigit c = false)
    (before : List Char) : ∃ commas rest, after = commas ++ rest ∧ (∀ c ∈ commas, c = ',') ∧
      numberEnd ⟨before, n.text ++ after⟩ = ⟨(n.text ++ commas).reverse ++ before, rest⟩ := by
  cases hf : n.fraction
  case nil =>
    have htext : n.text = n.whole := by simp [Numeral.text, hf]
    refine ⟨after.takeWhile isNumeral, after.dropWhile isNumeral, ?_, ?_, ?_⟩
    case refine_1 => exact List.takeWhile_append_dropWhile.symm
    case refine_2 =>
      intro c hc
      have hnum := List.mem_takeWhile_imp hc
      simpa [isNumeral, ha c (List.takeWhile_subset _ hc)] using hnum
    case refine_3 =>
      have hskip : Cursor.skipWhile isNumeral ⟨before, n.text ++ after⟩ =
          ⟨(n.text ++ after.takeWhile isNumeral).reverse ++ before, after.dropWhile isNumeral⟩ := by
        rw [htext, Cursor.skipWhile_append _ _ hn.whole]
        simp [Cursor.skipWhile]
      have hdigit : (Cursor.next ⟨(n.text ++ after.takeWhile isNumeral).reverse ++ before,
          after.dropWhile isNumeral⟩).sees isDigit = false :=
        not_next_sees_isDigit fun c hc => ha c (List.dropWhile_subset _ hc)
      simp only [numberEnd, hskip, hdigit]
      simp
  case cons d ds =>
    have htext : n.text = n.whole ++ '.' :: n.fraction := by simp [Numeral.text, hf]
    have hskip : Cursor.skipWhile isNumeral ⟨before, n.text ++ after⟩ =
        ⟨n.whole.reverse ++ before, '.' :: (n.fraction ++ after)⟩ := by
      rw [htext, List.append_assoc, Cursor.skipWhile_append _ _ hn.whole]
      exact Cursor.skipWhile_of_not_sees not_isNumeral_dot
    have hdot : Cursor.sees ⟨n.whole.reverse ++ before, '.' :: (n.fraction ++ after)⟩ (· = '.') :=
      rfl
    have hd : (Cursor.next ⟨n.whole.reverse ++ before, '.' :: (n.fraction ++ after)⟩).sees
        isDigit := by
      rw [hf]
      exact hn.fraction d (hf ▸ List.mem_cons_self)
    refine ⟨[], after, rfl, by simp, ?_⟩
    simp only [numberEnd, hskip, hdot, hd, and_self, if_true]
    rw [Cursor.next, Cursor.skipWhile_append _ _ hn.fraction,
      Cursor.skipWhile_of_not_sees (not_sees_isDigit ha), htext]
    simp

theorem Numeral.Valid.sees (hn : n.Valid) (before after : List Char) :
    Cursor.sees ⟨before, n.text ++ after⟩ isDigit := by
  have hd := hn.digit
  cases hw : n.whole <;> simp_all [Cursor.sees, Numeral.text]

theorem literals_text (hr : r.Valid) : literals r.text = [r.span] := by
  obtain ⟨commas, rest, hafter, _, hend⟩ := numberEnd_text hr.numeral hr.after r.front.reverse
  have hfront : literals r.text = Cursor.scan literalAt r.start := by
    have := Cursor.scan_append (P := (isDigit · = false)) (fun _ _ _ h => literalAt_eq_none h)
      hr.front [] (r.numeral.text ++ r.after)
    simpa [literals, Restatement.text, Restatement.start, Cursor.atStart] using this
  have hrest : Cursor.scan literalAt (numberEnd r.start) = [] := by
    have h : ∀ c ∈ rest, isDigit c = false := fun c hc => hr.after c (by simp [hafter, hc])
    have := Cursor.scan_append (P := (isDigit · = false)) (fun _ _ _ h => literalAt_eq_none h)
      h ((r.numeral.text ++ commas).reverse ++ r.front.reverse) []
    rw [List.append_nil, Cursor.scan_nil] at this
    rwa [Restatement.start, hend]
  have hstart : literalAt r.start = some (r.span, numberEnd r.start) :=
    literalAt_eq_some <| hr.numeral.sees _ _
  rw [hfront, Cursor.scan_some literalAt_progress hstart, hrest]

theorem after_span (hr : r.Valid) (h : r.after.head? ≠ some ',') : r.span.stop.after = r.after := by
  obtain ⟨commas, rest, hafter, hcommas, hend⟩ :=
    numberEnd_text hr.numeral hr.after r.front.reverse
  have hnil : commas = [] := by
    cases commas
    case nil       => rfl
    case cons c cs => simp [hafter, hcommas c List.mem_cons_self] at h
  simp only [Restatement.span, Restatement.start, hend]
  simp [hafter, hnil]

theorem withoutCommas_whole (hn : n.Valid) : withoutCommas n.whole = n.whole.filter isDigit := by
  refine List.filter_congr fun c hc => ?_
  have hnum := hn.whole c hc
  by_cases e : c = ','
  case pos => simp [e, not_isDigit_of_mem]
  case neg => simp_all [isNumeral]

theorem withoutCommas_fraction (hn : n.Valid) : withoutCommas n.fraction = n.fraction := by
  refine List.filter_eq_self.mpr fun c hc => decide_eq_true fun e => ?_
  have hd := hn.fraction c hc
  simp [e, not_isDigit_of_mem] at hd

-- What is left of the literal without its commas.
theorem withoutCommas_span (hr : r.Valid) : withoutCommas r.span.text =
    r.numeral.whole.filter isDigit ++
      if r.numeral.fraction.isEmpty then [] else '.' :: r.numeral.fraction := by
  obtain ⟨commas, rest, hafter, hcommas, hend⟩ :=
    numberEnd_text hr.numeral hr.after r.front.reverse
  have htext : r.span.text = r.numeral.text ++ commas := by
    have hlen : ((r.numeral.text ++ commas).reverse ++ r.front.reverse).length -
        r.front.reverse.length = (r.numeral.text ++ commas).length := by
      simp only [List.length_append, List.length_reverse]
      omega
    simp only [Span.text, Restatement.span, Restatement.start, hend, hlen]
    rw [hafter, ← List.append_assoc, List.take_left]
  have hnone : withoutCommas commas = [] := by
    simpa [withoutCommas, List.filter_eq_nil_iff] using hcommas
  have happend (l l' : List Char) : withoutCommas (l ++ l') = withoutCommas l ++ withoutCommas l' :=
    List.filter_append ..
  rw [htext, happend, hnone, List.append_nil, Numeral.text, happend,
    withoutCommas_whole hr.numeral]
  split
  case isTrue  => rfl
  case isFalse =>
    have hdot : withoutCommas ('.' :: r.numeral.fraction) = '.' :: withoutCommas r.numeral.fraction :=
      List.filter_cons_of_pos (by decide)
    rw [hdot, withoutCommas_fraction hr.numeral]

theorem decimal_append (l l' : List Char) :
    decimal (l ++ l') = decimal l * 10 ^ l'.length + decimal l' := by
  induction l' using List.reverseRecOn
  case nil => simp [decimal]
  case append_singleton l' c hi =>
    rw [← List.append_assoc]
    simp only [decimal, List.foldl_append, List.foldl_cons, List.foldl_nil, List.length_append,
      List.length_singleton, pow_succ] at hi ⊢
    rw [hi]
    ring

theorem float_digits {R : Type} [Field R] {l : List Char} (h : ∀ c ∈ l, isDigit c) :
    (float l : R) = decimal l := by
  have hdot : ∀ c ∈ l, decide (c ≠ '.') := fun c hc => decide_eq_true fun e => by
    simpa [e, not_isDigit_of_mem] using h c hc
  have hspan : l.span (· ≠ '.') = (l, []) := by
    rw [List.span_eq_takeWhile_dropWhile, List.takeWhile_eq_self_iff.mpr hdot,
      List.dropWhile_eq_nil_iff.mpr hdot]
  simp only [float, hspan, List.tail_nil, List.append_nil, List.length_nil, pow_zero, div_one]
  rfl

theorem float_point {R : Type} [Field R] {l l' : List Char} (h : ∀ c ∈ l, isDigit c) :
    (float (l ++ '.' :: l') : R) = decimal (l ++ l') / 10 ^ l'.length := by
  have hdot : ∀ c ∈ l, decide (c ≠ '.') := fun c hc => decide_eq_true fun e => by
    simpa [e, not_isDigit_of_mem] using h c hc
  have hspan : (l ++ '.' :: l').span (· ≠ '.') = (l, '.' :: l') := by
    rw [List.span_eq_takeWhile_dropWhile, List.takeWhile_append_of_pos hdot,
      List.dropWhile_append_of_pos hdot]
    simp
  simp only [float, hspan, List.tail_cons]
  rfl

theorem valueOf_span {R : Type} [Field R] [CharZero R] (hr : r.Valid) :
    (valueOf r.span : R) = r.numeral.value := by
  have hdigits : ∀ c ∈ r.numeral.whole.filter isDigit, isDigit c := fun c hc =>
    (List.mem_filter.mp hc).right
  rw [valueOf, withoutCommas_span hr, Numeral.value]
  split
  case isTrue hf =>
    rw [List.append_nil, float_digits hdigits, List.isEmpty_iff.mp hf]
    simp [decimal]
  case isFalse =>
    have hten : (10 : R) ^ r.numeral.fraction.length ≠ 0 := pow_ne_zero _ (by norm_num)
    rw [float_point hdigits, decimal_append]
    push_cast
    field_simp

theorem isdigit_span (hr : r.Valid) :
    isdigit (withoutCommas r.span.text) ↔ r.numeral.fraction = [] := by
  have hdigits : (r.numeral.whole.filter isDigit).all isDigit := by simp
  have hfirst : (r.numeral.whole.filter isDigit).isEmpty = false := by
    obtain ⟨c, hc, hd⟩ := Option.any_eq_true _ _ |>.mp hr.numeral.digit
    exact List.isEmpty_eq_false_iff_exists_mem.mpr
      ⟨c, List.mem_filter.mpr ⟨List.mem_of_head? hc, hd⟩⟩
  rw [withoutCommas_span hr]
  split
  case isTrue hf => simp [isdigit, hfirst, hdigits, List.isEmpty_iff.mp hf]
  case isFalse hf =>
    have hdot : isDigit '.' = false := not_isDigit_of_mem (by simp)
    simp_all [isdigit]

end Reading

end

section Collection

variable {R : Type} [Field R] [LinearOrder R] [FloorRing R]

def metricNumbers : String × Value R → List (KnownNumber R)
  | (k, v) =>
    match v.number? with
    | none   => []
    | some x => ⟨k, x⟩ :: if 0 ≤ x ∧ x ≤ 1 then [⟨k ++ "_pct", roundTo 4 (x * 100)⟩] else []

-- The numbers that are collected from a context, in the order in which they are.
def contextNumbers (context : Context R) : List (KnownNumber R) :=
  context.metrics.flatMap metricNumbers ++
    context.audienceSize.number?.toList.map (⟨"audience_size", ·⟩) ++
    ["count", "mean", "max", "min"].filterMap fun k =>
      (context.engagementScoreSample.lookup k).bind Value.number? |>.map
        (⟨"engagement_sample_" ++ k, ·⟩)

-- No number that is collected later has the name.
def Kept (context : Context R) (kv : KnownNumber R) : Prop :=
  (contextNumbers context).reverse.find? (·.name = kv.name) = some kv

instance (context : Context R) (kv : KnownNumber R) : Decidable (Kept context kv) :=
  inferInstanceAs <| Decidable (_ = _)

theorem extractContextNumbers_eq (context : Context R) :
    extractContextNumbers context = (contextNumbers context).foldl Table.upsert ∅ := by
  have hmetric (known : Table (KnownNumber R)) (kv : String × Value R) :
      (metricNumbers kv).foldl Table.upsert known =
        match kv.2.number? with
        | none   => known
        | some x =>
          if 0 ≤ x ∧ x ≤ 1 then
            (known.upsert ⟨kv.1, x⟩).upsert ⟨kv.1 ++ "_pct", roundTo 4 (x * 100)⟩
          else
            known.upsert ⟨kv.1, x⟩ := by
    obtain ⟨k, v⟩ := kv
    cases hv : v.number?
    case none   => simp [metricNumbers, hv]
    case some x => by_cases hx : 0 ≤ x ∧ x ≤ 1 <;> simp [metricNumbers, hv, hx]
  simp only [contextNumbers, List.foldl_append, List.foldl_flatMap, List.foldl_map,
    List.foldl_filterMap, hmetric]
  simp only [extractContextNumbers]
  congr 1
  case e_f =>
    funext known k
    cases (context.engagementScoreSample.lookup k).bind Value.number? <;> rfl
  case e_init =>
    cases context.audienceSize.number? <;> rfl

theorem mem_extractContextNumbers {context : Context R} {kv : KnownNumber R} :
    kv ∈ extractContextNumbers context ↔ Kept context kv := by
  rw [Table.mem_iff_get, extractContextNumbers_eq, Table.get_upserts, Table.get_empty,
    Option.or_none]
  rfl

theorem withinPct_iff {context : Context R} {x : R} :
    withinPct x (extractContextNumbers context) ↔
      ∃ kv, Kept context kv ∧ |x - kv.value| ≤ pctTolerancePp := by
  simp [withinPct, mem_extractContextNumbers]

theorem withinAbs_iff {context : Context R} {x : R} :
    withinAbs x (extractContextNumbers context) ↔
      ∃ kv, Kept context kv ∧ |x - kv.value| ≤ max (1 / 100) (absRelTolerance * |kv.value|) := by
  simp [withinAbs, mem_extractContextNumbers]

end Collection

section Rounding

variable {R : Type} [Field R] [LinearOrder R] [IsStrictOrderedRing R] [FloorRing R]

-- Every rounding of a percentage is near enough to the one that is kept.
theorem near_roundTo {value y : R} (h : |value - y| ≤ 1 / 2) :
    |value - roundTo 4 y| ≤ pctTolerancePp := by
  have hround := abs_sub_roundTo 4 y
  calc |value - roundTo 4 y|
      ≤ |value - y| + |y - roundTo 4 y| := abs_sub_le _ _ _
    _ ≤ 1 / 2 + 1 / 2 / 10 ^ 4          := add_le_add h hround
    _ ≤ pctTolerancePp                  := by norm_num [pctTolerancePp]

end Rounding

section Sign

variable [Unicode] {R : Type} [Field R] [LinearOrder R] [IsStrictOrderedRing R]

theorem Numeral.value_nonneg (n : Numeral) : (0 : R) ≤ n.value := by
  unfold Numeral.value
  positivity

-- The guard does not see the sign.
theorem Restatement.abs_value (r : Restatement) : (r.numeral.value : R) = |r.value| := by
  have hn := r.numeral.value_nonneg (R := R)
  unfold Restatement.value
  split
  case isTrue  => rw [abs_neg, abs_of_nonneg hn]
  case isFalse => rw [abs_of_nonneg hn]

end Sign

section Completeness

variable [Unicode] [Runtime] {R : Type} [Field R] [LinearOrder R] [IsStrictOrderedRing R]
         [FloorRing R] [FloatRepr R] {context : Context R} {r : Restatement}

-- What the guard accepts a percentage `x` for in the text of `r`.
inductive AdmittedRate (context : Context R) (r : Restatement) (x : R) : Prop
  | near (kv) (kept : Kept context kv) (near : |x - kv.value| ≤ pctTolerancePp)
  | delta (small : x ≤ maxTargetDeltaPct) (delta : deltaRe.search r.text)
    (verb : hasDirectionalVerb <| String.ofList r.text)

-- What the guard accepts a plain number `x` for that is written as in `r`.
inductive AdmittedFigure (context : Context R) (r : Restatement) (x : R) : Prop
  | near (kv) (kept : Kept context kv) (near : |x - kv.value| ≤ max (1 / 100) (absRelTolerance * |kv.value|))
  | count (integer : r.numeral.fraction = []) (lower : 1 ≤ x) (upper : x ≤ 12)
  | window (unit : timeUnitRe.matchStart r.span.stop.after)

-- What comes after a comma is accepted too, where it is judged on its own.
def TailAdmitted (context : Context R) (r : Restatement) : Prop :=
  ∀ t ∈ r.tail, AdmittedRate context r (valueOf t : R)

-- What the guard accepts a number `x` for that is written as in `r`. After a point it takes a
-- percentage for a plain number.
inductive Admitted (context : Context R) (r : Restatement) (x : R) : Prop
  | rate (attached : r.attached) (free : r.pointed = false) (rate : AdmittedRate context r x)
  | figure (detached : r.attached = false) (figure : AdmittedFigure context r x)
  | pointed (attached : r.attached) (pointed : r.pointed) (figure : AdmittedFigure context r x)
    (tail : TailAdmitted context r)

omit [Runtime] in
theorem saw_point (r : Restatement) : r.span.start.saw (· = '.') = r.pointed := by
  simp only [Restatement.span, Restatement.start, Cursor.saw, List.head?_reverse, Restatement.pointed]

omit [Runtime] in
theorem percentage_span (r : Restatement) : percentage r.span =
    if r.attached ∧ r.pointed = false then some r.span else r.tail := by
  have hpoint := saw_point r
  simp only [percentage, Restatement.tail, Restatement.attached, hpoint]
  by_cases ha : percent r.span.stop <;> by_cases hp : r.pointed <;> simp_all [Restatement.span]

omit [IsStrictOrderedRing R] [FloatRepr R] in
theorem acceptsPercentage_iff {m : Span Char} :
    AcceptsPercentage (extractContextNumbers context) (String.ofList r.text) m ↔
      AdmittedRate context r (valueOf m : R) := by
  rw [AcceptsPercentage, withinPct_iff, String.toList_ofList]
  constructor
  case mp =>
    rintro (⟨kv, kept, near⟩ | ⟨small, delta, verb⟩)
    · exact .near kv kept near
    · exact .delta small delta verb
  case mpr =>
    intro h
    cases h
    case near kv kept near       => exact .inl ⟨kv, kept, near⟩
    case delta small delta verb  => exact .inr ⟨small, delta, verb⟩

omit [Runtime] [IsStrictOrderedRing R] [FloatRepr R] in
theorem acceptsNumber_iff (hr : r.Valid) :
    AcceptsNumber (extractContextNumbers context) r.span ↔
      AdmittedFigure context r (r.numeral.value : R) := by
  rw [AcceptsNumber, valueOf_span hr, withinAbs_iff, isdigit_span hr]
  constructor
  case mp =>
    rintro (unit | ⟨integer, lower, upper⟩ | ⟨kv, kept, near⟩)
    · exact .window unit
    · exact .count integer lower upper
    · exact .near kv kept near
  case mpr =>
    intro h
    cases h
    case window unit               => exact .inl unit
    case count integer lower upper => exact .inr <| .inl ⟨integer, lower, upper⟩
    case near kv kept near         => exact .inr <| .inr ⟨kv, kept, near⟩

omit [IsStrictOrderedRing R] [FloatRepr R] in
-- Both passes accept what they find of the number.
theorem not_refused_passes (hr : r.Valid) :
    ¬Refused (extractContextNumbers context) (String.ofList r.text) r.span ↔
      (∀ p ∈ percentage r.span, AdmittedRate context r (valueOf p : R)) ∧
        (plain r.span → AdmittedFigure context r (r.numeral.value : R)) := by
  constructor
  case mp =>
    intro h
    constructor
    case left =>
      intro p hp
      refine acceptsPercentage_iff.mp ?_
      by_contra refused
      exact h (.percentage p hp refused)
    case right =>
      intro hplain
      refine (acceptsNumber_iff hr).mp ?_
      by_contra refused
      exact h (.number hplain refused)
  case mpr =>
    rintro ⟨hpct, hnum⟩ hrefused
    cases hrefused
    case percentage p found refused => exact refused <| acceptsPercentage_iff.mpr (hpct p found)
    case number plain refused       => exact refused <| (acceptsNumber_iff hr).mpr (hnum plain)

omit [IsStrictOrderedRing R] [FloatRepr R] in
theorem not_refused_iff (hr : r.Valid) :
    ¬Refused (extractContextNumbers context) (String.ofList r.text) r.span ↔
      Admitted context r (r.numeral.value : R) := by
  have hvalue := valueOf_span (R := R) hr
  have hplain : plain r.span = (!r.attached || r.pointed) := by
    rw [plain, saw_point, Restatement.attached]
  rw [not_refused_passes hr, percentage_span, hplain]
  cases ha : r.attached
  case false =>
    have htail : r.tail = none := by simp [Restatement.tail, ha]
    constructor
    case mp  => exact fun h => .figure ha (h.right rfl)
    case mpr =>
      intro h
      cases h
      case figure detached figure => exact ⟨by simp [htail], fun _ => figure⟩
      all_goals simp_all
  case true =>
    cases hp : r.pointed
    case false =>
      constructor
      case mp  => exact fun h => .rate ha hp (hvalue ▸ h.left r.span rfl)
      case mpr =>
        intro h
        cases h
        case rate attached free rate =>
          refine ⟨fun p hm => ?_, by simp⟩
          cases Option.mem_some.mp hm
          exact hvalue.symm ▸ rate
        all_goals simp_all
    case true =>
      constructor
      case mp  => exact fun h => .pointed ha hp (h.right rfl) h.left
      case mpr =>
        intro h
        cases h
        case pointed attached pointed figure tail => exact ⟨tail, fun _ => figure⟩
        all_goals simp_all

omit [IsStrictOrderedRing R] in
theorem verifyGrounding_restatement (hr : r.Valid) :
    (verifyGrounding [String.ofList r.text] context).1 ↔
      Admitted context r (r.numeral.value : R) := by
  rw [← not_refused_iff hr, verifyGrounding_iff]
  simp [literals_text hr]

omit [Runtime] [FloatRepr R] in
-- A number that is kept in the context is near itself.
theorem AdmittedFigure.of_kept {kv : KnownNumber R} (hk : Kept context kv) :
    AdmittedFigure context r kv.value :=
  .near kv hk (by simp)

omit [FloatRepr R] in
theorem Admitted.of_kept {kv : KnownNumber R} (hk : Kept context kv) (ht : TailAdmitted context r) :
    Admitted context r kv.value := by
  cases ha : r.attached
  case false => exact .figure ha (.of_kept hk)
  case true  =>
    cases hp : r.pointed
    case false => exact .rate ha hp (.near kv hk (by simp [pctTolerancePp]))
    case true  => exact .pointed ha hp (.of_kept hk) ht

-- A number of the context that is restated is accepted just if it is not negative and kept, or if
-- its magnitude happens to be admitted; and likewise the percentage of a metric, unless a point comes
-- right before it.
theorem grounding_complete_iff (context : Context R) (r : Restatement) (hr : r.Valid) :
    (∀ kv ∈ contextNumbers context, r.value = kv.value →
      ((verifyGrounding [String.ofList r.text] context).1 ↔
        (0 ≤ kv.value ∧ Kept context kv ∧ TailAdmitted context r) ∨ Admitted context r |kv.value|)) ∧
    (∀ k v x, (k, v) ∈ context.metrics → v.number? = some x → 0 ≤ x → x ≤ 1 →
      r.negative = false → r.attached → |r.value - x * 100| ≤ 1 / 2 →
      ((verifyGrounding [String.ofList r.text] context).1 ↔
        (r.pointed = false ∧ Kept context ⟨k ++ "_pct", roundTo 4 (x * 100)⟩) ∨
          Admitted context r (r.value : R))) := by
  rw [verifyGrounding_restatement hr]
  constructor
  case left =>
    intro kv _ hvalue
    rw [r.abs_value, hvalue]
    refine ⟨.inr, ?_⟩
    rintro (⟨hv, hk, ht⟩ | h)
    · exact (abs_of_nonneg hv).symm ▸ .of_kept hk ht
    · exact h
  case right =>
    intro k v x _ _ _ _ hn ha hnear
    have hvalue : (r.value : R) = r.numeral.value := by simp [Restatement.value, hn]
    rw [← hvalue]
    refine ⟨.inr, ?_⟩
    rintro (⟨hp, hk⟩ | h)
    · exact .rate ha hp (.near _ hk (near_roundTo hnear))
    · exact h

end Completeness

section Example

open Ascii EpochDay

-- "Mean engagement is -12.5."
def negativeMean : Restatement where
  before   := "Mean engagement is ".toList
  negative := true
  currency := none
  numeral  := ⟨"12".toList, "5".toList⟩
  after    := ".".toList

-- "Target the 5,000 users."
def audienceOf5000 : Restatement where
  before   := "Target the ".toList
  negative := false
  currency := none
  numeral  := ⟨"5,000".toList, []⟩
  after    := " users.".toList

-- "Open rate: 15.0%"
def openRateOf15 : Restatement where
  before   := "Open rate: ".toList
  negative := false
  currency := none
  numeral  := ⟨"15".toList, "0".toList⟩
  after    := "%".toList

-- "Open rate is approx.15% now"
def approximately15 : Restatement where
  before   := "Open rate is approx.".toList
  negative := false
  currency := none
  numeral  := ⟨"15".toList, []⟩
  after    := "% now".toList

def disengaged : Context ℚ where
  metrics               := [("open_rate", .float (15 / 100))]
  audienceSize          := .int 5000
  engagementScoreSample := [
    ("count", .int 2), ("mean", .float (-25 / 2)), ("max", .float (-5)), ("min", .float (-20))
  ]

theorem Restatement.valid_of_all {r : Restatement}
    (h : (r.numeral.whole.head?.any isDigit && r.numeral.whole.all isNumeral &&
      r.numeral.fraction.all isDigit && r.front.all (!isDigit ·) && r.after.all (!isDigit ·)) = true) :
    r.Valid := by
  simp only [Bool.and_eq_true, List.all_eq_true, Bool.not_eq_eq_eq_not, Bool.not_true] at h
  obtain ⟨⟨⟨⟨digit, whole⟩, fraction⟩, front⟩, after⟩ := h
  exact ⟨⟨digit, whole, fraction⟩, front, after⟩

theorem grounding_complete_iff_openRate :
    (verifyGrounding [String.ofList audienceOf5000.text] disengaged).1 ∧
      (verifyGrounding [String.ofList openRateOf15.text] disengaged).1 ∧
      (verifyGrounding [String.ofList approximately15.text] disengaged).1 := by
  refine ⟨?_, ?_, ?_⟩
  case refine_1 =>
    have hv : audienceOf5000.Valid := Restatement.valid_of_all (by decide +kernel)
    have ht : audienceOf5000.tail = none := by decide +kernel
    refine (grounding_complete_iff disengaged audienceOf5000 hv).left ⟨"audience_size", 5000⟩ ?_ ?_
      |>.mpr (.inl ⟨?_, ?_, by simp [TailAdmitted, ht]⟩)
    all_goals decide +kernel
  case refine_2 =>
    have hv : openRateOf15.Valid := Restatement.valid_of_all (by decide +kernel)
    refine (grounding_complete_iff disengaged openRateOf15 hv).right "open_rate"
      (.float (15 / 100)) (15 / 100) List.mem_cons_self rfl ?_ ?_ ?_ ?_ ?_ |>.mpr (.inl ⟨?_, ?_⟩)
    all_goals decide +kernel
  case refine_3 =>
    have hv : approximately15.Valid := Restatement.valid_of_all (by decide +kernel)
    have ht : approximately15.tail = none := by decide +kernel
    -- The percentage is taken for a figure, which is exact enough here.
    refine (grounding_complete_iff disengaged approximately15 hv).right "open_rate"
      (.float (15 / 100)) (15 / 100) List.mem_cons_self rfl ?_ ?_ ?_ ?_ ?_
      |>.mpr (.inr (.pointed ?_ ?_ (.near ⟨"open_rate_pct", 15⟩ ?_ ?_) (by simp [TailAdmitted, ht])))
    all_goals decide +kernel

example :
    let context : Context ℚ := { disengaged with metrics := [("open_rate", .float (146 / 1000))] }
    (verifyGrounding [String.ofList approximately15.text] context).1 = false := by
  decide +kernel

-- The number of a negative mean is read without its sign.
theorem negative_mean_refused :
    ¬((∀ (context : Context ℚ) (r : Restatement), r.Valid → ∀ kv ∈ contextNumbers context,
        r.value = kv.value → (verifyGrounding [String.ofList r.text] context).1) ∧
      ∀ (context : Context ℚ) (r : Restatement), r.Valid → ∀ k v x, (k, v) ∈ context.metrics →
        v.number? = some x → 0 ≤ x → x ≤ 1 → r.negative = false → r.attached →
          |r.value - x * 100| ≤ 1 / 2 → (verifyGrounding [String.ofList r.text] context).1) := by
  rintro ⟨h, _⟩
  have hv : negativeMean.Valid := Restatement.valid_of_all (by decide +kernel)
  have := h disengaged negativeMean hv ⟨"engagement_sample_mean", -25 / 2⟩ (by decide +kernel)
    (by decide +kernel)
  revert this
  decide +kernel

end Example
end MarTech
