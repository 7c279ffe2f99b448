import MarTech.AI.Theorems.Literals
import MarTech.AI.Ascii
import MarTech.Domain.EpochDay

namespace MarTech

open Regex Unicode

section Windows

variable [Unicode] {h h' : Hit Char}

def isGap (c : Char) : Bool :=
  c = '-' || isSpace c

theorem isGap_of_isSpace {c : Char} (h : isSpace c) : isGap c := by
  simp [isGap, h]

theorem not_isWord_of_isGap {c : Char} (h : isGap c) : isWord c = false := by
  simp only [isGap, Bool.or_eq_true, decide_eq_true_eq] at h
  cases h
  case inl h => exact h ▸ not_isWord_of_mem (by simp)
  case inr h => exact isSpace_not_word c h

-- What `_TIME_UNIT_RE` allows before the unit.
theorem mem_run_gap (hm : h' ∈ (many (alt (char '-') (sat isSpace))).run h) :
    h'.cursor.skipWhile isGap = h.cursor.skipWhile isGap := by
  refine mem_run_many (I := fun h h' => h'.cursor.skipWhile isGap = h.cursor.skipWhile isGap)
    ?_ ?_ hm
  case refine_1 => exact fun _ => rfl
  case refine_2 =>
    intro h m h' hm hi
    rw [hi]
    cases List.mem_append.mp hm
    case inl hm =>
      obtain ⟨hs, e⟩ := mem_run_sat hm
      exact e ▸ Cursor.skipWhile_next (Cursor.sees_imp (by simp [isGap]) hs)
    case inr hm =>
      obtain ⟨hs, e⟩ := mem_run_sat hm
      exact e ▸ Cursor.skipWhile_next (Cursor.sees_imp (fun _ => isGap_of_isSpace) hs)

omit [Unicode] in
theorem timeUnits_head {w : String} (h : w ∈ timeUnits) :
    ∃ l ∈ ['d', 'w', 'h', 'm', 'y', 's'], ∃ ls, w.toList = l :: ls := by
  have hall : ∀ w ∈ timeUnits, w.toList.head?.any (· ∈ ['d', 'w', 'h', 'm', 'y', 's']) := by decide
  obtain ⟨l, hl, hm⟩ := Option.any_eq_true _ _ |>.mp (hall w h)
  obtain ⟨ls, e⟩ := List.head?_eq_some_iff.mp hl
  exact ⟨l, by simpa using hm, ls, e⟩

theorem mem_run_timeUnit (hm : h' ∈ (oneOf (timeUnits.map word)).run h) : h.cursor.sees isWord := by
  obtain ⟨r, hr, hm⟩ := mem_run_oneOf (by simp [timeUnits]) hm
  obtain ⟨w, hw, e⟩ := List.mem_map.mp hr
  obtain ⟨l, hl, ls, hls⟩ := timeUnits_head hw
  subst e
  simp only [word, hls, List.map_cons] at hm
  obtain ⟨m, hm, _⟩ := mem_run_concat hm
  obtain ⟨hs, _⟩ := mem_run_sat hm
  exact Cursor.sees_imp (ignoreCase_isWord l hl) hs

-- A percent sign is no time unit.
theorem not_timeUnit {c : Cursor Char} (hp : percent c) :
    timeUnitRe.matchStart c.after = false := by
  have hp : percent (.atStart c.after) := hp
  simp only [matchStart]
  generalize Cursor.atStart c.after = c at hp
  have hgap : (c.skipWhile isSpace).sees isGap = false :=
    Cursor.not_sees_of_sees (by simp [isGap, not_isSpace_of_mem]) hp
  have hskip : c.skipWhile isGap = c.skipWhile isSpace := by
    rw [← Cursor.skipWhile_skipWhile (fun _ => isGap_of_isSpace), Cursor.skipWhile_of_not_sees hgap]
  have hfirst : timeUnitRe.first c = none := by
    apply first_eq_none
    intro h' hm
    simp only [timeUnitRe, concat, mem_run_seq] at hm
    obtain ⟨m₁, hm₁, m₂, hm₂, m₃, hm₃, m₄, hm₄, _⟩ := hm
    have hword := mem_run_timeUnit hm₄
    have hgap := Cursor.not_sees_of_sees (q := isGap) (fun x hx => Bool.eq_false_iff.mpr fun hg => by
      simp [not_isWord_of_isGap hg] at hx) hword
    have e₁ : m₁.cursor = c := by
      simp only [run] at hm₁
      split at hm₁ <;> simp_all
    have e₂ := congrArg (Cursor.skipWhile isGap) (mem_run_many_sat hm₂)
    simp only [Cursor.skipWhile_skipWhile fun _ => isGap_of_isSpace] at e₂
    have e₃ := mem_run_gap hm₃
    rw [Cursor.skipWhile_of_not_sees hgap, e₂, e₁, hskip] at e₃
    have := Cursor.not_sees_of_sees (q := isWord) (by simp [not_isWord_of_mem]) hp
    simp_all
  simp [hfirst]

end Windows

section Classes

variable [Unicode] {R : Type} [Field R] [LinearOrder R] [FloorRing R]

def valueOf (m : Span Char) : R :=
  float (withoutCommas m.text)

-- Whether "by" and spaces come right before the literal.
def introduced (rec : String) (m : Span Char) : Bool :=
  Cursor.positions rec.toList |>.any fun c => (byRe.run ⟨c, none⟩).any (·.cursor = m.start)

theorem saw_of_introduced {rec : String} {m : Span Char} (h : introduced rec m) :
    m.start.saw isSpace := by
  simp only [introduced, List.any_eq_true, decide_eq_true_eq] at h
  obtain ⟨_, _, h', hm, e⟩ := h
  simp only [byRe, concat, mem_run_seq] at hm
  obtain ⟨_, _, _, _, hm⟩ := hm
  exact e ▸ mem_run_plus_sat hm

-- A literal that is no percentage, or that follows a point, is judged as a plain number.
def plain (m : Span Char) : Bool :=
  !percent m.stop || m.start.saw (· = '.')

variable [Runtime] (known : Table (KnownNumber R)) (rec : String)

-- The closed classes of numbers that count as grounded.
inductive Grounded (m : Span Char) : Prop
  | percentage (attached : percent m.stop) (near : withinPct (valueOf m : R) known)
  | figure (detached : percent m.stop = false) (near : withinAbs (valueOf m : R) known)
  | delta (attached : percent m.stop) (small : (valueOf m : R) ≤ maxTargetDeltaPct)
    (introduced : introduced rec m) (verb : hasDirectionalVerb rec)
  | count (detached : percent m.stop = false) (integer : isdigit (withoutCommas m.text))
    (lower : 1 ≤ (valueOf m : R)) (upper : (valueOf m : R) ≤ 12)
  | window (unit : timeUnitRe.matchStart m.stop.after)

def AcceptsPercentage (m : Span Char) : Prop :=
  withinPct (valueOf m : R) known ∨
    (valueOf m : R) ≤ maxTargetDeltaPct ∧ deltaRe.search rec.toList ∧ hasDirectionalVerb rec

def AcceptsNumber (m : Span Char) : Prop :=
  timeUnitRe.matchStart m.stop.after ∨
    (isdigit (withoutCommas m.text) ∧ 1 ≤ (valueOf m : R) ∧ (valueOf m : R) ≤ 12) ∨
    withinAbs (valueOf m : R) known

-- The literals that are noted: the percentages in them, and those that are plain numbers.
inductive Refused (m : Span Char) : Prop
  | percentage (p) (found : percentage m = some p) (refused : ¬AcceptsPercentage known rec p)
  | number (plain : plain m) (refused : ¬AcceptsNumber known m)

-- The literals that are accepted though they are in no class.
inductive Leaked (m : Span Char) : Prop
  -- A percentage takes the exemption of another one, which "by" introduces.
  | borrowed (attached : percent m.stop) (plain : plain m = false)
    (far : withinPct (valueOf m : R) known = false) (small : (valueOf m : R) ≤ maxTargetDeltaPct)
    (delta : deltaRe.search rec.toList) (verb : hasDirectionalVerb rec)
    (unintroduced : introduced rec m = false)
  -- A percentage that follows a point is taken for a count or for a figure.
  | misread (attached : percent m.stop) (plain : plain m)
    (far : withinPct (valueOf m : R) known = false) (accepted : AcceptsNumber known m)

end Classes

section Soundness

variable [Unicode] [Runtime] {R : Type} [Field R] [LinearOrder R] [FloorRing R] [FloatRepr R]
         {known : Table (KnownNumber R)} {rec : String} {m : Span Char}

omit [FloorRing R] in
theorem judgePercentage_eq_none :
    judgePercentage known rec m = none ↔ AcceptsPercentage known rec m := by
  simp only [judgePercentage, AcceptsPercentage, valueOf]
  split
  case isTrue h  => simp [h]
  case isFalse h =>
    split
    case isTrue h'  => simp [h']
    case isFalse h' => simp [h, h']

omit [Runtime] [FloorRing R] [FloatRepr R] in
theorem judgeNumber_eq_none {spans : List (Span Char)} :
    judgeNumber known spans m = none ↔
      (∃ p ∈ spans, p.start.index ≤ m.start.index ∧ m.start.index < p.stop.index) ∨
        AcceptsNumber known m := by
  simp only [judgeNumber, AcceptsNumber, valueOf, List.any_eq_true, decide_eq_true_eq]
  split
  case isTrue h  => simp [h]
  case isFalse h =>
    split
    case isTrue hunit  => simp [hunit]
    case isFalse hunit =>
      split
      case isTrue hcount  => simp [hcount]
      case isFalse hcount =>
        split
        case isTrue hnear  => simp [hnear]
        case isFalse hnear => simp [h, hunit, hcount, hnear]

omit [FloorRing R] in
theorem notesOn_eq_nil :
    notesOn known rec = [] ↔ ∀ m ∈ literals rec.toList, ¬Refused known rec m := by
  simp only [notesOn, List.append_eq_nil_iff, List.filterMap_eq_nil_iff, judgePercentage_eq_none,
    judgeNumber_eq_none, numRe_finditer]
  constructor
  case mp =>
    rintro ⟨hpct, hnum⟩ m hm hr
    cases hr
    case percentage p found refused =>
      exact refused <| hpct p <| pctRe_finditer _ ▸ List.mem_filterMap.mpr ⟨m, hm, found⟩
    case number plain refused =>
      obtain ⟨hp, hdot⟩ := covered_iff hm |>.mp <| (hnum m hm).resolve_right refused
      simp [MarTech.plain, hp, hdot] at plain
  case mpr =>
    intro h
    constructor
    case left =>
      intro p hp
      obtain ⟨m, hm, found⟩ := List.mem_filterMap.mp (pctRe_finditer _ ▸ hp)
      by_contra refused
      exact h m hm (.percentage p found refused)
    case right =>
      intro m hm
      by_cases hplain : plain m
      case pos =>
        refine .inr ?_
        by_contra refused
        exact h m hm (.number hplain refused)
      case neg =>
        refine .inl <| covered_iff hm |>.mpr ?_
        simpa [plain] using hplain

-- The guard refuses a recommendation for the literals in it, each on its own.
theorem verifyGrounding_iff {recommendations : List String} {context : Context R} :
    (verifyGrounding recommendations context).1 ↔ ∀ rec ∈ recommendations,
      ∀ m ∈ literals rec.toList, ¬Refused (extractContextNumbers context) rec m := by
  simp only [verifyGrounding, ← notesOn_eq_nil, ← List.flatMap_eq_nil_iff]
  split
  case isTrue h  => simpa using h
  case isFalse h => simpa using h

omit [FloorRing R] [FloatRepr R] in
theorem Grounded.not_leaked (h : Grounded known rec m) : ¬Leaked known rec m := by
  intro hl
  cases hl
  case borrowed attached plain far small delta verb unintroduced =>
    cases h
    case percentage near      => simp [far] at near
    case figure detached _    => simp [attached] at detached
    case delta introduced _   => simp [unintroduced] at introduced
    case count detached _ _ _ => simp [attached] at detached
    case window unit          => simp [not_timeUnit attached] at unit
  case misread attached plain far accepted =>
    cases h
    case percentage near      => simp [far] at near
    case figure detached _    => simp [attached] at detached
    case count detached _ _ _ => simp [attached] at detached
    case window unit          => simp [not_timeUnit attached] at unit
    case delta introduced _   =>
      have hspace := saw_of_introduced introduced
      have hdot : m.start.saw (· = '.') := by simpa [MarTech.plain, attached] using plain
      have := Cursor.not_saw_of_saw (q := isSpace) (by simp [not_isSpace_of_mem]) hdot
      simp [hspace] at this

omit [FloorRing R] [FloatRepr R] in
theorem grounded_of_accepted (hr : ¬Refused known rec m) (hl : ¬Leaked known rec m) :
    Grounded known rec m := by
  have hnumber (hplain : plain m) : AcceptsNumber known m := by
    by_contra refused
    exact hr (.number hplain refused)
  cases hp : percent m.stop
  case false =>
    cases hnumber (by simp [plain, hp])
    case inl hunit => exact .window hunit
    case inr h =>
      cases h
      case inl hcount => exact .count hp hcount.left hcount.right.left hcount.right.right
      case inr hnear  => exact .figure hp hnear
  case true =>
    cases hnear : withinPct (valueOf m : R) known
    case true  => exact .percentage hp hnear
    case false =>
      cases hplain : plain m
      case true  => exact absurd (.misread hp hplain hnear <| hnumber hplain) hl
      case false =>
        have hdot : m.start.saw (· = '.') = false := by simp_all [plain]
        have haccepts : AcceptsPercentage known rec m := by
          by_contra refused
          exact hr (.percentage m (by simp [percentage, hp, hdot]) refused)
        obtain ⟨small, delta, verb⟩ := haccepts.resolve_left (by simp [hnear])
        cases hby : introduced rec m
        case true  => exact .delta hp small hby verb
        case false => exact absurd (.borrowed hp hplain hnear small delta verb hby) hl

-- What the guard accepts is grounded just if it refuses anyway, or no number leaks.
theorem grounding_sound_iff (recommendations : List String) (context : Context R) :
    let known := extractContextNumbers context
    ((verifyGrounding recommendations context).1 →
      ∀ rec ∈ recommendations, ∀ m ∈ literals rec.toList, Grounded known rec m) ↔
    ((∃ rec ∈ recommendations, ∃ m ∈ literals rec.toList, Refused known rec m) ∨
      ∀ rec ∈ recommendations, ∀ m ∈ literals rec.toList, ¬Leaked known rec m) := by
  simp only [verifyGrounding_iff]
  constructor
  case mp =>
    intro h
    by_cases hr : ∃ rec ∈ recommendations, ∃ m ∈ literals rec.toList,
      Refused (extractContextNumbers context) rec m
    case pos => exact .inl hr
    case neg =>
      refine .inr fun rec hrec m hm => (h ?_ rec hrec m hm).not_leaked
      exact fun rec hrec m hm hrefused => hr ⟨rec, hrec, m, hm, hrefused⟩
  case mpr =>
    intro h haccepted rec hrec m hm
    cases h
    case inl h =>
      obtain ⟨rec, hrec, m, hm, hrefused⟩ := h
      exact absurd hrefused (haccepted rec hrec m hm)
    case inr h => exact grounded_of_accepted (haccepted rec hrec m hm) (h rec hrec m hm)

end Soundness

section Example

open Ascii EpochDay

def openRates : Context ℚ where
  metrics               := [("open_rate", .float (15 / 100))]
  audienceSize          := .int 5000
  engagementScoreSample := []

def twoPercentages : String :=
  "Increase open rate by 5%; complaints are at 9%."

-- The exemption of "by 5%" admits any other percentage up to 10.
theorem borrowed_delta_accepted :
    ¬∀ (recommendations : List String) (context : Context ℚ),
      (verifyGrounding recommendations context).1 →
        ∀ rec ∈ recommendations, ∀ m ∈ literals rec.toList,
          Grounded (extractContextNumbers context) rec m := by
  intro h
  have haccepted : (verifyGrounding [twoPercentages] openRates).1 := by decide +kernel
  have hleak : ∃ m ∈ literals twoPercentages.toList, percent m.stop ∧ plain m = false ∧
      withinPct (valueOf m : ℚ) (extractContextNumbers openRates) = false ∧
      (valueOf m : ℚ) ≤ maxTargetDeltaPct ∧ introduced twoPercentages m = false := by
    decide +kernel
  obtain ⟨m, hm, attached, plain, far, small, unintroduced⟩ := hleak
  refine (h _ _ haccepted _ (List.mem_singleton.mpr rfl) m hm).not_leaked ?_
  exact .borrowed attached plain far small (by decide +kernel) (by decide +kernel) unintroduced

end Example
end MarTech
