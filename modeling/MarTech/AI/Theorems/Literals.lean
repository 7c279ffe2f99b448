import MarTech.AI.GroundingGuard

namespace MarTech

variable [Unicode]

open Regex Unicode

section Characters

theorem isNumeral_of_isDigit {c : Char} (h : isDigit c) : isNumeral c := by
  simp [isNumeral, h]

theorem not_isDigit_of_mem {c : Char} (h : c ∈ ['.', ',', '%', '$', '-']) : isDigit c = false := by
  have := punctuation c h
  simp_all

theorem not_isSpace_of_mem {c : Char} (h : c ∈ ['.', ',', '%', '$', '-']) : isSpace c = false := by
  have := punctuation c h
  simp_all

theorem not_isWord_of_mem {c : Char} (h : c ∈ ['.', ',', '%', '$', '-']) : isWord c = false := by
  have := punctuation c h
  simp_all

-- The characters of a number.
def isLiteralPart (c : Char) : Bool :=
  isDigit c || c = ',' || c = '.'

theorem isLiteralPart_of_isNumeral {c : Char} (h : isNumeral c) : isLiteralPart c := by
  simp_all [isNumeral, isLiteralPart]

theorem not_isSpace_of_isLiteralPart {c : Char} (h : isLiteralPart c) : isSpace c = false := by
  simp only [isLiteralPart, Bool.or_eq_true, decide_eq_true_eq, or_assoc] at h
  obtain h | rfl | rfl := h
  · apply Bool.eq_false_iff.mpr
    intro hs
    simp [isSpace_not_digit c hs] at h
  · simp [not_isSpace_of_mem]
  · simp [not_isSpace_of_mem]

theorem ne_percent_of_isLiteralPart {c : Char} (h : isLiteralPart c) : c ≠ '%' := by
  intro e
  subst e
  simp [isLiteralPart, not_isDigit_of_mem] at h

theorem not_isNumeral_dot : isNumeral '.' = false := by
  simp [isNumeral, not_isDigit_of_mem]

end Characters

section Literals

-- Where the number ends that starts at a position.
def numberEnd (c : Cursor Char) : Cursor Char :=
  let whole := c.skipWhile isNumeral
  if whole.sees (· = '.') ∧ whole.next.sees isDigit then whole.next.skipWhile isDigit else whole

def literalAt (c : Cursor Char) : Option (Span Char × Cursor Char) :=
  if c.sees isDigit then some (⟨c, numberEnd c⟩, numberEnd c) else none

-- The numeric literals of a text, from left to right, each as long as it can be.
def literals (text : List Char) : List (Span Char) :=
  Cursor.scan literalAt (.atStart text)

theorem numberEnd_congr {c c' : Cursor Char} (h : c.skipWhile isNumeral = c'.skipWhile isNumeral) :
    numberEnd c = numberEnd c' := by
  simp [numberEnd, h]

theorem numberEnd_not_sees (c : Cursor Char) : (numberEnd c).sees isDigit = false := by
  simp only [numberEnd]
  split
  case isTrue  => exact Cursor.skipWhile_not_sees _
  case isFalse =>
    apply Cursor.not_sees_imp _ (Cursor.skipWhile_not_sees (p := isNumeral) c)
    exact fun _ => isNumeral_of_isDigit

end Literals

section Number

variable {h h' : Hit Char}

theorem mem_run_fraction (hm : h' ∈ fraction.run h) :
    h.cursor.sees (· = '.') ∧ h.cursor.next.sees isDigit ∧
      h'.cursor.skipWhile isDigit = h.cursor.next.skipWhile isDigit := by
  simp only [fraction, concat, plus, mem_run_seq] at hm
  obtain ⟨m₁, hm₁, m₂, hm₂, hm⟩ := hm
  obtain ⟨hdot, e₁⟩ := mem_run_sat hm₁
  obtain ⟨hd, e₂⟩ := mem_run_sat hm₂
  have e := mem_run_many_sat hm
  subst e₁ e₂
  exact ⟨hdot, hd, e.trans <| Cursor.skipWhile_next hd⟩

theorem head?_run_fraction (hdot : h.cursor.sees (· = '.')) (hd : h.cursor.next.sees isDigit) :
    (fraction.run h).head? = some { h with cursor := h.cursor.next.skipWhile isDigit } := by
  have hnext : Cursor.sees (Hit.cursor { h with cursor := h.cursor.next }) isDigit := hd
  rw [← Cursor.skipWhile_next hd]
  exact head?_run_seq (head?_run_sat hdot) <| head?_run_seq (head?_run_sat hnext) head?_run_many_sat

theorem run_fraction_of_not (hn : ¬(h.cursor.sees (· = '.') ∧ h.cursor.next.sees isDigit)) :
    fraction.run h = [] := by
  apply List.eq_nil_iff_forall_not_mem.mpr
  intro h' hm
  obtain ⟨hdot, hd, _⟩ := mem_run_fraction hm
  exact hn ⟨hdot, hd⟩

theorem numberEnd_next {c : Cursor Char} (hs : c.sees isDigit) : numberEnd c.next = numberEnd c :=
  numberEnd_congr <| Cursor.skipWhile_next <| Cursor.sees_imp (fun _ => isNumeral_of_isDigit) hs

-- The matcher tries the longest number first.
theorem head?_run_number (hs : h.cursor.sees isDigit) :
    (number.run h).head? = some { h with cursor := numberEnd h.cursor } := by
  rw [← numberEnd_next hs]
  refine head?_run_seq (head?_run_sat hs) <| head?_run_seq head?_run_many_sat ?_
  simp only [numberEnd]
  split
  case isTrue hf  => exact head?_run_alt <| head?_run_fraction hf.left hf.right
  case isFalse hf => exact head?_run_opt_of_nil <| run_fraction_of_not hf

-- The shorter ones that it falls back on stop in the middle of it.
theorem mem_run_number (hm : h' ∈ number.run h) :
    h.cursor.sees isDigit ∧
      (h'.cursor = numberEnd h.cursor ∨ h'.cursor.sees isLiteralPart) := by
  simp only [number, concat, mem_run_seq, mem_run_opt] at hm
  obtain ⟨m₁, hm₁, m₂, hm₂, hm⟩ := hm
  obtain ⟨hs, e₁⟩ := mem_run_sat hm₁
  have e₂ := mem_run_many_sat hm₂
  subst e₁
  refine ⟨hs, ?_⟩
  rw [← numberEnd_next hs]
  simp only [numberEnd, ← e₂]
  cases hn : m₂.cursor.sees isNumeral
  case true =>
    cases hm
    case inl hm =>
      obtain ⟨hdot, _⟩ := mem_run_fraction hm
      have := Cursor.not_sees_of_sees (q := isNumeral) (by simp [not_isNumeral_dot]) hdot
      simp [hn] at this
    case inr hm => exact .inr <| hm ▸ Cursor.sees_imp (fun _ => isLiteralPart_of_isNumeral) hn
  case false =>
    rw [Cursor.skipWhile_of_not_sees hn]
    cases hm
    case inl hm =>
      obtain ⟨hdot, hd, e⟩ := mem_run_fraction hm
      rw [if_pos ⟨hdot, hd⟩]
      cases hs' : h'.cursor.sees isDigit
      case true  => exact .inr <| Cursor.sees_imp (by simp_all [isLiteralPart]) hs'
      case false => exact .inl <| e ▸ (Cursor.skipWhile_of_not_sees hs').symm
    case inr hm =>
      split
      case isTrue hf => exact .inr <| hm ▸ Cursor.sees_imp (by simp [isLiteralPart]) hf.left
      case isFalse   => exact .inl (hm ▸ rfl)

end Number

section Percent

-- Whether a percent sign follows, after any spaces.
def percent (c : Cursor Char) : Bool :=
  c.skipWhile isSpace |>.sees (· = '%')

variable {h h' : Hit Char}

theorem mem_run_percentSign (hm : h' ∈ percentSign.run h) : percent h.cursor := by
  simp only [percentSign, concat, mem_run_seq] at hm
  obtain ⟨m, hm, hsign⟩ := hm
  obtain ⟨hs, _⟩ := mem_run_sat hsign
  have hn : m.cursor.sees isSpace = false :=
    Cursor.not_sees_of_sees (by simp [not_isSpace_of_mem]) hs
  rw [percent, ← mem_run_many_sat hm, Cursor.skipWhile_of_not_sees hn]
  exact hs

theorem head?_run_percentSign (hp : percent h.cursor) :
    (percentSign.run h).head? = some { h with cursor := (h.cursor.skipWhile isSpace).next } :=
  head?_run_seq head?_run_many_sat <| head?_run_sat hp

-- A number that stops too early is not followed by a percent sign.
theorem not_percent {c : Cursor Char} (h : c.sees isLiteralPart) : percent c = false := by
  have hn := Cursor.not_sees_of_sees (fun _ => not_isSpace_of_isLiteralPart) h
  rw [percent, Cursor.skipWhile_of_not_sees hn]
  exact Cursor.not_sees_of_sees (by simpa using fun _ => ne_percent_of_isLiteralPart) h

end Percent

section Matches

variable {c : Cursor Char}

theorem pctRe_first (hb : c.saw isNumberPart = false) (hs : c.sees isDigit)
    (hp : percent (numberEnd c)) :
    pctRe.first c = some ⟨(numberEnd c |>.skipWhile isSpace).next, some ⟨c, numberEnd c⟩⟩ := by
  refine head?_run_seq (m := ⟨c, none⟩) (by simp [run, hb]) ?_
  exact head?_run_seq (head?_run_group <| head?_run_number hs) <| head?_run_percentSign hp

theorem pctRe_first_eq_none (h : c.saw isNumberPart ∨ c.sees isDigit = false ∨
    percent (numberEnd c) = false) : pctRe.first c = none := by
  apply first_eq_none
  intro h' hm
  simp only [pctRe, concat, mem_run_seq] at hm
  obtain ⟨m₁, hm₁, m₂, hm₂, hm⟩ := hm
  obtain ⟨hb, e₁⟩ := mem_run_notBehind hm₁
  obtain ⟨m, hm₂, e₂⟩ := mem_run_group hm₂
  obtain ⟨hs, hn⟩ := mem_run_number hm₂
  have hp := mem_run_percentSign hm
  subst e₁
  cases hn
  case inl hn => simp_all
  case inr hn => simp [e₂, not_percent hn] at hp

-- Where the number starts that `_NUM_RE` looks for.
def numberStart (c : Cursor Char) : Cursor Char :=
  (if c.sees (· = '$') then c.next else c).skipWhile isSpace

theorem numRe_first (hs : (numberStart c).sees isDigit) :
    numRe.first c =
      some ⟨numberEnd (numberStart c), some ⟨numberStart c, numberEnd (numberStart c)⟩⟩ := by
  refine head?_run_seq (m := ⟨if c.sees (· = '$') then c.next else c, none⟩) ?_ ?_
  case refine_1 =>
    split
    case isTrue hd  => exact head?_run_alt (head?_run_sat hd)
    case isFalse hd => exact head?_run_opt_of_nil (run_sat_of_not_sees <| Bool.eq_false_iff.mpr hd)
  case refine_2 =>
    exact head?_run_seq head?_run_many_sat <| head?_run_group <| head?_run_number hs

theorem numRe_first_eq_none (hs : (numberStart c).sees isDigit = false) :
    numRe.first c = none := by
  apply first_eq_none
  intro h' hm
  simp only [numRe, concat, mem_run_seq, mem_run_opt] at hm
  obtain ⟨m₁, hm₁, m₂, hm₂, hm⟩ := hm
  obtain ⟨m, hm, _⟩ := mem_run_group hm
  have hd := mem_run_number hm |>.left
  have hspace : m₂.cursor.sees isSpace = false :=
    Cursor.not_sees_of_sees (fun x hx => Bool.eq_false_iff.mpr fun hs => by
      simp [isSpace_not_digit x hs] at hx) hd
  have e₂ := mem_run_many_sat hm₂
  rw [Cursor.skipWhile_of_not_sees hspace] at e₂
  rw [e₂] at hd
  cases hm₁
  case inl hm₁ =>
    obtain ⟨hdollar, e₁⟩ := mem_run_sat hm₁
    simp_all [numberStart]
  case inr e₁ =>
    cases hdollar : c.sees (· = '$')
    case false => simp_all [numberStart]
    case true  =>
      have hn := Cursor.not_sees_of_sees (q := isSpace) (by simp [not_isSpace_of_mem]) hdollar
      have hn' := Cursor.not_sees_of_sees (q := isDigit) (by simp [not_isDigit_of_mem]) hdollar
      rw [e₁, Cursor.skipWhile_of_not_sees hn] at hd
      simp [hn'] at hd

end Matches

section Progress

theorem length_numberEnd_le (c : Cursor Char) :
    (numberEnd c).after.length ≤ c.after.length := by
  have hw := Cursor.length_skipWhile_le (p := isNumeral) c
  simp only [numberEnd]
  split
  case isFalse => exact hw
  case isTrue  =>
    have hn := Cursor.length_next_le (c.skipWhile isNumeral)
    exact Cursor.length_skipWhile_le _ |>.trans (hn.trans hw)

theorem length_numberEnd {c : Cursor Char} (hs : c.sees isDigit) :
    (numberEnd c).after.length < c.after.length := by
  have hn := Cursor.length_next hs
  have hle := length_numberEnd_le c.next
  rw [numberEnd_next hs] at hle
  omega

theorem index_numberEnd (c : Cursor Char) :
    (numberEnd c).index + (numberEnd c).after.length = c.index + c.after.length := by
  have hw := Cursor.index_skipWhile (p := isNumeral) c
  simp only [numberEnd]
  split
  case isFalse => exact hw
  case isTrue  =>
    have hn := Cursor.index_next (c.skipWhile isNumeral)
    exact Cursor.index_skipWhile _ |>.trans (hn.trans hw)

theorem lt_index_numberEnd {c : Cursor Char} (hs : c.sees isDigit) :
    c.index < (numberEnd c).index := by
  have := index_numberEnd c
  have := length_numberEnd hs
  omega

theorem literalAt_progress : Cursor.Progress literalAt := by
  intro c b c' h
  simp only [literalAt] at h
  split at h
  case isTrue hs => cases h; exact length_numberEnd hs
  case isFalse   => cases h

theorem numRe_progress : Cursor.Progress numRe.find := by
  intro c b c' h
  cases hs : (numberStart c).sees isDigit
  case false => simp [find, numRe_first_eq_none hs] at h
  case true  =>
    simp only [find, numRe_first hs, Option.map_some, Option.some.injEq, Prod.mk.injEq] at h
    have hlt := length_numberEnd hs
    have hle : (numberStart c).after.length ≤ c.after.length := by
      refine Cursor.length_skipWhile_le _ |>.trans ?_
      split
      case isTrue  => exact Cursor.length_next_le c
      case isFalse => rfl
    rw [← h.right]
    omega

theorem pctRe_progress : Cursor.Progress pctRe.find := by
  intro c b c' h
  by_cases hn : c.saw isNumberPart ∨ c.sees isDigit = false ∨ percent (numberEnd c) = false
  case pos => simp [find, pctRe_first_eq_none hn] at h
  case neg =>
    obtain ⟨hb, hs, hp⟩ : c.saw isNumberPart = false ∧ c.sees isDigit ∧ percent (numberEnd c) := by
      simpa using hn
    simp only [find, pctRe_first hb hs hp, Option.map_some, Option.some.injEq, Prod.mk.injEq] at h
    have hlt := length_numberEnd hs
    have hw := Cursor.length_skipWhile_le (p := isSpace) (numberEnd c)
    have hle := Cursor.length_next_le ((numberEnd c).skipWhile isSpace)
    rw [← h.right]
    omega

end Progress

section Literal

variable {text : List Char} {m m' : Span Char}

theorem literalAt_cases {c c' : Cursor Char} (h : literalAt c = some (m, c')) :
    c.sees isDigit ∧ m = ⟨c, numberEnd c⟩ ∧ c' = numberEnd c := by
  simp only [literalAt] at h
  split at h
  case isTrue hs => cases h; exact ⟨hs, rfl, rfl⟩
  case isFalse   => cases h

-- A literal starts with a digit, and is as long as it can be.
theorem literal_spec (h : m ∈ literals text) :
    m.start.sees isDigit ∧ m.stop = numberEnd m.start := by
  refine Cursor.scan_forall (Q := fun m => m.start.sees isDigit ∧ m.stop = numberEnd m.start)
    literalAt_progress ?_ _ m h
  intro c m c' h
  obtain ⟨hs, hm, _⟩ := literalAt_cases h
  exact hm ▸ ⟨hs, rfl⟩

-- Literals do not overlap.
theorem literal_unique (h : m ∈ literals text) (h' : m' ∈ literals text)
    (hl : m.start.index ≤ m'.start.index) (hh : m'.start.index < m.stop.index) : m = m' := by
  refine Cursor.scan_unique (·.start.index) (·.stop.index) literalAt_progress ?_ h h' hl hh
  intro c m c' h
  obtain ⟨hs, hm, hc⟩ := literalAt_cases h
  subst hm hc
  exact ⟨Nat.le_refl _, lt_index_numberEnd hs, Nat.le_refl _⟩

end Literal

section Numbers

theorem literalAt_eq_none {c : Cursor Char} (h : c.sees isDigit = false) : literalAt c = none := by
  simp [literalAt, h]

theorem literalAt_eq_some {c : Cursor Char} (h : c.sees isDigit) :
    literalAt c = some (⟨c, numberEnd c⟩, numberEnd c) :=
  if_pos h

theorem not_sees_isDigit_of_isSpace {c : Cursor Char} (h : c.sees isSpace) :
    c.sees isDigit = false :=
  Cursor.not_sees_of_sees isSpace_not_digit h

-- No literal starts in what `_NUM_RE` matches before its group.
theorem passes_numberStart (c : Cursor Char) :
    Cursor.Passes (literalAt · = none) c (numberStart c) := by
  have hspaces (c : Cursor Char) :
      Cursor.Passes (literalAt · = none) c (c.skipWhile isSpace) :=
    .skipWhile (I := fun _ => True) trivial
      (fun _ hs _ => literalAt_eq_none <| not_sees_isDigit_of_isSpace hs) fun _ _ _ => trivial
  unfold numberStart
  split
  case isFalse   => exact hspaces c
  case isTrue hd =>
    have hn := Cursor.not_sees_of_sees (q := isDigit) (by simp [not_isDigit_of_mem]) hd
    exact .trans (.next hd <| literalAt_eq_none hn) (hspaces c.next)

theorem numberStart_of_sees {c : Cursor Char} (h : c.sees isDigit) : numberStart c = c := by
  have hdollar : c.sees (· = '$') = false := by
    apply Cursor.not_sees_of_sees _ h
    intro x hx
    apply decide_eq_false
    intro e
    simp [e, not_isDigit_of_mem] at hx
  have hspace : c.sees isSpace = false := by
    apply Bool.eq_false_iff.mpr
    intro hs
    simp [not_sees_isDigit_of_isSpace hs] at h
  simp [numberStart, hdollar, Cursor.skipWhile_of_not_sees hspace]

-- `_NUM_RE` finds the literals.
theorem numRe_finditer (text : List Char) : numRe.finditer text = literals text := by
  unfold finditer literals
  refine Cursor.scan_ind numRe_progress
    (P := fun c => (Cursor.scan numRe.find c).filterMap id = Cursor.scan literalAt c) ?_ ?_ ?_ _
  case refine_1 => exact fun before => rfl
  case refine_2 =>
    intro before x after hn hi
    have hs : Cursor.sees ⟨before, x :: after⟩ isDigit = false := by
      apply Bool.eq_false_iff.mpr
      intro hs
      have hstart := numberStart_of_sees hs
      simp [find, numRe_first (hstart.symm ▸ hs)] at hn
    rw [Cursor.scan_none hn, Cursor.scan_none (literalAt_eq_none hs), hi]
  case refine_3 =>
    intro c b c' hf hi
    cases hs : (numberStart c).sees isDigit
    case false => simp [find, numRe_first_eq_none hs] at hf
    case true  =>
      rw [Cursor.scan_some numRe_progress hf, Cursor.scan_passes (passes_numberStart c),
        Cursor.scan_some literalAt_progress (literalAt_eq_some hs)]
      simp only [find, numRe_first hs, Option.map_some, Option.some.injEq, Prod.mk.injEq] at hf
      obtain ⟨hb, hc⟩ := hf
      subst hb hc
      exact congrArg (_ :: ·) hi

end Numbers

section Percentages

variable {c : Cursor Char}

-- The first place after a comma at which the digits of a number go on.
def afterCommaFrom (before : List Char) : List Char → Option (Cursor Char)
  | []         => none
  | x :: after =>
    if isNumeral x then
      if x = ',' ∧ Cursor.sees ⟨x :: before, after⟩ isDigit then some ⟨x :: before, after⟩
      else afterCommaFrom (x :: before) after
    else
      none

def afterComma (c : Cursor Char) : Option (Cursor Char) :=
  afterCommaFrom c.before c.after

-- What `_PCT_RE` finds of a literal: nothing, unless a percent sign follows it, and only what comes
-- after a comma, if a point precedes it.
def percentage (m : Span Char) : Option (Span Char) :=
  if percent m.stop then
    if m.start.saw (· = '.') then (afterComma m.start).map fun start => ⟨start, m.stop⟩ else some m
  else
    none

theorem saw_isNumberPart (c : Cursor Char) :
    c.saw isNumberPart = (c.saw isDigit || c.saw (· = '.')) := by
  obtain ⟨before, after⟩ := c
  cases before <;> rfl

theorem not_saw_isNumberPart (h : c.saw (· = ',')) : c.saw isNumberPart = false :=
  Cursor.not_saw_of_saw (by simp [isNumberPart, not_isDigit_of_mem]) h

theorem pctRe_find_eq_none (h : c.saw isNumberPart ∨ c.sees isDigit = false ∨
    percent (numberEnd c) = false) : pctRe.find c = none := by
  simp [find, pctRe_first_eq_none h]

theorem passes_fraction (c : Cursor Char) :
    Cursor.Passes (pctRe.find · = none) (c.skipWhile isNumeral) (numberEnd c) := by
  simp only [numberEnd]
  split
  case isFalse   => exact .refl
  case isTrue hf =>
    have hn := Cursor.not_sees_of_sees (q := isDigit) (by simp [not_isDigit_of_mem]) hf.left
    refine .trans (.next hf.left <| pctRe_find_eq_none (.inr <| .inl hn)) ?_
    refine .skipWhile (I := (·.saw isNumberPart)) ?_ ?_ ?_
    case refine_1 => exact Cursor.saw_next <| Cursor.sees_imp (by simp [isNumberPart]) hf.left
    case refine_2 => exact fun _ _ hb => pctRe_find_eq_none (.inl hb)
    case refine_3 =>
      exact fun _ hs _ => Cursor.saw_next <| Cursor.sees_imp (by simp_all [isNumberPart]) hs

theorem passes_number (hp : percent (numberEnd c) = false) :
    Cursor.Passes (pctRe.find · = none) c (numberEnd c) := by
  refine .trans ?_ (passes_fraction c)
  refine .skipWhile (I := fun c' => numberEnd c' = numberEnd c) rfl ?_ ?_
  case refine_1 =>
    intro c' _ e
    exact pctRe_find_eq_none (.inr <| .inr <| e ▸ hp)
  case refine_2 =>
    intro c' hs e
    exact (numberEnd_congr <| Cursor.skipWhile_next hs).trans e

-- A number that `_PCT_RE` does not match at its start is passed up to the place after a comma, or
-- as a whole.
theorem passes_afterComma (h : c.saw isNumberPart ∨ c.sees isDigit = false) :
    match afterComma c with
    | none      => Cursor.Passes (pctRe.find · = none) c (numberEnd c)
    | some tail => Cursor.Passes (pctRe.find · = none) c tail ∧ tail.saw (· = ',') ∧
        tail.sees isDigit ∧ numberEnd tail = numberEnd c := by
  obtain ⟨before, after⟩ := c
  simp only [afterComma]
  induction after generalizing before
  case nil => exact passes_fraction ⟨before, []⟩
  case cons x after hi =>
    have hn : pctRe.find ⟨before, x :: after⟩ = none := pctRe_find_eq_none <| h.imp_right .inl
    by_cases hx : isNumeral x
    case neg =>
      have hp := passes_fraction ⟨before, x :: after⟩
      rw [Cursor.skipWhile_of_not_sees (by simpa [Cursor.sees] using hx)] at hp
      simpa only [afterCommaFrom, if_neg hx] using hp
    case pos =>
      have hs : Cursor.sees ⟨before, x :: after⟩ isNumeral := hx
      have he : numberEnd ⟨x :: before, after⟩ = numberEnd ⟨before, x :: after⟩ :=
        numberEnd_congr <| Cursor.skipWhile_next hs
      simp only [afterCommaFrom, if_pos hx]
      by_cases hc : x = ',' ∧ Cursor.sees ⟨x :: before, after⟩ isDigit
      case pos =>
        rw [if_pos hc]
        exact ⟨.step hn .refl, by simp [Cursor.saw, hc.left], hc.right, he⟩
      case neg =>
        rw [if_neg hc]
        have h' : Cursor.saw ⟨x :: before, after⟩ isNumberPart ∨
            Cursor.sees ⟨x :: before, after⟩ isDigit = false := by
          cases hd : isDigit x
          case true  => exact .inl <| by simp [Cursor.saw, isNumberPart, hd]
          case false => exact .inr <| by simp_all [isNumeral]
        have hi := hi (x :: before) h'
        cases ht : afterCommaFrom (x :: before) after
        case none      => simp only [ht] at hi; exact he ▸ .step hn hi
        case some tail =>
          simp only [ht] at hi
          exact ⟨.step hn hi.left, hi.right.left, hi.right.right.left, hi.right.right.right.trans he⟩

-- A percentage that `_PCT_RE` does match.
theorem scan_pctRe (hb : c.saw isNumberPart = false) (hs : c.sees isDigit)
    (hp : percent (numberEnd c)) :
    (Cursor.scan pctRe.find c).filterMap id =
      ⟨c, numberEnd c⟩ :: (Cursor.scan pctRe.find (numberEnd c)).filterMap id := by
  have hf : pctRe.find c =
      some (some ⟨c, numberEnd c⟩, (numberEnd c |>.skipWhile isSpace).next) := by
    simp [find, pctRe_first hb hs hp]
  have hn (c : Cursor Char) (h : c.sees isDigit = false) : pctRe.find c = none :=
    pctRe_find_eq_none <| .inr <| .inl h
  have hspaces : Cursor.Passes (pctRe.find · = none) (numberEnd c) (numberEnd c |>.skipWhile isSpace) :=
    .skipWhile (I := fun _ => True) trivial
      (fun c hs _ => hn c <| not_sees_isDigit_of_isSpace hs) fun _ _ _ => trivial
  have hsign : Cursor.Passes (pctRe.find · = none) (numberEnd c |>.skipWhile isSpace)
      (numberEnd c |>.skipWhile isSpace).next :=
    .next hp <| hn _ <| Cursor.not_sees_of_sees (by simp [not_isDigit_of_mem]) hp
  rw [Cursor.scan_some pctRe_progress hf, Cursor.scan_passes (hspaces.trans hsign)]
  rfl

-- `_PCT_RE` finds the percentages among the literals.
theorem pctRe_finditer (text : List Char) :
    pctRe.finditer text = (literals text).filterMap percentage := by
  unfold finditer literals
  refine Cursor.scan_ind literalAt_progress
    (P := fun c => (c.saw isDigit → c.sees isDigit = false) →
      (Cursor.scan pctRe.find c).filterMap id = (Cursor.scan literalAt c).filterMap percentage)
    ?_ ?_ ?_ _ (by simp [Cursor.atStart, Cursor.saw])
  case refine_1 => exact fun before _ => rfl
  case refine_2 =>
    intro before x after hn hi _
    have hs : isDigit x = false := by
      apply Bool.eq_false_iff.mpr
      intro hs
      simp [literalAt, Cursor.sees, hs] at hn
    rw [Cursor.scan_none hn, Cursor.scan_none (pctRe_find_eq_none <| .inr <| .inl hs)]
    exact hi fun hb => by simp [Cursor.saw, hs] at hb
  case refine_3 =>
    intro c b c' hl hi hfresh
    cases hs : c.sees isDigit
    case false => simp [literalAt, hs] at hl
    case true  =>
      rw [Cursor.scan_some literalAt_progress hl]
      simp only [literalAt_eq_some hs, Option.some.injEq, Prod.mk.injEq] at hl
      obtain ⟨hb, hc⟩ := hl
      subst hb hc
      have hi := hi fun _ => numberEnd_not_sees c
      cases hp : percent (numberEnd c)
      case false =>
        rw [Cursor.scan_passes (passes_number hp), hi]
        simp [percentage, hp]
      case true =>
        cases hdot : c.saw (· = '.')
        case false =>
          have hd : c.saw isDigit = false := by
            apply Bool.eq_false_iff.mpr
            intro hd
            simp [hfresh hd] at hs
          have hb : c.saw isNumberPart = false := by simp [saw_isNumberPart, hd, hdot]
          rw [scan_pctRe hb hs hp, hi]
          simp [percentage, hp, hdot]
        case true =>
          have hb : c.saw isNumberPart := by simp [saw_isNumberPart, hdot]
          have hpass := passes_afterComma (.inl hb)
          cases ht : afterComma c
          case none =>
            simp only [ht] at hpass
            rw [Cursor.scan_passes hpass, hi]
            simp [percentage, hp, hdot, ht]
          case some tail =>
            simp only [ht] at hpass
            obtain ⟨hpass, hcomma, hs', he⟩ := hpass
            rw [Cursor.scan_passes hpass, scan_pctRe (not_saw_isNumberPart hcomma) hs' (he ▸ hp), he, hi]
            simp [percentage, hp, hdot, ht]

theorem lt_index_afterComma {tail : Cursor Char} (h : afterComma c = some tail) :
    c.index < tail.index := by
  obtain ⟨before, after⟩ := c
  simp only [afterComma] at h
  induction after generalizing before
  case nil => simp [afterCommaFrom] at h
  case cons x after hi =>
    simp only [afterCommaFrom] at h
    split at h
    case isFalse => cases h
    case isTrue  =>
      split at h
      case isTrue  => cases h; simp [Cursor.index]
      case isFalse =>
        have := hi (x :: before) h
        simp only [Cursor.index, List.length_cons] at this ⊢
        omega

-- A literal is covered by the match of a percentage if it is one that is matched as it stands.
theorem covered_iff {text : List Char} {m : Span Char} (hm : m ∈ literals text) :
    (∃ p ∈ pctRe.finditer text, p.start.index ≤ m.start.index ∧ m.start.index < p.stop.index) ↔
      percent m.stop ∧ m.start.saw (· = '.') = false := by
  rw [pctRe_finditer]
  constructor
  case mp =>
    rintro ⟨p, hp, hl, hh⟩
    obtain ⟨m', hm', e⟩ := List.mem_filterMap.mp hp
    simp only [percentage] at e
    split at e
    case isFalse    => cases e
    case isTrue hp' =>
      split at e
      case isFalse hdot =>
        cases e
        have := literal_unique hm' hm hl hh
        simp_all
      case isTrue hdot =>
        obtain ⟨tail, ht, e⟩ := Option.map_eq_some_iff.mp e
        subst e
        have hlt := lt_index_afterComma ht
        have := literal_unique hm' hm (by simp only at hl; omega) hh
        subst this
        simp only at hl
        omega
  case mpr =>
    rintro ⟨hp, hdot⟩
    obtain ⟨hs, e⟩ := literal_spec hm
    refine ⟨m, List.mem_filterMap.mpr ⟨m, hm, by simp [percentage, hp, hdot]⟩, Nat.le_refl _, ?_⟩
    exact e ▸ lt_index_numberEnd hs

end Percentages
end MarTech
