import MarTech.AI.Theorems.Restatement
import MarTech.AI.Theorems.Confidence
import MarTech.AI.Fallback

namespace MarTech

open Unicode

-- The Unicode database on the characters that the texts of the fallback are written in.
class Unicode.Lawful [Unicode] : Prop where
  isDigit_ascii : ∀ c : Char, c.toNat < 128 → isDigit c = c.isDigit
  digit_ascii   : ∀ c : Char, c.isDigit → digit c = c.toNat - '0'.toNat
  dash          : isDigit '—' = false

section Texts

variable [Unicode] [Lawful]

def digitFree (text : List Char) : Bool :=
  text.all fun c => c = '—' || c.toNat < 128 && !c.isDigit

theorem not_isDigit_of_digitFree {text : List Char} (h : digitFree text) :
    ∀ c ∈ text, isDigit c = false := by
  intro c hc
  have hor := List.all_eq_true.mp h c hc
  simp only [Bool.or_eq_true, decide_eq_true_eq, Bool.and_eq_true, Bool.not_eq_eq_eq_not,
    Bool.not_true] at hor
  obtain e | ⟨hlt, hd⟩ := hor
  · exact e ▸ Lawful.dash
  · exact (Lawful.isDigit_ascii c hlt).trans hd

omit [Lawful] in
theorem literals_eq_nil {text : List Char} (h : ∀ c ∈ text, isDigit c = false) :
    literals text = [] := by
  have := Cursor.scan_append (P := (isDigit · = false)) (fun _ _ _ h => literalAt_eq_none h) h [] []
  rwa [List.append_nil, Cursor.scan_nil] at this

-- The text on a low open rate, with its number.
def below15 : Restatement where
  before   := "Open rate is below ".toList
  negative := false
  currency := none
  numeral  := ⟨['1', '5'], []⟩
  after    := "% — consider subject-line A/B tests or send-time optimization.".toList

omit [Unicode] [Lawful] in
theorem below15_text : String.ofList below15.text = lowOpenRate := by
  decide +kernel

theorem isDigit_of_ascii {c : Char} (h : c.isDigit) : isDigit c := by
  have hlt : c.toNat < 128 := by
    simp only [Char.isDigit, Bool.and_eq_true, decide_eq_true_eq] at h
    have := UInt32.le_iff_toNat_le.mp h.right
    simp only [Char.toNat]
    exact Nat.lt_of_le_of_lt this (by decide)
  exact (Lawful.isDigit_ascii c hlt).trans h

theorem below15_digits : ∀ c ∈ below15.numeral.whole, isDigit c := by
  have hone : isDigit '1' := isDigit_of_ascii (by decide)
  have hfive : isDigit '5' := isDigit_of_ascii (by decide)
  exact List.forall_mem_cons.mpr ⟨hone, List.forall_mem_cons.mpr ⟨hfive, by simp⟩⟩

theorem below15_valid : below15.Valid where
  numeral.digit    := below15_digits '1' List.mem_cons_self
  numeral.whole    := fun c hc => isNumeral_of_isDigit <| below15_digits c hc
  numeral.fraction := fun c hc => nomatch hc
  front            := not_isDigit_of_digitFree (by decide +kernel)
  after            := not_isDigit_of_digitFree (by decide +kernel)

theorem below15_attached : below15.attached := by
  have hafter := after_span below15_valid (by decide +kernel)
  unfold Restatement.attached
  generalize below15.span.stop = c at hafter
  obtain ⟨before, after⟩ := c
  simp only at hafter
  obtain ⟨text, htext⟩ : ∃ text, below15.after = '%' :: text := ⟨_, rfl⟩
  rw [hafter, htext, percent, Cursor.skipWhile_of_not_sees (by simp [Cursor.sees, not_isSpace_of_mem])]
  rfl

omit [Lawful] [Unicode] in
theorem below15_free : below15.pointed = false := by
  decide +kernel

theorem below15_value {R : Type} [Field R] : (below15.numeral.value : R) = 15 := by
  have hdigits : decimal ['1', '5'] = 15 := by
    simp [decimal, Lawful.digit_ascii]
  have hwhole : below15.numeral.whole.filter isDigit = ['1', '5'] :=
    List.filter_eq_self.mpr below15_digits
  have hfraction : below15.numeral.fraction = [] := rfl
  simp only [Numeral.value, hwhole, hfraction, hdigits]
  simp [decimal]

end Texts

section Summary

variable {R : Type} [Field R] [LinearOrder R] [FloorRing R] [MathLog R] [FloatRepr R]
         {context : CampaignContext R} {response : AIResponse R}

omit R [Field R] [LinearOrder R] [FloorRing R] [MathLog R] [FloatRepr R] in
theorem lowOpenRate_not_mem :
    lowOpenRate ∉ [healthyOpenRate, lowClickRate, insufficientHistory] := by
  decide +kernel

theorem recommendations_spec (h : ruleBasedSummary context = some response) :
    response.groundingVerified ∧ (∀ rec ∈ response.recommendations,
      rec = lowOpenRate ∨ rec ∈ [healthyOpenRate, lowClickRate, insufficientHistory]) ∧
    (lowOpenRate ∈ response.recommendations ↔
      isBelow context "open_rate" 0.15 = some (some true)) := by
  simp only [ruleBasedSummary, Option.bind_eq_bind, Option.bind_eq_some_iff] at h
  obtain ⟨openRate, hopen, clickRate, _, confidence, _, h⟩ := h
  have hne := lowOpenRate_not_mem
  simp only [List.mem_cons, List.not_mem_nil, or_false, not_or] at hne
  rw [hopen]
  split at h
  case isFalse => cases h
  case isTrue  =>
    cases h
    by_cases hclick : clickRate = some true
    all_goals
      rcases openRate with _ | _ | _
      all_goals simp [hclick, hne]

-- The value that a list of metrics gives to a name: the last one.
def metricValue (metrics : List (Metric R)) (name : String) : Scalar R :=
  (metrics.reverse.find? (·.metricName = name)).elim .none (·.value)

omit [MathLog R] [FloatRepr R] in
theorem isBelow_build (campaign : Campaign R) (metrics : List (Metric R))
    (sampleScores : Option (List R)) (name : String) (threshold : R) :
    isBelow (buildCampaignContext campaign metrics sampleScores) name threshold =
      match metricValue metrics name with
      | .none => some none
      | value => value.number?.map fun x => some (decide (x < threshold)) := by
  simp only [isBelow, buildCampaignContext, Table.get_upserts, Table.get_empty, Option.or_none]
  rfl

omit [MathLog R] [FloatRepr R] in
theorem isBelow_iff {campaign : Campaign R} {metrics : List (Metric R)}
    {sampleScores : Option (List R)} {name : String} {threshold : R} :
    isBelow (buildCampaignContext campaign metrics sampleScores) name threshold =
      some (some true) ↔ ∃ x ∈ (metricValue metrics name).number?, x < threshold := by
  rw [isBelow_build]
  cases metricValue metrics name <;> simp [Scalar.number?]

end Summary

section Returns

variable {R : Type} [Field R] [LinearOrder R] [IsStrictOrderedRing R] [FloorRing R] [MathLog R]
         [FloatRepr R] {context : CampaignContext R}

omit [IsStrictOrderedRing R] [MathLog R] [FloatRepr R] in
theorem isBelow_isSome (campaign : Campaign R) {metrics : List (Metric R)}
    (sampleScores : Option (List R)) (hm : ∀ m ∈ metrics, ∀ s, m.value ≠ .str s) (name : String)
    (threshold : R) :
    (isBelow (buildCampaignContext campaign metrics sampleScores) name threshold).isSome := by
  have hvalue : ∀ s, metricValue metrics name ≠ .str s := by
    intro s
    cases hf : metrics.reverse.find? (·.metricName = name)
    case none   => simp [metricValue, hf]
    case some m =>
      have hmem : m ∈ metrics := List.mem_reverse.mp <| List.mem_of_find?_eq_some hf
      simpa [metricValue, hf] using hm m hmem s
  rw [isBelow_build]
  cases hv : metricValue metrics name
  case str s => exact absurd hv (hvalue s)
  all_goals rfl

omit [IsStrictOrderedRing R] [FloatRepr R] in
theorem dataSupport_isSome {campaign : Campaign R} (metrics : List (Metric R))
    (sampleScores : Option (List R)) (hc : ∀ s, campaign.audienceSize ≠ some (.str s)) :
    (dataSupport <| buildCampaignContext campaign metrics sampleScores).isSome := by
  refine dataSupport_isSome_iff.mpr ⟨fun s => ?_, fun s => ?_⟩
  · simp only [buildCampaignContext]
    cases h : campaign.audienceSize
    case none       => simp
    case some value => simpa [h] using hc s
  · simp only [CampaignContext.sampleCount, buildCampaignContext]
    split <;> simp

-- The summary is made of everything but a metric or an audience size that is a string.
theorem ruleBasedSummary_isSome {campaign : Campaign R} {metrics : List (Metric R)}
    {sampleScores : Option (List R)} (hc : ∀ s, campaign.audienceSize ≠ some (.str s))
    (hm : ∀ m ∈ metrics, ∀ s, m.value ≠ .str s) :
    (ruleBasedSummary <| buildCampaignContext campaign metrics sampleScores).isSome := by
  obtain ⟨openRate, hopen⟩ := Option.isSome_iff_exists.mp <|
    isBelow_isSome campaign sampleScores hm "open_rate" 0.15
  obtain ⟨clickRate, hclick⟩ := Option.isSome_iff_exists.mp <|
    isBelow_isSome campaign sampleScores hm "click_rate" 0.02
  obtain ⟨support, hs⟩ := Option.isSome_iff_exists.mp <|
    dataSupport_isSome metrics sampleScores hc
  have hb := dataSupport_bound hs
  simp [ruleBasedSummary, computeConfidence, hopen, hclick, hs, hb]

end Returns

section Grounding

variable [Unicode] [Lawful] [Runtime] {R : Type} [Field R] [LinearOrder R] [IsStrictOrderedRing R]
         [FloorRing R] [MathLog R] [FloatRepr R]

omit [Runtime] in
theorem literals_other {rec : String}
    (h : rec ∈ [healthyOpenRate, lowClickRate, insufficientHistory]) :
    literals rec.toList = [] := by
  have hall : ∀ rec ∈ [healthyOpenRate, lowClickRate, insufficientHistory],
      digitFree rec.toList := by decide +kernel
  exact literals_eq_nil <| not_isDigit_of_digitFree <| hall rec h

omit [MathLog R] [FloatRepr R] in
-- The number in the text is accepted only if it is near one of the context.
theorem lowOpenRate_accepted {context : Context R} :
    (∀ m ∈ literals lowOpenRate.toList, ¬Refused (extractContextNumbers context) lowOpenRate m) ↔
      ∃ kv, Kept context kv ∧ |15 - kv.value| ≤ pctTolerancePp := by
  rw [← below15_text, String.toList_ofList, literals_text below15_valid]
  simp only [List.mem_singleton, forall_eq]
  rw [not_refused_iff below15_valid, below15_value]
  constructor
  case mp =>
    intro h
    cases h
    case rate attached free rate =>
      cases rate
      case near kv kept near => exact ⟨kv, kept, near⟩
      case delta small _ _   => norm_num [maxTargetDeltaPct] at small
    case figure detached _   => simp [below15_attached] at detached
    case pointed pointed _ _ => simp [below15_free] at pointed
  case mpr =>
    rintro ⟨kv, kept, near⟩
    exact .rate below15_attached below15_free (.near kv kept near)

-- The recommendations are grounded just if the open rate is not a low one, or if the number in the
-- text on it happens to be near one of the context.
theorem fallback_grounded_iff (campaign : Campaign R) (metrics : List (Metric R))
    (sampleScores : Option (List R)) (response : AIResponse R)
    (h : ruleBasedSummary (buildCampaignContext campaign metrics sampleScores) = some response) :
    let context := (buildCampaignContext campaign metrics sampleScores).toContext
    response.groundingVerified ∧
      ((verifyGrounding response.recommendations context).1 ↔
        (∀ x ∈ (metricValue metrics "open_rate").number?, 0.15 ≤ x) ∨
          ∃ kv, Kept context kv ∧ |15 - kv.value| ≤ pctTolerancePp) := by
  obtain ⟨hverified, hrecs, hlow⟩ := recommendations_spec h
  refine ⟨hverified, ?_⟩
  rw [isBelow_iff] at hlow
  rw [verifyGrounding_iff]
  constructor
  case mp =>
    intro haccepted
    by_cases hmem : lowOpenRate ∈ response.recommendations
    case pos => exact .inr <| lowOpenRate_accepted.mp <| haccepted _ hmem
    case neg =>
      refine .inl fun x hx => ?_
      by_contra hlt
      exact hmem <| hlow.mpr ⟨x, hx, not_le.mp hlt⟩
  case mpr =>
    intro hor rec hrec
    cases hrecs rec hrec
    case inr hother => simp [literals_other hother]
    case inl hrec' =>
      subst hrec'
      obtain ⟨x, hx, hlt⟩ := hlow.mp hrec
      refine lowOpenRate_accepted.mpr <| hor.resolve_left fun hall => ?_
      exact absurd (hall x hx) (not_le.mpr hlt)

end Grounding

namespace Ascii

scoped instance : Unicode.Lawful where
  isDigit_ascii _ _ := rfl
  digit_ascii _ _   := rfl
  dash              := by decide

-- The logarithm of the powers of ten.
scoped instance : MathLog ℚ where
  log10 x := Nat.log 10 ⌊x⌋₊

end Ascii

section Example

open Ascii EpochDay

def newsletter : Campaign ℚ where
  id           := some (.str "c1")
  objective    := some (.str "retention")
  channel      := some (.str "email")
  status       := some (.str "active")
  audienceSize := some (.int 9999)

theorem fallback_grounded_iff_healthy :
    let context := buildCampaignContext newsletter [⟨"open_rate", .float 0.2⟩] (some [1, 2])
    ∃ response, ruleBasedSummary context = some response ∧
      (verifyGrounding response.recommendations context.toContext).1 := by
  obtain ⟨response, h⟩ := Option.isSome_iff_exists.mp (by decide +kernel :
    (ruleBasedSummary <|
      buildCampaignContext newsletter [⟨"open_rate", .float 0.2⟩] (some [1, 2])).isSome)
  have hiff := fallback_grounded_iff newsletter _ _ response h |>.right
  exact ⟨response, h, hiff.mpr <| .inl (by decide +kernel)⟩

-- An open rate of a tenth is advised on with a number that is not in the context.
theorem low_open_rate_ungrounded :
    ¬∀ (campaign : Campaign ℚ) (metrics : List (Metric ℚ)) (sampleScores : Option (List ℚ))
      (response : AIResponse ℚ),
      let context := buildCampaignContext campaign metrics sampleScores
      ruleBasedSummary context = some response →
        response.groundingVerified ∧
          (verifyGrounding response.recommendations context.toContext).1 := by
  intro h
  let context := buildCampaignContext newsletter [⟨"open_rate", .float 0.1⟩]
  have hrefused : (ruleBasedSummary context).any fun response =>
      !(verifyGrounding response.recommendations context.toContext).1 := by decide +kernel
  obtain ⟨response, hr, hrefused⟩ := Option.any_eq_true _ _ |>.mp hrefused
  have haccepted := h newsletter [⟨"open_rate", .float 0.1⟩] none response hr |>.right
  simp [context, haccepted] at hrefused

end Example
end MarTech
