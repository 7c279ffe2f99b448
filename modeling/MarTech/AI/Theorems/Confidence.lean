import MarTech.AI.Confidence
import MarTech.Domain.Theorems.Rounding

namespace MarTech

section Support

variable {R : Type} [Field R] [LinearOrder R] [FloorRing R] [MathLog R]

-- The number of scores in the sample, if there is one.
def CampaignContext.sampleCount (context : CampaignContext R) : Scalar R :=
  context.engagementScoreSample.elim .none (·.count)

-- The components of the support with their weights.
def components (context : CampaignContext R) : Option (List (R × R)) := do
  let present := canonicalMetrics.countP fun name => (context.metrics.get name).isSome
  let audience ← component wAudience audienceReliability context.audienceSize
  let sample ← component wSample sampleSufficiency context.sampleCount
  return (wCompleteness, (present : R) / canonicalMetrics.length) :: audience ++ sample

def average (components : List (R × R)) : R :=
  (components.map fun (w, s) => w * s).sum / (components.map fun (w, _) => w).sum

theorem dataSupport_eq (context : CampaignContext R) :
    dataSupport context =
      (components context).map fun cs => roundTo 3 (min 1 (max 0 (average cs))) := by
  simp only [dataSupport, components, CampaignContext.sampleCount]
  cases component wAudience audienceReliability context.audienceSize
  case none => rfl
  case some audience =>
    cases component wSample sampleSufficiency (context.engagementScoreSample.elim .none (·.count)) <;>
      rfl

omit [LinearOrder R] [FloorRing R] [MathLog R] in
theorem component_isSome_iff (weight : R) (f : R → R) {value : Scalar R} :
    (component weight f value).isSome ↔ ∀ s, value ≠ .str s := by
  cases value <;> simp [component, Scalar.number?]

-- The code raises for nothing but strings.
theorem dataSupport_isSome_iff {context : CampaignContext R} :
    (dataSupport context).isSome ↔
      (∀ s, context.audienceSize ≠ .str s) ∧ ∀ s, context.sampleCount ≠ .str s := by
  rw [dataSupport_eq, Option.isSome_map, ← component_isSome_iff wAudience audienceReliability,
    ← component_isSome_iff wSample sampleSufficiency, components]
  cases component wAudience audienceReliability context.audienceSize <;>
    cases component wSample sampleSufficiency context.sampleCount <;> simp

-- The model's own confidence, weighed against the support.
def blend (support m : R) : R :=
  (1 - modelTrustWeight) * support + modelTrustWeight * min 1 (max 0 m)

theorem computeConfidence_eq {context : CampaignContext R} {support : R}
    (h : dataSupport context = some support) (m : Option R) :
    computeConfidence context m = some (m.elim support fun m => roundTo 3 (blend support m)) := by
  cases m <;> simp [computeConfidence, h, blend]

end Support

section Order

variable {R : Type} [Field R] [LinearOrder R] [IsStrictOrderedRing R]

theorem dataSupport_bound [FloorRing R] [MathLog R] {context : CampaignContext R} {support : R}
    (h : dataSupport context = some support) : 0 ≤ support ∧ support ≤ 1 := by
  rw [dataSupport_eq] at h
  obtain ⟨cs, _, rfl⟩ := Option.map_eq_some_iff.mp h
  exact roundTo_bound 3 (le_min zero_le_one (le_max_left ..)) (min_le_left ..)

-- Both values are missing, or both are numbers of which the second one is not less.
def Scalar.Grows (value value' : Scalar R) : Prop :=
  value = .none ∧ value' = .none ∨ ∃ x ∈ value.number?, ∃ y ∈ value'.number?, x ≤ y

-- The same weight, and at least as much evidence.
def Dominates (component component' : R × R) : Prop :=
  0 ≤ component.1 ∧ component.1 = component'.1 ∧ component.2 ≤ component'.2

omit [IsStrictOrderedRing R] in
theorem component_mono {weight : R} (hw : 0 ≤ weight) {f : R → R} (hf : Monotone f)
    {value value' : Scalar R} (h : value.Grows value') {cs cs' : List (R × R)}
    (hcs : component weight f value = some cs) (hcs' : component weight f value' = some cs') :
    List.Forall₂ Dominates cs cs' := by
  obtain ⟨rfl, rfl⟩ | ⟨x, hx, y, hy, hle⟩ := h
  case inl =>
    cases hcs
    cases hcs'
    exact .nil
  case inr =>
    have hvalue {v : Scalar R} {x : R} (hx : x ∈ v.number?) :
        component weight f v = some [(weight, f x)] := by
      cases v <;> simp_all [component, Scalar.number?]
    cases (hvalue hx).symm.trans hcs
    cases (hvalue hy).symm.trans hcs'
    exact .cons ⟨hw, rfl, hf hle⟩ .nil

theorem average_mono {cs cs' : List (R × R)} (h : List.Forall₂ Dominates cs cs') :
    average cs ≤ average cs' := by
  have hsums : (cs.map fun (w, _) => w).sum = (cs'.map fun (w, _) => w).sum ∧
      0 ≤ (cs.map fun (w, _) => w).sum ∧
      (cs.map fun (w, s) => w * s).sum ≤ (cs'.map fun (w, s) => w * s).sum := by
    induction h
    case nil => simp
    case cons c c' cs cs' hc _ hi =>
      obtain ⟨hw, he, hs⟩ := hc
      obtain ⟨hi₁, hi₂, hi₃⟩ := hi
      simp only [List.map_cons, List.sum_cons]
      refine ⟨by rw [he, hi₁], add_nonneg hw hi₂, add_le_add ?_ hi₃⟩
      exact he ▸ mul_le_mul_of_nonneg_left hs hw
  obtain ⟨hw, hpos, hle⟩ := hsums
  rw [average, average, ← hw]
  exact div_le_div_of_nonneg_right hle hpos

end Order

noncomputable instance : MathLog ℝ where
  log10 := Real.logb 10

section Real

theorem audienceReliability_mono : Monotone (audienceReliability : ℝ → ℝ) := by
  intro x y h
  have hpos : 0 < 1 + max 0 x := by positivity
  have hmax : 1 + max 0 x ≤ 1 + max 0 y := by gcongr
  have hfull : 0 ≤ Real.logb 10 (1 + (audienceFullMark : ℝ)) :=
    Real.logb_nonneg (by norm_num) (by simp)
  have hlog : Real.logb 10 (1 + max 0 x) ≤ Real.logb 10 (1 + max 0 y) :=
    Real.logb_le_logb_of_le (by norm_num) hpos hmax
  exact min_le_min_left 1 <| div_le_div_of_nonneg_right hlog hfull

theorem sampleSufficiency_mono : Monotone (sampleSufficiency : ℝ → ℝ) := by
  intro x y h
  exact min_le_min_left 1 <|
    div_le_div_of_nonneg_right (max_le_max_left 0 h) (Nat.cast_nonneg sampleTarget)

-- No less evidence: the metrics of the first context and maybe others, and an audience and a sample
-- that are as large, where they are there at all.
structure Evidence (context context' : CampaignContext ℝ) : Prop where
  metrics  : ∀ name, (context.metrics.get name).isSome → (context'.metrics.get name).isSome
  audience : context.audienceSize.Grows context'.audienceSize
  sample   : context.sampleCount.Grows context'.sampleCount

theorem Scalar.Grows.ne_str {value value' : Scalar ℝ} (h : value.Grows value') (s : String) :
    value' ≠ .str s := by
  rintro rfl
  obtain ⟨_, h⟩ | ⟨_, _, _, h, _⟩ := h <;> cases h

theorem Evidence.isSome {context context' : CampaignContext ℝ} (h : Evidence context context') :
    (dataSupport context').isSome :=
  dataSupport_isSome_iff.mpr ⟨h.audience.ne_str, h.sample.ne_str⟩

theorem components_mono {context context' : CampaignContext ℝ} (h : Evidence context context')
    {cs cs' : List (ℝ × ℝ)} (hcs : components context = some cs)
    (hcs' : components context' = some cs') : List.Forall₂ Dominates cs cs' := by
  simp only [components, Option.bind_eq_bind, Option.bind_eq_some_iff] at hcs hcs'
  obtain ⟨audience, ha, sample, hs, e⟩ := hcs
  obtain ⟨audience', ha', sample', hs', e'⟩ := hcs'
  cases e
  cases e'
  have hpresent : canonicalMetrics.countP (fun name => (context.metrics.get name).isSome) ≤
      canonicalMetrics.countP fun name => (context'.metrics.get name).isSome :=
    List.countP_mono_left fun name _ => h.metrics name
  refine .cons ⟨by norm_num [wCompleteness], rfl, ?_⟩ (List.rel_append ?_ ?_)
  · exact div_le_div_of_nonneg_right (Nat.cast_le.mpr hpresent) (Nat.cast_nonneg _)
  · exact component_mono (by norm_num [wAudience]) audienceReliability_mono h.audience ha ha'
  · exact component_mono (by norm_num [wSample]) sampleSufficiency_mono h.sample hs hs'

theorem dataSupport_mono {context context' : CampaignContext ℝ} (h : Evidence context context')
    {support support' : ℝ} (hs : dataSupport context = some support)
    (hs' : dataSupport context' = some support') : support ≤ support' := by
  rw [dataSupport_eq] at hs hs'
  obtain ⟨cs, hcs, rfl⟩ := Option.map_eq_some_iff.mp hs
  obtain ⟨cs', hcs', rfl⟩ := Option.map_eq_some_iff.mp hs'
  have := average_mono (components_mono h hcs hcs')
  exact roundTo_mono 3 (by gcongr)

section Blend

variable {support support' m m' : ℝ}

theorem stated_bound (m : ℝ) : 0 ≤ min 1 (max 0 m) ∧ min 1 (max 0 m) ≤ 1 :=
  ⟨le_min zero_le_one (le_max_left ..), min_le_left ..⟩

theorem blend_bound (h₀ : 0 ≤ support) (h₁ : support ≤ 1) (m : ℝ) :
    0 ≤ blend support m ∧ blend support m ≤ 1 := by
  obtain ⟨hm₀, hm₁⟩ := stated_bound m
  simp only [blend, modelTrustWeight]
  constructor <;> linarith

theorem blend_mono (hs : support ≤ support') (hm : m ≤ m') : blend support m ≤ blend support' m' := by
  have hstated : min 1 (max 0 m) ≤ min 1 (max 0 m') := by gcongr
  simp only [blend, modelTrustWeight]
  linarith

-- The model moves the support by its share of their distance.
theorem blend_sub (support m : ℝ) :
    blend support m - support = modelTrustWeight * (min 1 (max 0 m) - support) := by
  rw [blend]
  ring

theorem roundTo_blend_near {bound : ℝ} (h : |blend support m - support| ≤ bound) :
    |roundTo 3 (blend support m) - support| ≤ bound + 0.0005 := by
  have hround := abs_sub_roundTo 3 (blend support m)
  calc |roundTo 3 (blend support m) - support|
      ≤ |roundTo 3 (blend support m) - blend support m| + |blend support m - support| :=
        abs_sub_le _ _ _
    _ ≤ 1 / 2 / 10 ^ 3 + bound := add_le_add (abs_sub_comm _ (blend support m) ▸ hround) h
    _ = bound + 0.0005         := by norm_num [add_comm]

theorem roundTo_blend_mono (hs : support ≤ support') (hm : m ≤ m') :
    roundTo 3 (blend support m) ≤ roundTo 3 (blend support' m') :=
  roundTo_mono 3 (blend_mono hs hm)

-- The values that the blend is given for a model with or without a confidence of its own.
noncomputable def blended (support : ℝ) (m : Option ℝ) : ℝ :=
  m.elim support fun m => roundTo 3 (blend support m)

theorem blended_bound (h₀ : 0 ≤ support) (h₁ : support ≤ 1) (m : Option ℝ) :
    0 ≤ blended support m ∧ blended support m ≤ 1 := by
  cases m
  case none   => exact ⟨h₀, h₁⟩
  case some m =>
    obtain ⟨hb₀, hb₁⟩ := blend_bound h₀ h₁ m
    exact roundTo_bound 3 hb₀ hb₁

theorem blended_near (h₀ : 0 ≤ support) (h₁ : support ≤ 1) (m : Option ℝ) :
    |blended support m - support| ≤ 0.3 + 0.0005 := by
  cases m
  case none   => norm_num [blended]
  case some m =>
    obtain ⟨hm₀, hm₁⟩ := stated_bound m
    refine roundTo_blend_near ?_
    rw [blend_sub, modelTrustWeight, abs_le]
    constructor <;> linarith

theorem blended_near_half (h₀ : 0 ≤ support) (h₁ : support ≤ 1) :
    |blended support (some 0.5) - support| ≤ 0.15 + 0.0005 := by
  have hstated : min 1 (max 0 (0.5 : ℝ)) = 0.5 := by norm_num
  refine roundTo_blend_near ?_
  rw [blend_sub, hstated, modelTrustWeight, abs_le]
  constructor <;> linarith

-- Two statements of a model, or none at all, of which the second one is not less confident.
def Stated (m m' : Option ℝ) : Prop :=
  m = none ∧ m' = none ∨ ∃ x ∈ m, ∃ y ∈ m', x ≤ y

theorem blended_mono (hs : support ≤ support') {m m' : Option ℝ} (hm : Stated m m') :
    blended support m ≤ blended support' m' := by
  obtain ⟨rfl, rfl⟩ | ⟨x, rfl, y, rfl, hle⟩ := hm
  case inl => exact hs
  case inr => exact roundTo_blend_mono hs hle

end Blend

theorem confidence_bounded (context : CampaignContext ℝ) :
    ((dataSupport context).isSome ↔
      (∀ s, context.audienceSize ≠ .str s) ∧ ∀ s, context.sampleCount ≠ .str s) ∧
    ∀ support ∈ dataSupport context, 0 ≤ support ∧ support ≤ 1 ∧
      (∀ context', Evidence context context' →
        ∃ support' ∈ dataSupport context', support ≤ support') ∧
      ∀ m, ∃ confidence ∈ computeConfidence context m, 0 ≤ confidence ∧ confidence ≤ 1 ∧
        |confidence - support| ≤ 0.3 + 0.0005 ∧
        (m = some 0.5 → |confidence - support| ≤ 0.15 + 0.0005) ∧
        ∀ context', ∀ support' ∈ dataSupport context', support ≤ support' → ∀ m', Stated m m' →
          ∃ confidence' ∈ computeConfidence context' m', confidence ≤ confidence' := by
  refine ⟨dataSupport_isSome_iff, fun support hs => ?_⟩
  obtain ⟨h₀, h₁⟩ := dataSupport_bound hs
  refine ⟨h₀, h₁, fun context' h => ?_, fun m => ?_⟩
  · obtain ⟨support', hs'⟩ := Option.isSome_iff_exists.mp h.isSome
    exact ⟨support', hs', dataSupport_mono h hs hs'⟩
  · obtain ⟨hc₀, hc₁⟩ := blended_bound h₀ h₁ m
    refine ⟨blended support m, computeConfidence_eq hs m, hc₀, hc₁, blended_near h₀ h₁ m, ?_, ?_⟩
    · rintro rfl
      exact blended_near_half h₀ h₁
    · intro context' support' hs' hle m' hm
      exact ⟨blended support' m', computeConfidence_eq hs' m', blended_mono hle hm⟩

end Real
end MarTech
