import MarTech.Domain.Scoring

namespace MarTech

noncomputable instance : MathExp ℝ where
  exp := Real.exp

-- The settings that an empty environment gives.
noncomputable def Settings.default : Settings ℝ where
  scoreDecayLambda := 0.05

end MarTech
