import Mathlib.Analysis.Complex.Exponential
import Mathlib.Algebra.BigOperators.Group.List.Basic

-- An amount that appears at a time and fades exponentially from then on.
structure Pulse where
  weight : ℝ
  time   : ℝ

-- What remains at time `t` of pulses that fade at the given rate. Before a pulse appears it counts
-- for as much as makes it come out right at its time.
noncomputable def decayed (rate : ℝ) (pulses : List Pulse) (t : ℝ) : ℝ :=
  (pulses.map fun p => p.weight * Real.exp (-rate * (t - p.time))).sum

namespace decayed

variable {rate t t' : ℝ} {p : Pulse} {ps ps' : List Pulse}

@[simp]
theorem nil : decayed rate [] t = 0 :=
  rfl

theorem cons : decayed rate (p :: ps) t =
    p.weight * Real.exp (-rate * (t - p.time)) + decayed rate ps t :=
  List.sum_cons

theorem append : decayed rate (ps ++ ps') t = decayed rate ps t + decayed rate ps' t := by
  simp [decayed]

theorem singleton : decayed rate [p] t = p.weight * Real.exp (-rate * (t - p.time)) := by
  simp [cons]

theorem perm (h : ps.Perm ps') : decayed rate ps t = decayed rate ps' t :=
  h.map _ |>.sum_eq

-- Moving the reference time scales every pulse by the same factor.
theorem shift (t t' : ℝ) :
    decayed rate ps t' = decayed rate ps t * Real.exp (-rate * (t' - t)) := by
  induction ps
  case nil => simp
  case cons p ps hi =>
    rw [cons, cons, hi, add_mul, mul_assoc, ← Real.exp_add]
    ring_nf

-- A pulse that is not older than the reference becomes the reference.
theorem append_newer (t : ℝ) : decayed rate (ps ++ [p]) p.time =
    decayed rate ps t * Real.exp (-rate * (p.time - t)) + p.weight := by
  rw [append, singleton, shift t]
  simp

-- A pulse that is older than the reference is brought forward to it.
theorem append_older (t : ℝ) : decayed rate (ps ++ [p]) t =
    decayed rate ps t + p.weight * Real.exp (-rate * (t - p.time)) := by
  rw [append, singleton]

-- Time takes positive amounts down, and negative amounts up.
theorem antitone (hr : 0 ≤ rate) (h : ∀ p ∈ ps, 0 ≤ p.weight) : Antitone (decayed rate ps) := by
  intro t t' hle
  refine List.sum_le_sum fun p hp => mul_le_mul_of_nonneg_left ?_ (h p hp)
  exact Real.exp_le_exp.mpr <| mul_le_mul_of_nonpos_left (by gcongr) (neg_nonpos.mpr hr)

theorem monotone (hr : 0 ≤ rate) (h : ∀ p ∈ ps, p.weight ≤ 0) : Monotone (decayed rate ps) := by
  intro t t' hle
  refine List.sum_le_sum fun p hp => mul_le_mul_of_nonpos_left ?_ (h p hp)
  exact Real.exp_le_exp.mpr <| mul_le_mul_of_nonpos_left (by gcongr) (neg_nonpos.mpr hr)

theorem rate_zero : decayed 0 ps t = decayed 0 ps t' := by
  simp [decayed]

end decayed
