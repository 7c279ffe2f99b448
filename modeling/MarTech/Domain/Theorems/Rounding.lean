import MarTech.Domain.Scoring

namespace MarTech

section Rounding

variable {R : Type} [Field R] [LinearOrder R] [IsStrictOrderedRing R] [FloorRing R]

theorem abs_sub_roundHalfEven (x : R) : |x - roundHalfEven x| ≤ 1 / 2 := by
  have hle := Int.floor_le x
  have hlt := Int.lt_floor_add_one x
  simp only [roundHalfEven]
  split
  case isTrue h  => exact abs_le.mpr ⟨by linarith, by linarith⟩
  case isFalse h =>
    split
    case isTrue h' => push_cast; exact abs_le.mpr ⟨by linarith, by linarith⟩
    case isFalse h' =>
      split
      case isTrue  => exact abs_le.mpr ⟨by linarith, by linarith⟩
      case isFalse => push_cast; exact abs_le.mpr ⟨by linarith, by linarith⟩

theorem abs_sub_roundTo (digits : Nat) (x : R) :
    |x - roundTo digits x| ≤ 1 / 2 / 10 ^ digits := by
  have hten : (0 : R) < 10 ^ digits := by positivity
  have he : x - roundTo digits x = (x * 10 ^ digits - roundHalfEven (x * 10 ^ digits)) / 10 ^ digits := by
    rw [roundTo]
    field_simp
  rw [he, abs_div, abs_of_pos hten]
  exact div_le_div_of_nonneg_right (abs_sub_roundHalfEven _) hten.le

theorem roundHalfEven_bound {a b : Int} {x : R} (ha : a ≤ x) (hb : x ≤ b) :
    a ≤ roundHalfEven x ∧ roundHalfEven x ≤ b := by
  have hle : a ≤ ⌊x⌋ := Int.le_floor.mpr ha
  have hge : ⌊x⌋ ≤ b := Int.floor_le_iff.mpr (by linarith)
  have hup (h : ¬x - ⌊x⌋ < 1 / 2) : ⌊x⌋ + 1 ≤ b := by
    by_contra hlt
    have hxb : (b : R) ≤ ⌊x⌋ := by exact_mod_cast (by omega : b ≤ ⌊x⌋)
    exact h (by linarith)
  simp only [roundHalfEven]
  split
  case isTrue    => exact ⟨hle, hge⟩
  case isFalse h =>
    have := hup h
    split
    case isTrue  => omega
    case isFalse =>
      split
      case isTrue  => exact ⟨hle, hge⟩
      case isFalse => omega

theorem roundTo_bound (digits : Nat) {x : R} (h₀ : 0 ≤ x) (h₁ : x ≤ 1) :
    0 ≤ roundTo digits x ∧ roundTo digits x ≤ 1 := by
  have hten : (0 : R) < 10 ^ digits := by positivity
  have hb : x * 10 ^ digits ≤ ((10 ^ digits : Int) : R) := by
    push_cast
    exact mul_le_of_le_one_left hten.le h₁
  obtain ⟨hlo, hhi⟩ := roundHalfEven_bound (a := 0) (b := 10 ^ digits)
    (by push_cast; positivity) hb
  refine ⟨div_nonneg (by exact_mod_cast hlo) hten.le, (div_le_one hten).mpr ?_⟩
  exact_mod_cast hhi

theorem roundHalfEven_mono {x y : R} (h : x ≤ y) : roundHalfEven x ≤ roundHalfEven y := by
  have hx := roundHalfEven_bound (Int.floor_le x) (b := ⌊x⌋ + 1)
    (by push_cast; exact (Int.lt_floor_add_one x).le)
  have hy := roundHalfEven_bound (Int.floor_le y) (b := ⌊y⌋ + 1)
    (by push_cast; exact (Int.lt_floor_add_one y).le)
  cases (Int.floor_mono h).lt_or_eq
  case inl hlt => omega
  -- Between two integers the number with the greater fraction is not rounded down further.
  case inr he =>
    simp only [roundHalfEven, he]
    split_ifs <;> first | omega | exfalso; linarith

theorem roundTo_mono (digits : Nat) {x y : R} (h : x ≤ y) : roundTo digits x ≤ roundTo digits y := by
  have hten : (0 : R) < 10 ^ digits := by positivity
  refine div_le_div_of_nonneg_right (Int.cast_le.mpr (roundHalfEven_mono ?_)) hten.le
  exact mul_le_mul_of_nonneg_right h hten.le

end Rounding

section Grid

variable {R : Type} [Field R]

-- The numbers with the given number of decimals.
def Decimal (digits : Nat) (x : R) : Prop :=
  ∃ n : Int, x = n / 10 ^ digits

namespace Decimal

variable {digits digits' : Nat} {x y : R}

theorem zero : Decimal digits (0 : R) :=
  ⟨0, by simp⟩

theorem add (hx : Decimal digits x) (hy : Decimal digits y) : Decimal digits (x + y) := by
  obtain ⟨n, rfl⟩ := hx
  obtain ⟨m, rfl⟩ := hy
  exact ⟨n + m, by rw [Int.cast_add, add_div]⟩

theorem sum {xs : List R} (h : ∀ x ∈ xs, Decimal digits x) : Decimal digits xs.sum := by
  induction xs
  case nil => exact zero
  case cons x xs hi =>
    rw [List.sum_cons]
    exact (h x List.mem_cons_self).add <| hi fun y hy => h y (List.mem_cons_of_mem _ hy)

theorem mul (hx : Decimal digits x) (hy : Decimal digits' y) :
    Decimal (digits + digits') (x * y) := by
  obtain ⟨n, rfl⟩ := hx
  obtain ⟨m, rfl⟩ := hy
  exact ⟨n * m, by rw [Int.cast_mul, pow_add, div_mul_div_comm]⟩

variable [LinearOrder R] [IsStrictOrderedRing R]

theorem mono (hx : Decimal digits x) (h : digits ≤ digits') : Decimal digits' x := by
  obtain ⟨n, rfl⟩ := hx
  obtain ⟨k, rfl⟩ := Nat.exists_eq_add_of_le h
  refine ⟨n * 10 ^ k, ?_⟩
  rw [Int.cast_mul, Int.cast_pow, pow_add, Int.cast_ofNat, mul_div_mul_right]
  positivity

variable [FloorRing R]

-- Rounding keeps a number that has no more decimals.
theorem roundTo (h : Decimal digits x) : roundTo digits x = x := by
  obtain ⟨n, rfl⟩ := h
  have hten : (10 : R) ^ digits ≠ 0 := by positivity
  have hround : roundHalfEven (n : R) = n := by simp [roundHalfEven]
  rw [MarTech.roundTo, div_mul_cancel₀ _ hten, hround]

end Decimal
end Grid

end MarTech
