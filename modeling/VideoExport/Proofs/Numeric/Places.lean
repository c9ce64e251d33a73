import Mathlib.Data.Nat.Cast.Order.Field
import VideoExport.Proofs.Numeric.Range

/-!
# Rounding to decimal places

Rounding goes below no number that a ratio reaches (`Binary64.le_roundRatio`), and what is rounded to decimal
places stays finite (`Binary64.millionths_finite`). Rounded to six places, a number is zero or not below one
ten-thousandth unless it lies strictly between one half and ninety-nine and a half of a millionth
(`Binary64.millionths_apart`).
-/

set_option autoImplicit false

namespace VideoExport.Binary64

variable {x y w : Finite} {num den : Nat} {q : Rat}

/-! ## Rounding keeps the order -/

theorem assemble_value {m : Nat} {e : Int} (h : assemble false m e = .finite w) :
    w.value = m * 2 ^ e := by
  unfold assemble at h
  by_cases carry : m = mantissaLimit
  · rw [if_pos carry] at h
    dsimp only at h
    split at h
    · cases h
      rw [Finite.value_positive rfl, carry, zpow_add_one₀ (by decide)]
      push_cast
      ring
    · cases h
  · rw [if_neg carry] at h
    dsimp only at h
    split at h
    · cases h
      exact Finite.value_positive rfl
    · cases h

/-- A ratio is rounded to nothing below a number that it reaches. -/
theorem le_roundRatio (hn : 0 < num) (hd : 0 < den) (hy : y.negative = false)
    (reached : y.value ≤ (num / den : Rat)) (h : roundRatio false num den = .finite w) :
    y.value ≤ w.value := by
  have power (e : Int) : (0 : Rat) < 2 ^ e := zpow_pos (by decide) e
  have bounds := significand_bounds hn hd
  rw [roundRatio_significand false hn hd] at h
  rw [assemble_value h]
  rw [y.value_positive hy] at reached ⊢
  generalize scale (num / den : Rat) = e at bounds ⊢
  rcases Int.le_total e y.exponent with fine | coarse
  · -- the number is a multiple of the step at the exponent of the ratio
    obtain ⟨k, hk⟩ := Int.eq_ofNat_of_zero_le (Int.sub_nonneg.2 fine)
    have multiple : (y.mantissa * 2 ^ y.exponent : Rat) = ((y.mantissa * 2 ^ k : Nat) : Rat) * 2 ^ e := by
      have exponent : y.exponent = (k : Int) + e := by omega
      rw [exponent, zpow_add₀ (by decide), zpow_natCast]
      push_cast
      ring
    rw [multiple] at reached ⊢
    exact mul_le_mul_of_nonneg_right (Nat.cast_le.2 (le_significand hd reached)) (power e).le
  · rcases Int.lt_or_eq_of_le coarse with coarse | same
    · have floor : mantissaFloor ≤ significand num den e := by
        have := y.canonical.2.1
        exact bounds.2.resolve_right (by omega)
      have short : (y.mantissa : Rat) ≤ 2 ^ (53 : Int) := by exact_mod_cast y.canonical.1.le
      calc (y.mantissa * 2 ^ y.exponent : Rat) ≤ 2 ^ (53 : Int) * 2 ^ (e - 1) :=
            mul_le_mul short (zpow_le_zpow_right₀ (by norm_num) (by omega)) (power _).le (power _).le
        _ = ((mantissaFloor : Nat) : Rat) * 2 ^ e := by
            rw [zpow_sub_one₀ (by decide)]
            norm_num
            ring
        _ ≤ significand num den e * 2 ^ e :=
            mul_le_mul_of_nonneg_right (Nat.cast_le.2 floor) (power e).le
    · subst same
      exact mul_le_mul_of_nonneg_right (Nat.cast_le.2 (le_significand hd reached)) (power _).le

/-- What is not negative stays so. -/
theorem round_nonneg (hq : 0 ≤ q) (h : round q false = .finite w) : 0 ≤ w.value := by
  have sign : decide (q.num < 0) = false := decide_eq_false (not_lt.2 (Rat.num_nonneg.2 hq))
  unfold round at h
  rw [sign] at h
  split at h
  · cases h
    decide +kernel
  · rename_i some
    rw [roundRatio_significand false (Int.natAbs_pos.2 some) q.den_pos] at h
    rw [assemble_value h]
    exact mul_nonneg (Nat.cast_nonneg _) (zpow_pos (by decide) _).le

/-! ## Places -/

theorem nearest_eq_zero_iff (hd : 0 < den) : nearest num den = 0 ↔ 2 * num ≤ den := by
  have parts := Nat.div_add_mod num den
  have rest := Nat.mod_lt num hd
  unfold nearest
  dsimp only
  generalize num / den = q at parts ⊢
  generalize num % den = r at parts rest ⊢
  rcases Nat.eq_zero_or_pos q with rfl | some
  · rw [Nat.mul_zero, Nat.zero_add] at parts
    subst parts
    by_cases half : 2 * r ≤ den
    · refine iff_of_true ?_ half
      split_ifs <;> first | rfl | omega
    · refine iff_of_false ?_ half
      rw [if_neg (by omega), if_pos (by omega)]
      exact Nat.one_ne_zero
  · have : den * 1 ≤ den * q := Nat.mul_le_mul_left den some
    refine iff_of_false (Nat.ne_of_gt ?_) (by omega)
    split_ifs <;> omega

theorem nearest_le_add_one (num den : Nat) : nearest num den ≤ num / den + 1 := by
  unfold nearest
  dsimp only
  split_ifs <;> omega

/-- A rational that is not negative, in millionths, as a ratio of integers. -/
theorem millionths_ratio (hq : 0 ≤ q) :
    ((q * (Nat.pow 10 6 : Nat)).num.natAbs : Rat) / (q * (Nat.pow 10 6 : Nat)).den = q * 1000000 := by
  rw [← abs_eq_ratio, abs_of_nonneg (by positivity)]
  norm_num

/-- How many millionths a rational that is not negative is rounded to. -/
theorem millionths_bounds (hq : 0 ≤ q) : (scaledPlaces q 6 = 0 ↔ q ≤ 1 / 2000000) ∧
    (100 ≤ scaledPlaces q 6 ↔ 199 / 2000000 ≤ q) ∧ (scaledPlaces q 6 : Rat) ≤ q * 1000000 + 1 := by
  have ratio := millionths_ratio hq
  unfold scaledPlaces
  dsimp only
  have hd : 0 < (q * (Nat.pow 10 6 : Nat)).den := Rat.den_pos _
  generalize (q * (Nat.pow 10 6 : Nat)).num.natAbs = n at ratio ⊢
  generalize (q * (Nat.pow 10 6 : Nat)).den = d at ratio hd ⊢
  have positive : (0 : Rat) < d := Nat.cast_pos.2 hd
  rw [div_eq_iff positive.ne'] at ratio
  rw [nearest_eq_zero_iff hd, even_le_nearest_iff hd (by decide) (by decide)]
  refine ⟨?_, ?_, ?_⟩
  · rw [← Nat.cast_le (α := Rat), Nat.cast_mul, ratio, ← mul_assoc, Nat.cast_ofNat,
      mul_le_iff_le_one_left positive, le_div_iff₀ (by norm_num)]
    constructor <;> intro h <;> linarith
  · have scaled : (2 * 100 * d ≤ 2 * n + d) ↔ 199 * (d : Rat) ≤ q * 2000000 * d := by
      rw [← Nat.cast_le (α := Rat)]
      push_cast
      rw [ratio]
      constructor <;> intro h <;> linarith
    rw [scaled, mul_le_mul_iff_of_pos_right positive, div_le_iff₀ (by norm_num)]
  · calc ((nearest n d : Nat) : Rat) ≤ ((n / d + 1 : Nat) : Rat) := Nat.cast_le.2 (nearest_le_add_one n d)
      _ ≤ (n : Rat) / d + 1 := by
          push_cast
          exact add_le_add_left (Nat.cast_div_le (α := Rat)) 1
      _ = q * 1000000 + 1 := by rw [ratio, mul_div_cancel_right₀ _ positive.ne']

/-- A rational that a number reaches is rounded to a number. -/
theorem millionths_finite (hq : 0 ≤ q) (hx : q ≤ x.value) :
    ∃ w, roundRatio false (scaledPlaces q 6) (Nat.pow 10 6) = .finite w := by
  have bounds := millionths_bounds hq
  rcases Nat.eq_zero_or_pos (scaledPlaces q 6) with none | some
  · rw [none]
    exact ⟨_, rfl⟩
  · have range := roundRatio_isFinite_iff false some (by decide : 0 < Nat.pow 10 6)
    have below : ((scaledPlaces q 6 : Nat) / (Nat.pow 10 6 : Nat) : Rat) < overflow := by
      have power : (1 : Rat) ≤ 2 ^ (970 : Int) := one_le_zpow₀ (by norm_num) (by norm_num)
      have most := bounds.2.2
      have largest := (le_abs_self _).trans x.abs_value_le
      have million : ((Nat.pow 10 6 : Nat) : Rat) = 1000000 := by norm_num
      rw [million, div_lt_iff₀ (by norm_num)]
      generalize (2 : Rat) ^ (970 : Int) = step at power largest
      linarith
    cases h : roundRatio false (scaledPlaces q 6) (Nat.pow 10 6) with
    | finite w => exact ⟨w, rfl⟩
    | nan => exact absurd h (roundRatio_ne_nan _ _ _)
    | infinite s =>
      have finite := range.2 below
      rw [h] at finite
      cases finite

/-- Fewer than a hundred millionths are less than one ten-thousandth. -/
theorem few_millionths : ∀ k < 100, 0 < k → ∀ v ∈ (roundRatio false k (Nat.pow 10 6)).value?,
    0 < v ∧ v < 1 / 10000 := by decide +kernel

/-- The number next to a hundred millionths is not. -/
def hundredMillionths : Finite := ⟨false, 7378697629483821, -66, by decide⟩

theorem hundredMillionths_eq : roundRatio false 100 (Nat.pow 10 6) = .finite hundredMillionths ∧
    1 / 10000 ≤ hundredMillionths.value ∧ hundredMillionths.value ≤ 101 / 1000000 := by
  decide +kernel

/-- Rounded to millionths, a rational is zero or not below one ten-thousandth unless it lies strictly
between one half and ninety-nine and a half of a millionth. -/
theorem millionths_apart (hq : 0 ≤ q)
    (h : roundRatio false (scaledPlaces q 6) (Nat.pow 10 6) = .finite w) :
    (w.value = 0 ∨ 1 / 10000 ≤ w.value) ↔ q ≤ 1 / 2000000 ∨ 199 / 2000000 ≤ q := by
  obtain ⟨zero, hundred, -⟩ := millionths_bounds hq
  rw [← zero, ← hundred]
  generalize scaledPlaces q 6 = k at h ⊢
  have value : w.value ∈ (roundRatio false k (Nat.pow 10 6)).value? := by rw [h]; rfl
  rcases Nat.eq_zero_or_pos k with rfl | some
  · cases h
    exact iff_of_true (.inl (by decide +kernel)) (.inl rfl)
  · rcases Nat.lt_or_ge k 100 with few | many
    · obtain ⟨above, below⟩ := few_millionths k few some w.value value
      refine iff_of_false ?_ (by omega)
      rintro (none | large) <;> linarith
    · obtain ⟨same, above, below⟩ := hundredMillionths_eq
      refine iff_of_true (.inr ?_) (.inr many)
      rcases Nat.eq_or_lt_of_le many with rfl | more
      · cases same.symm.trans h
        exact above
      · refine above.trans (le_roundRatio some (by decide) rfl (below.trans ?_) h)
        have million : ((Nat.pow 10 6 : Nat) : Rat) = 1000000 := by norm_num
        rw [million]
        have : (101 : Rat) ≤ k := by exact_mod_cast more
        gcongr

end VideoExport.Binary64
