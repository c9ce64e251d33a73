import Mathlib.Data.Int.Log
import VideoExport.Proofs.Numeric.Places
import VideoExport.Size

/-!
# Sizes that can be shown

The logarithm of a number of bytes is not negative, and small, so that a number of bytes fills one of the
units (`Size.unitPlace_ok`) and can be shown, however large it is within reason (`Size.text_ok`).
-/

set_option autoImplicit false

namespace VideoExport

namespace Binary64

/-! ## Logarithms -/

theorem logUnit_pos : (0 : Int) < logUnit := by
  unfold logUnit logPlaces
  decide +kernel

/-- What is at most one, times another such, is at most one. -/
theorem fixedProduct_bounds {a b : Int} (ha : 0 ≤ a ∧ a ≤ logUnit) (hb : 0 ≤ b ∧ b ≤ logUnit) :
    0 ≤ a * b / logUnit ∧ a * b / logUnit ≤ logUnit :=
  ⟨Int.ediv_nonneg (Int.mul_nonneg ha.1 hb.1) logUnit_pos.le,
    Int.ediv_le_of_le_mul logUnit_pos (Int.mul_le_mul ha.2 hb.2 hb.1 logUnit_pos.le)⟩

theorem artanhTerms_bounds {square : Int} (hs : 0 ≤ square ∧ square ≤ logUnit) :
    ∀ (fuel odd : Nat) {power : Int}, 0 ≤ power ∧ power ≤ logUnit →
      0 ≤ artanhTerms square fuel odd power ∧ artanhTerms square fuel odd power ≤ fuel * logUnit
  | 0, _, _, _ => by
    unfold artanhTerms
    exact ⟨le_rfl, by simp⟩
  | fuel + 1, odd, power, hp => by
    obtain ⟨low, high⟩ := artanhTerms_bounds hs fuel (odd + 2) (fixedProduct_bounds hp hs)
    have term : 0 ≤ power / odd ∧ power / odd ≤ logUnit :=
      ⟨Int.ediv_nonneg hp.1 (Int.natCast_nonneg _), (Int.ediv_le_self _ hp.1).trans hp.2⟩
    unfold artanhTerms
    refine ⟨Int.add_nonneg term.1 low, ?_⟩
    rw [Nat.cast_succ, Int.add_mul, Int.one_mul, Int.add_comm]
    exact Int.add_le_add high term.2

theorem twiceArtanh_bounds (num den : Int) (hn : 0 ≤ num) (hd : num ≤ den) (positive : 0 < den) :
    0 ≤ twiceArtanh num den ∧ twiceArtanh num den ≤ 120 * logUnit := by
  have ratio : 0 ≤ num * logUnit / den ∧ num * logUnit / den ≤ logUnit :=
    ⟨Int.ediv_nonneg (Int.mul_nonneg hn logUnit_pos.le) positive.le,
      Int.ediv_le_of_le_mul positive (by
        rw [Int.mul_comm]
        exact Int.mul_le_mul_of_nonneg_left hd logUnit_pos.le)⟩
  obtain ⟨low, high⟩ := artanhTerms_bounds (fixedProduct_bounds ratio ratio) 60 1 ratio
  unfold twiceArtanh
  dsimp only
  constructor
  · omega
  · push_cast at high
    omega

/-- The logarithm of a number of bytes is finite, and not negative. -/
theorem logOfRat_nat {n : Nat} (positive : 0 < n) (h : n < 2 ^ 64) :
    ∃ x : Finite, logOfRat (n : Int) = .finite x ∧ 0 ≤ x.value := by
  have value : (0 : Rat) < n := Nat.cast_pos.2 positive
  have exponent : floorLog2 ((n : Int) : Rat).num.natAbs ((n : Int) : Rat).den = Int.log 2 (n : Rat) := by
    rw [Rat.num_intCast, Rat.den_intCast, Int.natAbs_natCast, floorLog2_eq positive Nat.one_pos, Nat.cast_one,
      div_one]
  generalize he : Int.log 2 (n : Rat) = e at exponent
  have low : 0 ≤ e := by
    rw [← he, le_log2 value, zpow_zero]
    exact_mod_cast positive
  have high : e < 64 := by
    rw [← he, log2_lt value]
    exact_mod_cast h
  have power : (0 : Rat) < 2 ^ e := zpow_pos (by decide) e
  -- the significand is one at least
  generalize hm : ((n : Int) : Rat) / twoPow e = m
  have significand : (m.den : Int) ≤ m.num := by
    have one : 1 ≤ m := by
      rw [← hm, twoPow_eq, one_le_div power, Int.cast_natCast, ← le_log2 value, he]
    rw [← Rat.num_div_den m, one_le_div (Nat.cast_pos.2 m.den_pos)] at one
    exact_mod_cast one
  have den : (0 : Int) < m.den := Int.natCast_pos.2 m.den_pos
  obtain ⟨first, first'⟩ :=
    twiceArtanh_bounds (m.num - m.den) (m.num + m.den) (by omega) (by omega) (by omega)
  obtain ⟨two, two'⟩ := twiceArtanh_bounds 1 3 (by decide) (by decide) (by decide)
  generalize hs : twiceArtanh (m.num - m.den) (m.num + m.den) + e * twiceArtanh 1 3 = scaled
  have bounds : 0 ≤ scaled ∧ scaled ≤ 7800 * logUnit := by
    have times : 0 ≤ e * twiceArtanh 1 3 ∧ e * twiceArtanh 1 3 ≤ 64 * (120 * logUnit) :=
      ⟨Int.mul_nonneg low two, Int.mul_le_mul high.le two' two (by decide)⟩
    omega
  have rounded : logOfRat (n : Int) = round (mkRat scaled logUnit) false := by
    unfold logOfRat
    dsimp only
    rw [exponent, hm, hs]
  have unit : (0 : Rat) < (logUnit : Nat) := by exact_mod_cast logUnit_pos
  have nonneg : 0 ≤ mkRat scaled logUnit := by
    rw [Rat.mkRat_eq_div]
    exact div_nonneg (by exact_mod_cast bounds.1) unit.le
  have small : |mkRat scaled logUnit| < overflow := by
    rw [abs_of_nonneg nonneg, Rat.mkRat_eq_div]
    have upper : (scaled : Rat) / (logUnit : Nat) ≤ 7800 := by
      rw [div_le_iff₀ unit]
      exact_mod_cast bounds.2
    have power : (1 : Rat) ≤ 2 ^ (970 : Int) := one_le_zpow₀ (by decide) (by decide)
    rw [overflow_eq]
    calc (scaled : Rat) / (logUnit : Nat) ≤ 7800 := upper
      _ < (2 ^ 54 - 1) * 1 := by norm_num
      _ ≤ (2 ^ 54 - 1) * 2 ^ (970 : Int) := mul_le_mul_of_nonneg_left power (by norm_num)
  rcases round_cases (mkRat scaled logUnit) false with ⟨-, x, hx⟩ | ⟨beyond, -⟩
  · exact ⟨x, rounded.trans hx, round_nonneg nonneg hx⟩
  · exact absurd small (not_lt.2 beyond)

/-- A quotient of numbers that are not negative is none. -/
theorem round_nonneg_signed {q : Rat} {w : Finite} {s : Bool} (hq : 0 ≤ q) (h : round q s = .finite w) :
    0 ≤ w.value := by
  by_cases zero : q.num = 0
  · unfold round at h
    rw [if_pos zero] at h
    cases s <;> cases h <;> decide +kernel
  · have same : round q s = round q false := by
      unfold round
      rw [if_neg zero, if_neg zero]
    exact round_nonneg hq (same.symm.trans h)

/-- Whether a number is finite, and has a property. -/
def finiteWith (p : Finite → Bool) : Binary64 → Bool
  | .finite x => p x
  | .infinite _ | .nan => false

theorem exists_of_finiteWith {p : Finite → Bool} {b : Binary64} (h : b.finiteWith p = true) :
    ∃ x, b = .finite x ∧ p x = true := by
  cases b with
  | finite x => exact ⟨x, rfl, h⟩
  | infinite | nan => cases h

end Binary64

/-- The quotient of a finite number and one that is not zero. -/
theorem Number.div_finite {n : Number} {x y : Binary64.Finite} (hx : n.toReal = .ok (.finite x))
    (nonzero : y.mantissa ≠ 0) : n.div (.real (.finite y)) =
      .ok (.real (Binary64.round (x.value / y.value) (x.negative != y.negative))) := by
  have quotient : Binary64.div? (.finite x) (.finite y) =
      some (Binary64.round (x.value / y.value) (x.negative != y.negative)) := if_neg nonzero
  unfold div
  split
  · rename_i h
    cases h
  · rw [hx]
    dsimp only [toReal, bind, Except.bind]
    rw [quotient]
    rfl

namespace Size

open Binary64 (Finite overflow)

/-! ## Units -/

/-- The logarithm of a unit. -/
theorem log_unit : ∃ x : Finite, Binary64.log 1024 = .ok (.finite x) ∧ 1 ≤ x.value ∧ x.mantissa ≠ 0 := by
  have evaluated : (Binary64.log 1024).toOption.any
      (·.finiteWith fun x => decide (1 ≤ x.value ∧ x.mantissa ≠ 0)) = true := by decide +kernel
  cases logarithm : Binary64.log 1024 with
  | error => rw [logarithm] at evaluated; cases evaluated
  | ok b =>
    rw [logarithm] at evaluated
    obtain ⟨x, rfl, holds⟩ := Binary64.exists_of_finiteWith evaluated
    exact ⟨x, rfl, of_decide_eq_true holds⟩

/-- A number of bytes fills one of the units. -/
theorem unitPlace_ok {n : Nat} (positive : 0 < n) (h : n < 2 ^ 64) :
    ∃ place, unitPlace (.int n) = .ok place ∧ 0 ≤ place ∧ place ≤ 4 := by
  obtain ⟨x, hx, low⟩ := Binary64.logOfRat_nat positive h
  obtain ⟨y, hy, one, nonzero⟩ := log_unit
  have logarithm : Binary64.log (.int n) = .ok (.finite x) := by
    unfold Binary64.log
    dsimp only
    rw [if_neg (by omega), hx]
  have quotient : 0 ≤ x.value / y.value ∧ |x.value / y.value| < overflow := by
    have nonneg := div_nonneg low (one.trans' (by decide))
    refine ⟨nonneg, ?_⟩
    rw [abs_of_nonneg nonneg]
    exact (div_le_self low one).trans_lt ((le_abs_self _).trans_lt x.abs_value_lt)
  obtain ⟨z, hz, floor⟩ : ∃ z : Finite,
      Binary64.round (x.value / y.value) (x.negative != y.negative) = .finite z ∧
      0 ≤ z.value := by
    rcases Binary64.round_cases (x.value / y.value) (x.negative != y.negative) with ⟨-, z, hz⟩ | ⟨beyond, -⟩
    · exact ⟨z, hz, Binary64.round_nonneg_signed quotient.1 hz⟩
    · exact absurd quotient.2 (not_lt.2 beyond)
  refine ⟨min z.value.floor 4, ?_, le_min (Int.floor_nonneg.2 floor) (by decide), min_le_right _ _⟩
  have divided : (Number.real (.finite x)).div (.real (.finite y)) = .ok (.real (.finite z)) := by
    rw [Number.div_finite rfl nonzero, hz]
  unfold unitPlace
  rw [logarithm, hy]
  dsimp only [bind, Except.bind]
  rw [divided]
  rfl

/-- A unit is a number of bytes, and has a name. -/
theorem unit_ok {place : Int} (low : 0 ≤ place) (high : place ≤ 4) :
    (∃ u : Finite, unitSize place = .real (.finite u) ∧ u.mantissa ≠ 0) ∧
      ∃ name, unitAt? place = some name := by
  have evaluated : ∀ k < 5, (Binary64.round (Binary64.twoPow (10 * (k : Nat))) false).finiteWith
      (fun u => decide (u.mantissa ≠ 0)) = true ∧ (unitAt? (k : Nat)).isSome = true := by decide +kernel
  lift place to Nat using low
  obtain ⟨sized, named⟩ := evaluated place (by omega)
  refine ⟨?_, Option.isSome_iff_exists.1 named⟩
  obtain ⟨u, hu, nonzero⟩ := Binary64.exists_of_finiteWith sized
  exact ⟨u, congrArg Number.real hu, of_decide_eq_true nonzero⟩

theorem int_isFinite {n : Nat} (h : n < 2 ^ 64) : (Number.int n).isFinite = true := by
  have large : (2 : Rat) ^ 11 ≤ 2 ^ (970 : Int) := by
    rw [← zpow_natCast]
    exact zpow_le_zpow_right₀ (by decide) (by decide)
  rw [Number.int_isFinite_iff, Int.cast_natCast, Nat.abs_cast, Binary64.overflow_eq]
  calc (n : Rat) < 2 ^ 64 := by exact_mod_cast h
    _ ≤ (2 ^ 54 - 1) * 2 ^ 11 := by norm_num
    _ ≤ (2 ^ 54 - 1) * 2 ^ (970 : Int) := mul_le_mul_of_nonneg_left large (by norm_num)

/-- A number of bytes can be shown. -/
theorem text_ok {n : Nat} (h : n < 2 ^ 64) (places : Nat) : ∃ t, text (.int n) places = .ok t := by
  unfold text
  split
  · exact ⟨_, rfl⟩
  rename_i nonzero
  have positive : 0 < n := by
    rcases Nat.eq_zero_or_pos n with rfl | positive
    · exact absurd (by decide) nonzero
    · exact positive
  obtain ⟨place, placed, low, high⟩ := unitPlace_ok positive h
  obtain ⟨⟨u, sized, nonzero⟩, name, named⟩ := unit_ok low high
  obtain ⟨x, hx⟩ := Number.toReal_eq_finite (int_isFinite h)
  have divided : (Number.int n).div (unitSize place) =
      .ok (.real (Binary64.round (x.value / u.value) (x.negative != u.negative))) := by
    rw [sized, Number.div_finite hx nonzero]
  have measured : inUnit (.int n) =
      .ok (place, .real (Binary64.round (x.value / u.value) (x.negative != u.negative))) := by
    unfold inUnit
    rw [placed]
    show (do return (place, ← (Number.int n).div (unitSize place)) : Except NumericError (Int × Number)) = _
    rw [divided]
    rfl
  rw [measured]
  show ∃ t, describe place (.real (Binary64.round (x.value / u.value) (x.negative != u.negative)))
    places = .ok t
  unfold describe
  rw [named]
  exact ⟨_, rfl⟩

end Size

end VideoExport
