import VideoExport.Graph.Tempo
import VideoExport.Proofs.Numeric.Range

/-!
# Halving and doubling

A number above two can be halved and one below one half doubled without rounding, subnormal numbers
included (`Finite.exists_half`, `Finite.exists_double`), and an exact quotient is what a division gives
(`div_exact`). So a loop that divides by two or by one half as long as a test asks for it loses nothing
(`Divides.run`), and as no finite number is too large or too small for its steps, it is the test that ends
it (`run_halving`, `run_doubling`).
-/

set_option autoImplicit false

namespace VideoExport.Binary64

variable {x y : Finite}

/-! ## Exact quotients -/

/-- A value that a number has is rounded to the number. -/
theorem round_value (positive : 0 < x.value) (s : Bool) : round x.value s = .finite x := by
  obtain ⟨sign, mantissa⟩ := Finite.value_pos_iff.1 positive
  have power : (0 : Rat) < 2 ^ x.exponent := zpow_pos (by decide) _
  have value := x.value_positive sign
  have near : x.Near x.value := by
    constructor
    case low | high => rw [value]; gcongr; linarith
    case lowest => intro _ _; rw [value]; gcongr; linarith
  have numerator : 0 < x.value.num := Rat.num_pos.2 positive
  have ratio : (x.value.num.natAbs : Rat) / x.value.den = x.value := by
    rw [← abs_eq_ratio, abs_of_pos positive]
  have rounded := roundRatio_near false (Int.natAbs_pos.2 numerator.ne') x.value.den_pos (ratio ▸ near)
  unfold round
  rw [if_neg numerator.ne', decide_eq_false (not_lt.2 numerator.le), rounded, ← sign]

theorem mantissa_ne_zero (positive : 0 < x.value) : x.mantissa ≠ 0 :=
  (Finite.value_pos_iff.1 positive).2.ne'

/-- A quotient that is a number is not rounded. -/
theorem div_exact {d : Finite} (hd : 0 < d.value) (positive : 0 < y.value)
    (quotient : x.value = d.value * y.value) :
    div? (.finite x) (.finite d) = some (.finite y) := by
  have exact : x.value / d.value = y.value := by rw [quotient, mul_div_cancel_left₀ _ hd.ne']
  show (if d.mantissa = 0 then none else some (round (x.value / d.value) _)) = _
  rw [if_neg (mantissa_ne_zero hd), exact, round_value positive]

/-- Above two, the exponent has room below. -/
theorem Finite.exists_half (h : 2 < x.value) : ∃ y : Finite, x.value = 2 * y.value := by
  obtain ⟨sign, -⟩ := value_pos_iff.1 (two_pos.trans h)
  have value := x.value_positive sign
  obtain ⟨short, least, largest, normal⟩ := x.canonical
  have above : -52 < x.exponent := by
    have mantissa : (x.mantissa : Rat) < 2 ^ (53 : Int) := by exact_mod_cast short
    have large : (2 : Rat) ^ (1 : Int) < 2 ^ (53 + x.exponent) := by
      rw [zpow_add₀ (by decide), zpow_one]
      rw [value] at h
      exact h.trans (mul_lt_mul_of_pos_right mantissa (zpow_pos (by decide) _))
    have := (zpow_lt_zpow_iff_right₀ (by norm_num)).1 large
    omega
  refine ⟨⟨false, x.mantissa, x.exponent - 1, short, by omega, by omega, .inl ?_⟩, ?_⟩
  · omega
  · rw [value, value_positive rfl]
    dsimp only
    rw [zpow_sub_one₀ (by decide)]
    ring

/-- Below one half, the exponent has room above; a subnormal significand is doubled itself. -/
theorem Finite.exists_double (positive : 0 < x.value) (h : x.value < 1 / 2) :
    ∃ y : Finite, x.value = 1 / 2 * y.value := by
  obtain ⟨sign, -⟩ := value_pos_iff.1 positive
  have value := x.value_positive sign
  obtain ⟨short, least, largest, normal⟩ := x.canonical
  by_cases subnormal : x.mantissa < mantissaFloor
  · obtain exponent : x.exponent = -1074 := normal.resolve_left (Nat.not_le.2 subnormal)
    have limit : mantissaLimit = 2 * mantissaFloor := rfl
    refine ⟨⟨false, 2 * x.mantissa, -1074, by omega, by omega, by omega, .inr rfl⟩, ?_⟩
    rw [value, value_positive rfl, exponent]
    generalize (2 : Rat) ^ (-1074 : Int) = power
    push_cast
    ring
  · have below : x.exponent < -53 := by
      have mantissa : (2 : Rat) ^ (52 : Int) ≤ x.mantissa := by
        exact_mod_cast Nat.not_lt.1 subnormal
      have small : (2 : Rat) ^ (52 + x.exponent) < 2 ^ (-1 : Int) := by
        rw [zpow_add₀ (by decide), zpow_neg_one, ← one_div]
        rw [value] at h
        exact (mul_le_mul_of_nonneg_right mantissa (zpow_pos (by decide) _).le).trans_lt h
      have := (zpow_lt_zpow_iff_right₀ (by norm_num)).1 small
      omega
    refine ⟨⟨false, x.mantissa, x.exponent + 1, short, by omega, by omega, .inl ?_⟩, ?_⟩
    · omega
    · rw [value, value_positive rfl]
      dsimp only
      rw [zpow_add_one₀ (by decide)]
      ring

/-! ## Loops of divisions -/

/-- A test that asks of the value of a number, and a divisor of value `c` by which a number that is asked
for can be divided exactly. -/
structure Divides (test : Binary64 → Bool) (divisor : Binary64) (c : Rat) (asks : Rat → Prop) : Prop where
  positive : 0 < c
  asked : ∀ x : Finite, test (.finite x) = true ↔ asks x.value
  exact : ∀ x : Finite, 0 < x.value → asks x.value →
    ∃ y : Finite, div? (.finite x) divisor = some (.finite y) ∧ x.value = c * y.value

section
variable {test : Binary64 → Bool} {divisor : Binary64} {c : Rat} {asks : Rat → Prop}

/-- With steps enough, the loop ends where the test asks no more, and the divisions are undone by as many
multiplications. What was there before the last of them was asked for. -/
theorem Divides.run (h : Divides test divisor c asks) (fuel : Nat) (positive : 0 < x.value)
    (enough : ¬ asks (x.value / c ^ fuel)) :
    ∃ (n : Nat) (y : Finite), divideWhile test divisor fuel (.finite x) = (n, .finite y) ∧
      x.value = c ^ n * y.value ∧ ¬ asks y.value ∧ (asks x.value → asks (c * y.value)) := by
  induction fuel generalizing x with
  | zero =>
    rw [pow_zero, div_one] at enough
    exact ⟨0, x, rfl, by simp, enough, fun asked => absurd asked enough⟩
  | succ fuel ih =>
    unfold divideWhile
    by_cases asked : asks x.value
    · obtain ⟨y, quotient, value⟩ := h.exact x positive asked
      have pos : 0 < y.value := pos_of_mul_pos_right (value ▸ positive) h.positive.le
      have left : y.value / c ^ fuel = x.value / c ^ (fuel + 1) := by
        rw [value, pow_succ', mul_div_mul_left _ _ h.positive.ne']
      obtain ⟨n, z, loop, product, done, last⟩ := ih pos (left ▸ enough)
      refine ⟨n + 1, z, ?_, ?_, done, fun _ => ?_⟩
      · rw [if_pos ((h.asked x).2 asked), quotient]
        dsimp only
        rw [loop]
      · rw [value, product, pow_succ']
        ring
      · by_cases more : asks y.value
        · exact last more
        · -- the loop had ended with `y`, so `z` is it
          have ended : divideWhile test divisor fuel (.finite y) = (0, .finite y) := by
            cases fuel with
            | zero => rfl
            | succ fuel => exact if_neg (mt (h.asked y).1 more)
          cases loop.symm.trans ended
          exact value ▸ asked
    · refine ⟨0, x, if_neg (mt (h.asked x).1 asked), by simp, asked, fun asks => absurd asks asked⟩

end

/-! ## The two loops -/

theorem exists_two : ∃ t : Finite, two = .finite t ∧ t.value = 2 :=
  ⟨⟨false, mantissaFloor, -51, by decide⟩, by decide +kernel, by decide +kernel⟩

theorem exists_oneHalf : ∃ t : Finite, half = .finite t ∧ t.value = 1 / 2 :=
  ⟨⟨false, mantissaFloor, -53, by decide⟩, by decide +kernel, by decide +kernel⟩

theorem two_lt_iff : (Number.real .two).lt (.real (.finite x)) = true ↔ 2 < x.value := by
  obtain ⟨t, two, value⟩ := exists_two
  rw [two, Number.lt_iff (a := .real (.finite t)) (b := .real (.finite x)) rfl rfl, value]

theorem lt_half_iff : (Number.real (.finite x)).lt (.real .half) = true ↔ x.value < 1 / 2 := by
  obtain ⟨t, half, value⟩ := exists_oneHalf
  rw [half, Number.lt_iff (a := .real (.finite x)) (b := .real (.finite t)) rfl rfl, value]

theorem halving : Divides (fun y => (Number.real .two).lt (.real y)) .two 2 (2 < ·) where
  positive := two_pos
  asked _ := two_lt_iff
  exact x positive above := by
    obtain ⟨t, two, value⟩ := exists_two
    obtain ⟨y, half⟩ := Finite.exists_half above
    refine ⟨y, ?_, half⟩
    rw [two]
    exact div_exact (by rw [value]; norm_num) (by linarith) (by rw [value, half])

theorem doubling : Divides (fun y => (Number.real y).lt (.real .half)) .half (1 / 2) (· < 1 / 2) where
  positive := by norm_num
  asked _ := lt_half_iff
  exact x positive below := by
    obtain ⟨t, oneHalf, value⟩ := exists_oneHalf
    obtain ⟨y, double⟩ := Finite.exists_double positive below
    refine ⟨y, ?_, double⟩
    rw [oneHalf]
    exact div_exact (by rw [value]; norm_num) (by linarith) (by rw [value, double])

/-- No finite number is above two after all steps of halving. -/
theorem run_halving (h : 2 < x.value) : ∃ (n : Nat) (y : Finite),
    divideWhile (fun y => (Number.real .two).lt (.real y)) .two tempoSteps (.finite x) = (n, .finite y) ∧
      x.value = 2 ^ n * y.value ∧ 1 < y.value ∧ y.value ≤ 2 := by
  have enough : ¬ 2 < x.value / 2 ^ tempoSteps := by
    have bound : x.value < (2 : Rat) ^ (1024 : Int) := by
      refine ((le_abs_self _).trans_lt x.abs_value_lt).trans (sub_lt_self _ (zpow_pos (by decide) _))
    have room : (2 : Rat) ^ (1024 : Int) ≤ 2 ^ (1 + tempoSteps) := by
      rw [← zpow_natCast]
      exact zpow_le_zpow_right₀ (by norm_num) (by decide)
    rw [not_lt, div_le_iff₀ (by positivity), ← pow_succ', Nat.add_comm]
    exact bound.le.trans room
  obtain ⟨n, y, loop, product, done, last⟩ := halving.run tempoSteps (two_pos.trans h) enough
  have := last h
  exact ⟨n, y, loop, product, by linarith, not_lt.1 done⟩

/-- No positive number is below one half after all steps of doubling. -/
theorem run_doubling (positive : 0 < x.value) (h : x.value < 1 / 2) : ∃ (n : Nat) (y : Finite),
    divideWhile (fun y => (Number.real y).lt (.real .half)) .half tempoSteps (.finite x) = (n, .finite y) ∧
      x.value = (1 / 2) ^ n * y.value ∧ 1 / 2 ≤ y.value ∧ y.value < 1 := by
  have enough : ¬ x.value / (1 / 2) ^ tempoSteps < 1 / 2 := by
    have bound : (2 : Rat) ^ (-1074 : Int) ≤ x.value := by
      obtain ⟨k, multiple⟩ := x.exists_multiple
      have step : (0 : Rat) < least := zpow_pos (by decide) _
      have one : (1 : Rat) ≤ k := by
        have : 0 < k := by
          rw [multiple] at positive
          exact_mod_cast pos_of_mul_pos_left positive step.le
        exact_mod_cast this
      rw [multiple]
      exact le_mul_of_one_le_left step.le one
    have room : (1 / 2 : Rat) * (1 / 2) ^ tempoSteps ≤ 2 ^ (-1074 : Int) := by
      rw [← pow_succ', one_div, inv_pow, ← zpow_natCast, ← zpow_neg]
      exact zpow_le_zpow_right₀ (by norm_num) (by decide)
    rw [not_lt, le_div_iff₀ (by positivity)]
    exact room.trans bound
  obtain ⟨n, y, loop, product, done, last⟩ := doubling.run tempoSteps positive enough
  have := last h
  exact ⟨n, y, loop, product, not_lt.1 done, by linarith⟩

end VideoExport.Binary64
