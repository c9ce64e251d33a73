import VideoExport.Proofs.Number
import VideoExport.Proofs.Numeric.Shortest

/-!
# The range of rounding

A rational is rounded to an infinity exactly from `Binary64.overflow` on, which lies half a step above
the largest finite number (`Binary64.round_isFinite_iff`), and to zero only if it lies closer to zero
than the least positive number. So the sign of a rational that is not so small is that of the number it
is rounded to (`Binary64.round_le_zero_iff`), and with it the order of two numbers shows in their
difference (`Binary64.sub_le_zero_iff`).
-/

set_option autoImplicit false

namespace VideoExport

namespace Binary64

/-- The least magnitude that is rounded to an infinity: what is nearer to the next power of two than to
the largest finite number, and what lies between the two. -/
def overflow : Rat := 2 ^ (1024 : Int) - 2 ^ (970 : Int)

/-- The least positive number. -/
def least : Rat := 2 ^ (-1074 : Int)

/-- The powers of two next to the bound as multiples of one power. -/
theorem twoPow_above {e : Int} (k : Nat) (h : e = 970 + k) :
    (2 : Rat) ^ e = 2 ^ k * 2 ^ (970 : Int) := by
  rw [h, zpow_add₀ (by decide), mul_comm, zpow_natCast]

theorem overflow_eq : overflow = (2 ^ 54 - 1) * 2 ^ (970 : Int) := by
  rw [overflow, twoPow_above (e := 1024) 54 rfl, sub_mul, one_mul]

theorem overflow_positive : 0 < overflow := by
  rw [overflow_eq]
  exact mul_pos (by norm_num) (zpow_pos (by decide) _)

/-! ## The nearest integer -/

section
variable {num den n : Nat}

theorem le_nearest (hd : 0 < den) (h : n * den ≤ num) : n ≤ nearest num den := by
  have floor : n ≤ num / den := (Nat.le_div_iff_mul_le hd).2 h
  unfold nearest
  dsimp only
  split
  · exact floor
  · split
    · omega
    · split <;> omega

theorem nearest_le (hd : 0 < den) (h : num ≤ n * den) : nearest num den ≤ n := by
  have parts := Nat.div_add_mod num den
  have rest := Nat.mod_lt num hd
  have floor : num / den ≤ n := Nat.div_le_of_le_mul (by rwa [Nat.mul_comm])
  unfold nearest
  dsimp only
  rcases Nat.lt_or_eq_of_le floor with below | same
  · split
    · exact floor
    · split
      · omega
      · split <;> omega
  · -- the integer itself leaves no remainder
    have none : num % den = 0 := by
      rw [same, Nat.mul_comm] at parts
      omega
    rw [none, if_pos (by omega)]
    exact floor

/-- An even integer takes what lies halfway below it. -/
theorem even_le_nearest_iff (hd : 0 < den) (even : n % 2 = 0) (positive : 0 < n) :
    n ≤ nearest num den ↔ 2 * n * den ≤ 2 * num + den := by
  have parts := Nat.div_add_mod num den
  have rest := Nat.mod_lt num hd
  unfold nearest
  dsimp only
  generalize num / den = q at parts ⊢
  generalize num % den = r at parts rest ⊢
  rcases Nat.lt_or_ge q n with below | above
  · rcases Nat.lt_or_ge (q + 1) n with far | near
    · have room : den * (q + 2) ≤ den * n := Nat.mul_le_mul_left den (by omega)
      have short : ¬ 2 * n * den ≤ 2 * num + den := by nlinarith
      refine iff_of_false (fun h => ?_) short
      split at h
      · omega
      · split at h
        · omega
        · split at h <;> omega
    · obtain rfl : n = q + 1 := by omega
      have half : 2 * (q + 1) * den ≤ 2 * num + den ↔ den ≤ 2 * r := by
        constructor <;> intro h <;> nlinarith
      rw [half]
      split
      · omega
      · split
        · omega
        · rw [if_neg (by omega)]
          omega
  · have enough : 2 * n * den ≤ 2 * num + den := by
      have room : den * n ≤ den * q := Nat.mul_le_mul_left den above
      nlinarith
    refine iff_of_true ?_ enough
    split
    · exact above
    · split
      · omega
      · split <;> omega

end

/-! ## Significands -/

/-- The exponent of the number next to a positive rational. -/
def scale (v : Rat) : Int := max (Int.log 2 v - 52) (-1074)

/-- The significand of a ratio at an exponent. -/
def significand (num den : Nat) (e : Int) : Nat :=
  if 0 ≤ e then nearest num (den * Nat.pow 2 e.toNat) else nearest (num * Nat.pow 2 (-e).toNat) den

section
variable {num den n : Nat} {e : Int}

/-- A significand is the integer nearest to the ratio that is left at the exponent. -/
theorem exists_scaled (hd : 0 < den) (num : Nat) (e : Int) : ∃ num' den' : Nat, 0 < den' ∧
    significand num den e = nearest num' den' ∧ (num' / den' : Rat) = num / den / 2 ^ e := by
  unfold significand
  by_cases h : 0 ≤ e
  · refine ⟨num, den * Nat.pow 2 e.toNat, Nat.mul_pos hd (Nat.pow_pos (by decide)), if_pos h, ?_⟩
    rw [Nat.cast_mul, natPow_cast h, div_div]
    rfl
  · refine ⟨num * Nat.pow 2 (-e).toNat, den, hd, if_neg h, ?_⟩
    rw [Nat.cast_mul, natPow_cast (by omega), zpow_neg, ← div_eq_mul_inv, div_right_comm]
    rfl

theorem le_significand (hd : 0 < den) (h : (n : Rat) * 2 ^ e ≤ num / den) :
    n ≤ significand num den e := by
  obtain ⟨num', den', hd', same, ratio⟩ := exists_scaled hd num e
  rw [← le_div_iff₀ (zpow_pos (by decide) e), ← ratio, le_div_iff₀ (Nat.cast_pos.2 hd')] at h
  rw [same]
  exact le_nearest hd' (by exact_mod_cast h)

theorem significand_le (hd : 0 < den) (h : (num / den : Rat) ≤ n * 2 ^ e) :
    significand num den e ≤ n := by
  obtain ⟨num', den', hd', same, ratio⟩ := exists_scaled hd num e
  rw [← div_le_iff₀ (zpow_pos (by decide) e), ← ratio, div_le_iff₀ (Nat.cast_pos.2 hd')] at h
  rw [same]
  exact nearest_le hd' (by exact_mod_cast h)

theorem even_le_significand_iff (hd : 0 < den) (even : n % 2 = 0) (positive : 0 < n) :
    n ≤ significand num den e ↔ (n - 1 / 2 : Rat) * 2 ^ e ≤ num / den := by
  obtain ⟨num', den', hd', same, ratio⟩ := exists_scaled hd num e
  have positive' : (0 : Rat) < den' := Nat.cast_pos.2 hd'
  rw [← le_div_iff₀ (zpow_pos (by decide) e), ← ratio, le_div_iff₀ positive', same,
    even_le_nearest_iff hd' even positive, ← Nat.cast_le (α := Rat)]
  push_cast
  constructor
  · intro h
    linarith
  · intro h
    linarith

theorem roundRatio_significand (s : Bool) (hn : 0 < num) (hd : 0 < den) :
    roundRatio s num den =
      assemble s (significand num den (scale (num / den))) (scale (num / den)) := by
  unfold roundRatio
  rw [if_neg hn.ne', floorLog2_eq hn hd]
  rfl

/-- The significand of a ratio has 53 bits, or is the least number of 54 bits; it has fewer only at the
least exponent. -/
theorem significand_bounds (hn : 0 < num) (hd : 0 < den) :
    significand num den (scale (num / den)) ≤ mantissaLimit ∧
      (mantissaFloor ≤ significand num den (scale (num / den)) ∨ scale (num / den) = -1074) := by
  have positive : (0 : Rat) < num / den := div_pos (Nat.cast_pos.2 hn) (Nat.cast_pos.2 hd)
  constructor
  · apply significand_le hd
    have limit : ((mantissaLimit : Nat) : Rat) = 2 ^ (53 : Int) := by norm_num
    rw [limit, ← zpow_add₀ (by decide)]
    refine le_of_lt ((log2_lt positive).1 ?_)
    unfold scale
    omega
  · rcases lt_or_ge (Int.log 2 (num / den : Rat)) (-1022) with small | large
    · exact .inr (by unfold scale; omega)
    · refine .inl (le_significand hd ?_)
      have floor : ((mantissaFloor : Nat) : Rat) = 2 ^ (52 : Int) := by norm_num
      rw [floor, ← zpow_add₀ (by decide)]
      refine (le_log2 positive).1 ?_
      unfold scale
      omega

end

/-! ## Infinities -/

/-- A significand of a ratio makes a finite number unless its exponent is too large. -/
theorem assemble_isFinite_iff {m : Nat} {e : Int} (s : Bool) (short : m ≤ mantissaLimit)
    (least : -1074 ≤ e) (normal : mantissaFloor ≤ m ∨ e = -1074) :
    (assemble s m e).isFinite = true ↔ e < 971 ∨ e = 971 ∧ m < mantissaLimit := by
  unfold assemble
  by_cases carry : m = mantissaLimit
  · rw [if_pos carry]
    dsimp only
    by_cases fits : e < 971
    · have canonical : Canonical mantissaFloor (e + 1) :=
        ⟨by decide, by omega, by omega, .inl (Nat.le_refl _)⟩
      rw [dif_pos canonical]
      exact iff_of_true rfl (.inl fits)
    · have beyond : ¬ Canonical mantissaFloor (e + 1) := fun h => fits (by have := h.2.2.1; omega)
      rw [dif_neg beyond]
      refine iff_of_false Bool.false_ne_true ?_
      omega
  · rw [if_neg carry]
    dsimp only
    by_cases fits : e ≤ 971
    · have canonical : Canonical m e := ⟨by omega, least, fits, normal⟩
      rw [dif_pos canonical]
      refine iff_of_true rfl ?_
      omega
    · have beyond : ¬ Canonical m e := fun h => fits h.2.2.1
      rw [dif_neg beyond]
      refine iff_of_false Bool.false_ne_true ?_
      omega

theorem roundRatio_isFinite_iff {num den : Nat} (s : Bool) (hn : 0 < num) (hd : 0 < den) :
    (roundRatio s num den).isFinite = true ↔ (num / den : Rat) < overflow := by
  have positive : (0 : Rat) < num / den := div_pos (Nat.cast_pos.2 hn) (Nat.cast_pos.2 hd)
  obtain ⟨short, normal⟩ := significand_bounds hn hd
  have power : (0 : Rat) < 2 ^ (970 : Int) := zpow_pos (by decide) _
  have bound : overflow = ((mantissaLimit : Nat) - 1 / 2 : Rat) * 2 ^ (971 : Int) := by
    rw [overflow_eq, twoPow_above (e := 971) 1 rfl]
    ring
  rw [roundRatio_significand s hn hd,
    assemble_isFinite_iff s short (by unfold scale; omega) normal]
  rcases lt_trichotomy (Int.log 2 (num / den : Rat)) 1023 with below | same | above
  · -- a ratio below the power of two before the bound
    have small : (num / den : Rat) < 2 ^ (1023 : Int) := (log2_lt positive).1 below
    refine iff_of_true (.inl (by unfold scale; omega)) (small.trans ?_)
    rw [overflow_eq, twoPow_above (e := 1023) 53 rfl]
    exact mul_lt_mul_of_pos_right (by norm_num) power
  · have exponent : scale (num / den : Rat) = 971 := by unfold scale; omega
    have tie : mantissaLimit ≤ significand num den 971 ↔ _ :=
      even_le_significand_iff hd (by decide) (by decide)
    rw [exponent, bound, ← not_le (a := _ * _), ← tie]
    omega
  · have large : (2 : Rat) ^ (1024 : Int) ≤ num / den := (le_log2 positive).1 (by omega)
    refine iff_of_false (by unfold scale; omega) (not_lt.2 (le_trans ?_ large))
    rw [overflow_eq, twoPow_above (e := 1024) 54 rfl]
    exact mul_le_mul_of_nonneg_right (by norm_num) power.le

/-- A rational as a ratio of its parts. -/
theorem abs_eq_ratio (q : Rat) : |q| = (q.num.natAbs : Rat) / q.den := by
  conv_lhs => rw [← Rat.num_div_den q]
  rw [abs_div, Nat.abs_cast, Nat.cast_natAbs, Int.cast_abs]

/-- Exactly the rationals of at least a certain magnitude are rounded to an infinity. -/
theorem round_isFinite_iff (q : Rat) (s : Bool) :
    (round q s).isFinite = true ↔ |q| < overflow := by
  unfold round
  split
  · rename_i none
    obtain rfl : q = 0 := Rat.num_eq_zero.1 none
    exact iff_of_true rfl (by rw [abs_zero]; exact overflow_positive)
  · rename_i some
    rw [roundRatio_isFinite_iff _ (Int.natAbs_pos.2 some) q.den_pos, abs_eq_ratio]

/-! ## Signs -/

section
variable {x y : Finite} {q : Rat}

theorem Finite.value_negative (h : x.negative = true) : x.value = -(x.mantissa * 2 ^ x.exponent) := by
  unfold value
  dsimp only
  rw [if_pos h, twoPow_eq]

theorem Finite.value_pos_iff : 0 < x.value ↔ x.negative = false ∧ 0 < x.mantissa := by
  have power : (0 : Rat) < 2 ^ x.exponent := zpow_pos (by decide) _
  cases sign : x.negative with
  | false =>
    rw [x.value_positive sign, mul_pos_iff_of_pos_right power, Nat.cast_pos]
    simp
  | true =>
    rw [x.value_negative sign, neg_pos, ← not_le]
    simpa using mul_nonneg (Nat.cast_nonneg x.mantissa) power.le

theorem finite_le_zero_iff : (Number.real (.finite x)).le 0 = true ↔ x.value ≤ 0 :=
  Number.le_iff (a := .real (.finite x)) (b := 0) rfl rfl

theorem assemble_cases (s : Bool) (m : Nat) (e : Int) : assemble s m e = .infinite s ∨
    ∃ x : Finite, assemble s m e = .finite x ∧ x.negative = s ∧ (0 < m → 0 < x.mantissa) := by
  unfold assemble
  by_cases carry : m = mantissaLimit
  · rw [if_pos carry]
    dsimp only
    split
    · exact .inr ⟨_, rfl, rfl, fun _ => (by decide : 0 < mantissaFloor)⟩
    · exact .inl rfl
  · rw [if_neg carry]
    dsimp only
    split
    · exact .inr ⟨_, rfl, rfl, id⟩
    · exact .inl rfl

/-- The sign of a number that is not zero shows on which side of zero it lies. -/
theorem assemble_le_zero_iff {s : Bool} {m : Nat} (h : s = true ∨ 0 < m) (e : Int) :
    (Number.real (assemble s m e)).le 0 = true ↔ s = true := by
  rcases assemble_cases s m e with infinite | ⟨x, finite, sign, positive⟩
  · rw [infinite]
    cases s <;> decide
  · rw [finite, finite_le_zero_iff, ← not_lt, Finite.value_pos_iff, sign]
    rcases h with rfl | h
    · simp
    · simp [positive h]

/-- What is not smaller than the least positive number has a significand. -/
theorem significand_pos {num den : Nat} (hn : 0 < num) (hd : 0 < den)
    (h : least ≤ (num / den : Rat)) : 0 < significand num den (scale (num / den)) := by
  have positive : (0 : Rat) < num / den := div_pos (Nat.cast_pos.2 hn) (Nat.cast_pos.2 hd)
  refine le_significand hd ?_
  rw [Nat.cast_one, one_mul]
  unfold scale
  rcases max_cases (Int.log 2 (num / den : Rat) - 52) (-1074) with ⟨same, -⟩ | ⟨same, -⟩
  · rw [same]
    exact (le_log2 positive).1 (by omega)
  · rw [same]
    exact h

/-- Rounding keeps the sign of what is not too small. -/
theorem round_le_zero_iff (s : Bool) (h : q ≤ 0 ∨ least ≤ q) :
    (Number.real (round q s)).le 0 = true ↔ q ≤ 0 := by
  have ratio := abs_eq_ratio q
  unfold round
  split
  · rename_i none
    obtain rfl : q = 0 := Rat.num_eq_zero.1 none
    refine iff_of_true ?_ le_rfl
    cases s <;> decide +kernel
  · rename_i some
    have numerator : 0 < q.num.natAbs := Int.natAbs_pos.2 some
    have negative : decide (q.num < 0) = true ↔ q ≤ 0 := by
      rw [decide_eq_true_iff, Rat.num_neg]
      exact ⟨le_of_lt, fun h => lt_of_le_of_ne h fun zero => some (Rat.num_eq_zero.2 zero)⟩
    rw [roundRatio_significand _ numerator q.den_pos, assemble_le_zero_iff _ _, negative]
    rcases h with below | above
    · exact .inl (negative.2 below)
    · refine .inr (significand_pos numerator q.den_pos ?_)
      rwa [← ratio, abs_of_nonneg ((zpow_pos (by decide) _).le.trans above)]

/-! ## Differences -/

/-- A finite number is a multiple of the least positive one. -/
theorem Finite.exists_multiple (x : Finite) : ∃ k : Int, x.value = k * least := by
  obtain ⟨shift, hshift⟩ : ∃ n : Nat, x.exponent = n + (-1074) :=
    ⟨(x.exponent + 1074).toNat, by have := x.canonical.2.1; omega⟩
  have power : (2 : Rat) ^ x.exponent = (2 ^ shift : Nat) * least := by
    rw [hshift, zpow_add₀ (by decide), zpow_natCast, least, Nat.cast_pow, Nat.cast_ofNat]
  cases sign : x.negative with
  | false =>
    refine ⟨(x.mantissa * 2 ^ shift : Nat), ?_⟩
    rw [x.value_positive sign, power]
    push_cast
    ring
  | true =>
    refine ⟨-(x.mantissa * 2 ^ shift : Nat), ?_⟩
    rw [x.value_negative sign, power]
    push_cast
    ring

theorem Finite.neg_value (x : Finite) : ({ x with negative := !x.negative } : Finite).value = -x.value := by
  unfold value
  cases x.negative <;> simp

/-- The difference of two finite numbers has the sign of their order: it is not too small for that. -/
theorem sub_le_zero_iff : (Number.real ((finite x).sub (.finite y))).le 0 = true ↔ x.value ≤ y.value := by
  have small : x.value + -y.value ≤ 0 ∨ least ≤ x.value + -y.value := by
    obtain ⟨k, hk⟩ := x.exists_multiple
    obtain ⟨l, hl⟩ := y.exists_multiple
    have step : (0 : Rat) < least := zpow_pos (by decide) _
    have difference : x.value + -y.value = (k - l : Int) * least := by
      rw [hk, hl]
      push_cast
      ring
    rw [difference]
    rcases le_or_gt (k - l) 0 with below | above
    · exact .inl (mul_nonpos_of_nonpos_of_nonneg (by exact_mod_cast below) step.le)
    · exact .inr (le_mul_of_one_le_left step.le (by exact_mod_cast above))
  show (Number.real (round (x.value + ({ y with negative := !y.negative } : Finite).value) _)).le 0 =
    true ↔ _
  rw [y.neg_value, round_le_zero_iff _ small]
  constructor
  · intro h
    linarith
  · intro h
    linarith

end

/-! ## Conversions and quotients -/

theorem roundRatio_ne_nan (s : Bool) (num den : Nat) : roundRatio s num den ≠ .nan := by
  unfold roundRatio
  split
  · exact nofun
  · rcases assemble_cases s _ _ with infinite | ⟨x, finite, -⟩
    · rw [infinite]
      exact nofun
    · rw [finite]
      exact nofun

/-- A rational is rounded to a finite number or, from the bound on, to an infinity. -/
theorem round_cases (q : Rat) (s : Bool) :
    (|q| < overflow ∧ ∃ x, round q s = .finite x) ∨
      overflow ≤ |q| ∧ ∃ negative, round q s = .infinite negative := by
  have range := round_isFinite_iff q s
  have number : round q s ≠ .nan := by
    unfold round
    split
    · exact nofun
    · exact roundRatio_ne_nan _ _ _
  cases h : round q s with
  | nan => exact absurd h number
  | infinite negative => exact .inr ⟨by simpa [h, isFinite] using range, negative, rfl⟩
  | finite x => exact .inl ⟨by simpa [h, isFinite] using range, x, rfl⟩

/-! ## Sums -/

/-- The largest number lies a whole half step below the bound of the range. -/
theorem Finite.abs_value_le (x : Finite) : |x.value| ≤ overflow - 2 ^ (970 : Int) := by
  obtain ⟨short, -, range, -⟩ := x.canonical
  have power : (0 : Rat) ≤ 2 ^ x.exponent := (zpow_pos (by decide) _).le
  have magnitude : |x.value| = x.mantissa * 2 ^ x.exponent := by
    cases sign : x.negative with
    | false => rw [x.value_positive sign, abs_of_nonneg (mul_nonneg (Nat.cast_nonneg _) power)]
    | true => rw [x.value_negative sign, abs_neg, abs_of_nonneg (mul_nonneg (Nat.cast_nonneg _) power)]
  have digits : (x.mantissa : Rat) ≤ 2 ^ 53 - 1 := by
    have : x.mantissa + 1 ≤ mantissaLimit := short
    have : (x.mantissa : Rat) + 1 ≤ (mantissaLimit : Nat) := by exact_mod_cast this
    norm_num at this ⊢
    linarith
  calc |x.value| = x.mantissa * 2 ^ x.exponent := magnitude
    _ ≤ (2 ^ 53 - 1) * 2 ^ (971 : Int) :=
        mul_le_mul digits (zpow_le_zpow_right₀ (by norm_num) range) power (by norm_num)
    _ = overflow - 2 ^ (970 : Int) := by
        rw [overflow_eq, twoPow_above (e := 971) 1 rfl]
        ring

theorem Finite.abs_value_lt (x : Finite) : |x.value| < overflow :=
  x.abs_value_le.trans_lt (sub_lt_self _ (zpow_pos (by decide) _))

/-- What lies beyond the range is rounded to positive infinity if it is positive. -/
theorem round_beyond {q : Rat} (h : overflow ≤ q) (s : Bool) : round q s = .infinite false := by
  have small : least ≤ q := by
    refine le_trans ?_ h
    rw [overflow_eq, least]
    calc (2 : Rat) ^ (-1074 : Int) ≤ 1 * 2 ^ (970 : Int) := by
          rw [one_mul]
          exact zpow_le_zpow_right₀ (by norm_num) (by norm_num)
      _ ≤ _ := mul_le_mul_of_nonneg_right (by norm_num) (zpow_pos (by decide) _).le
  have positive : ¬ q ≤ 0 := not_le.2 (overflow_positive.trans_le h)
  rcases round_cases q s with ⟨inside, -⟩ | ⟨-, sign, infinite⟩
  · exact absurd inside (not_lt.2 (h.trans (le_abs_self q)))
  · have order := round_le_zero_iff s (.inr small)
    rw [infinite] at order ⊢
    cases sign with
    | false => rfl
    | true => exact absurd (order.1 rfl) positive

/-- The sum of a number and a positive one is a number, or positive infinity. -/
theorem add_positive_cases {x y : Finite} (positive : 0 < y.value) :
    (finite x).add (.finite y) = .infinite false ∨ ∃ z, (finite x).add (.finite y) = .finite z := by
  show round (x.value + y.value) (x.negative && y.negative) = _ ∨ ∃ z, round _ _ = _
  rcases round_cases (x.value + y.value) (x.negative && y.negative) with ⟨-, hz⟩ | ⟨beyond, -⟩
  · exact .inr hz
  · -- a sum below the range would have a term below it
    refine .inl (round_beyond ?_ _)
    rcases le_abs'.1 beyond with below | above
    · have := (abs_lt.1 x.abs_value_lt).1
      linarith
    · exact above

end Binary64

namespace Number

open Binary64 (overflow)

/-- An integer is in the range exactly if it lies below the bound. -/
theorem int_isFinite_iff (n : Int) : (Number.int n).isFinite = true ↔ |(n : Rat)| < overflow :=
  Binary64.round_isFinite_iff _ _

theorem toReal_of_round {n : Int} {x : Binary64.Finite} (h : Binary64.round n false = .finite x) :
    (Number.int n).toReal = .ok (.finite x) := by
  rw [toReal, Binary64.ofInt, h]

/-- A number of the range has a binary64 number next to it. -/
theorem toReal_eq_finite {n : Number} (h : n.isFinite = true) :
    ∃ x : Binary64.Finite, n.toReal = .ok (.finite x) := by
  cases n with
  | int n =>
    rcases Binary64.round_cases (n : Rat) false with ⟨-, x, hx⟩ | ⟨beyond, -⟩
    · exact ⟨x, toReal_of_round hx⟩
    · exact absurd ((int_isFinite_iff n).1 h) (not_lt.2 beyond)
  | real x =>
    cases x with
    | finite x => exact ⟨x, rfl⟩
    | nan => cases h
    | infinite s => cases h

/-- An integer beyond the range has none. -/
theorem toReal_beyond {n : Int} (h : overflow ≤ |(n : Rat)|) :
    (Number.int n).toReal = .error .tooLargeForReal := by
  rcases Binary64.round_cases (n : Rat) false with ⟨inside, -⟩ | ⟨-, s, hs⟩
  · exact absurd inside (not_lt.2 h)
  · rw [toReal, Binary64.ofInt, hs]

/-- A positive number stays positive. -/
theorem toReal_positive {n : Number} {x : Binary64.Finite} (h : n.toReal = .ok (.finite x))
    (positive : Number.lt 0 n = true) : 0 < x.value := by
  have zero : (0 : Number).place? = some (0, 0) := rfl
  cases n with
  | real y =>
    cases h
    exact (lt_iff zero rfl).1 positive
  | int n =>
    have above : (0 : Rat) < n := (lt_iff (b := .int n) zero rfl).1 positive
    have unit : Binary64.least ≤ (n : Rat) := by
      have one : (1 : Rat) ≤ n := by exact_mod_cast Int.cast_pos.1 above
      refine LE.le.trans ?_ one
      rw [Binary64.least, zpow_neg]
      exact inv_le_one_of_one_le₀ (one_le_zpow₀ (by norm_num) (by decide))
    have rounded : Binary64.round (n : Rat) false = .finite x := by
      rcases Binary64.round_cases (n : Rat) false with ⟨-, y, hy⟩ | ⟨beyond, -⟩
      · cases (toReal_of_round hy).symm.trans h
        exact hy
      · cases (toReal_beyond beyond).symm.trans h
    have sign := Binary64.round_le_zero_iff false (.inr unit)
    rw [rounded, Binary64.finite_le_zero_iff] at sign
    exact not_le.1 (mt sign.1 (not_le.2 above))

end Number

end VideoExport
