import Mathlib.Data.Int.Log
import Mathlib.Data.Rat.Floor
import Mathlib.Tactic.FieldSimp
import Mathlib.Tactic.Linarith
import Mathlib.Tactic.NormNum
import Mathlib.Tactic.Positivity
import VideoExport.Numeric.Decimal

/-!
# What is rounded to a number

A positive ratio that lies closer to a finite number than half the way to the next numbers
(`Binary64.Finite.Near`) is rounded to that number (`Binary64.roundRatio_near`), and only the ratio
matters, not the pair of integers it is given by (`Binary64.roundRatio_mul`). The logarithms of the
model are those of the library (`Binary64.floorLog2_eq`, `Binary64.floorLog10_eq`).
-/

set_option autoImplicit false

namespace VideoExport.Binary64

/-! ## Powers and logarithms -/

theorem natPow_cast {b : Nat} {e : Int} (h : 0 ≤ e) :
    ((Nat.pow b e.toNat : Nat) : Rat) = (b : Rat) ^ e := by
  rw [Nat.pow_eq, Nat.cast_pow, ← zpow_natCast, Int.toNat_of_nonneg h]

theorem twoPow_eq (e : Int) : twoPow e = 2 ^ e := by
  unfold twoPow
  split
  · rename_i h
    exact natPow_cast h
  · rename_i h
    have power := natPow_cast (b := 2) (Int.neg_nonneg_of_nonpos (Int.le_of_not_le h))
    rw [Rat.mkRat_eq_div, power, zpow_neg, Int.cast_one, one_div, inv_inv]
    rfl

theorem tenPow_eq (e : Int) : tenPow e = 10 ^ e := by
  unfold tenPow
  split
  · rename_i h
    exact natPow_cast h
  · rename_i h
    have power := natPow_cast (b := 10) (Int.neg_nonneg_of_nonpos (Int.le_of_not_le h))
    rw [Rat.mkRat_eq_div, power, zpow_neg, Int.cast_one, one_div, inv_inv]
    rfl

/-- A first guess of a logarithm that is off by less than one, put right. -/
theorem guess_eq_log {b : Nat} (hb : 1 < b) {q : Rat} {k : Int} (low : (b : Rat) ^ (k - 1) ≤ q)
    (high : q < (b : Rat) ^ (k + 1)) : (if (b : Rat) ^ k ≤ q then k else k - 1) = Int.log b q := by
  have base : (0 : Rat) < b := Nat.cast_pos.2 (Nat.zero_lt_of_lt hb)
  have positive : 0 < q := (zpow_pos base _).trans_le low
  rw [Int.zpow_le_iff_le_log hb positive] at low
  rw [Int.lt_zpow_iff_log_lt hb positive] at high
  split <;> rename_i fits <;> rw [Int.zpow_le_iff_le_log hb positive] at fits <;> omega

/-- The quotient of two positive integers lies around the power that their numbers of digits tell. -/
theorem quotient_around {b : Nat} (hb : 1 < b) {num den i j : Nat} (hd : 0 < den)
    (hn : b ^ i ≤ num) (hn' : num < b ^ (i + 1)) (hj : b ^ j ≤ den) (hj' : den < b ^ (j + 1)) :
    (b : Rat) ^ ((i : Int) - j - 1) ≤ num / den ∧ (num / den : Rat) < (b : Rat) ^ ((i : Int) - j + 1) := by
  have base : (0 : Rat) < b := Nat.cast_pos.2 (Nat.zero_lt_of_lt hb)
  have power (e : Int) (k : Nat) : (b : Rat) ^ e * ((b ^ k : Nat) : Rat) = (b : Rat) ^ (e + k) := by
    rw [Nat.cast_pow, ← zpow_natCast, ← zpow_add₀ base.ne']
  have nonneg (e : Int) : (0 : Rat) ≤ (b : Rat) ^ e := (zpow_pos base e).le
  have positive : (0 : Rat) < den := Nat.cast_pos.2 hd
  constructor
  · rw [le_div_iff₀ positive]
    calc (b : Rat) ^ ((i : Int) - j - 1) * den
        ≤ (b : Rat) ^ ((i : Int) - j - 1) * ((b ^ (j + 1) : Nat) : Rat) :=
          mul_le_mul_of_nonneg_left (Nat.cast_le.2 hj'.le) (nonneg _)
      _ = (b : Rat) ^ (i : Int) := by rw [power]; congr 1; omega
      _ = ((b ^ i : Nat) : Rat) := by rw [Nat.cast_pow, zpow_natCast]
      _ ≤ num := Nat.cast_le.2 hn
  · rw [div_lt_iff₀ positive]
    calc (num : Rat) < ((b ^ (i + 1) : Nat) : Rat) := Nat.cast_lt.2 hn'
      _ = (b : Rat) ^ ((i + 1 : Nat) : Int) := by rw [Nat.cast_pow, zpow_natCast]
      _ = (b : Rat) ^ ((i : Int) - j + 1) * ((b ^ j : Nat) : Rat) := by rw [power]; congr 1; omega
      _ ≤ (b : Rat) ^ ((i : Int) - j + 1) * den :=
          mul_le_mul_of_nonneg_left (Nat.cast_le.2 hj) (nonneg _)

theorem floorLog2_eq {num den : Nat} (hn : 0 < num) (hd : 0 < den) :
    floorLog2 num den = Int.log 2 (num / den : Rat) := by
  have around := quotient_around (b := 2) (by decide) hd (Nat.log2_self_le hn.ne') Nat.lt_log2_self
    (Nat.log2_self_le hd.ne') Nat.lt_log2_self
  have positive : (0 : Rat) < den := Nat.cast_pos.2 hd
  rw [← guess_eq_log (by decide) around.1 around.2]
  unfold floorLog2
  dsimp only
  generalize (num.log2 : Int) - den.log2 = k
  refine if_congr ?_ rfl rfl
  rw [le_div_iff₀ positive]
  split
  · rename_i h
    rw [← natPow_cast h, mul_comm]
    exact_mod_cast Iff.rfl
  · rename_i h
    have power := natPow_cast (b := 2) (e := -k) (by omega)
    rw [← Nat.cast_le (α := Rat), Nat.cast_mul, power, zpow_neg, ← div_eq_mul_inv,
      le_div_iff₀ (zpow_pos (by decide) k), mul_comm]

/-- The number of digits, as powers of ten tell it. -/
theorem digitCount_bounds {n : Nat} (h : 0 < n) :
    ∃ i, digitCount n = i + 1 ∧ 10 ^ i ≤ n ∧ n < 10 ^ (i + 1) := by
  have positive : 0 < digitCount n := Nat.length_toDigits_pos
  obtain ⟨i, hi⟩ := Nat.exists_eq_add_of_lt positive
  rw [Nat.zero_add] at hi
  refine ⟨i, hi, ?_, (Nat.length_toDigits_le_iff (by decide) (Nat.succ_pos i)).1 hi.le⟩
  rcases Nat.eq_zero_or_pos i with rfl | hpos
  · exact h
  · refine Nat.le_of_not_lt fun small => ?_
    have short : digitCount n ≤ i := (Nat.length_toDigits_le_iff (by decide) hpos).2 small
    omega

theorem floorLog10_eq {q : Rat} (h : 0 < q) : floorLog10 q = Int.log 10 q := by
  obtain ⟨i, hi, low, high⟩ := digitCount_bounds (Int.natAbs_pos.2 (Rat.num_pos.2 h).ne')
  obtain ⟨j, hj, low', high'⟩ := digitCount_bounds q.den_pos
  have around := quotient_around (b := 10) (by decide) q.den_pos low high low' high'
  have quotient : ((q.num.natAbs : Nat) / q.den : Rat) = q := by
    rw [Nat.cast_natAbs, abs_of_pos (Rat.num_pos.2 h), Rat.num_div_den]
  rw [quotient] at around
  rw [← guess_eq_log (by decide) around.1 around.2]
  unfold floorLog10
  rw [hi, hj]
  dsimp only
  have same : ((i + 1 : Nat) : Int) - ((j + 1 : Nat) : Int) = (i : Int) - j := by omega
  rw [same, tenPow_eq]
  rfl

/-! ## The nearest integer -/

theorem nearest_of_near {num den n : Nat} (hd : 0 < den) (low : (n - 1 / 2 : Rat) < num / den)
    (high : (num / den : Rat) < n + 1 / 2) : nearest num den = n := by
  have positive : (0 : Rat) < den := Nat.cast_pos.2 hd
  rw [lt_div_iff₀ positive] at low
  rw [div_lt_iff₀ positive] at high
  have low : 2 * n * den < 2 * num + den := by
    have : (2 * n * den : Rat) < 2 * num + den := by linarith
    exact_mod_cast this
  have high : 2 * num < (2 * n + 1) * den := by
    have : (2 * num : Rat) < (2 * n + 1) * den := by linarith
    exact_mod_cast this
  have parts := Nat.div_add_mod num den
  have rest := Nat.mod_lt num hd
  unfold nearest
  dsimp only
  generalize num / den = q at parts ⊢
  generalize num % den = r at parts rest ⊢
  -- `num = den * q + r` puts `q` at `n` or right below it, and which of them it is tells `r`.
  have upper : q ≤ n := by
    by_contra above
    have : den * (n + 1) ≤ den * q := Nat.mul_le_mul_left den (by omega)
    nlinarith
  have lower : n ≤ q + 1 := by
    by_contra below
    have : den * (q + 2) ≤ den * n := Nat.mul_le_mul_left den (by omega)
    nlinarith
  rcases Nat.le_iff_lt_or_eq.1 upper with h | rfl
  · obtain rfl : n = q + 1 := by omega
    have past : den < 2 * r := by nlinarith
    rw [if_neg (by omega), if_pos past]
  · have before : 2 * r < den := by nlinarith
    rw [if_pos before]

theorem nearest_mul (num den : Nat) {k : Nat} (hk : 0 < k) :
    nearest (num * k) (den * k) = nearest num den := by
  have twice : 2 * (num % den * k) = 2 * (num % den) * k := (Nat.mul_assoc _ _ _).symm
  unfold nearest
  dsimp only
  rw [Nat.mul_div_mul_right _ _ hk, Nat.mul_mod_mul_right, twice]
  simp only [Nat.mul_lt_mul_right hk]

/-- The significand at an exponent. -/
theorem significand_of_near {num den n : Nat} {e : Int} (hd : 0 < den)
    (low : (n - 1 / 2 : Rat) * 2 ^ e < num / den) (high : (num / den : Rat) < (n + 1 / 2) * 2 ^ e) :
    (if 0 ≤ e then nearest num (den * Nat.pow 2 e.toNat)
      else nearest (num * Nat.pow 2 (-e).toNat) den) = n := by
  have power : (0 : Rat) < 2 ^ e := zpow_pos (by decide) e
  rw [← lt_div_iff₀ power] at low
  rw [← div_lt_iff₀ power] at high
  split
  · rename_i h
    have cast := natPow_cast (b := 2) h
    have same : (num / den / 2 ^ e : Rat) = num / (den * Nat.pow 2 e.toNat : Nat) := by
      rw [Nat.cast_mul, cast, div_div]
      rfl
    exact nearest_of_near (Nat.mul_pos hd (Nat.pow_pos (by decide))) (same ▸ low) (same ▸ high)
  · rename_i h
    have cast := natPow_cast (b := 2) (e := -e) (by omega)
    have same : (num / den / 2 ^ e : Rat) = (num * Nat.pow 2 (-e).toNat : Nat) / den := by
      rw [Nat.cast_mul, cast, zpow_neg, ← div_eq_mul_inv, div_right_comm]
      rfl
    exact nearest_of_near hd (same ▸ low) (same ▸ high)

/-! ## Rounding a ratio -/

/-- A positive rational that lies closer to the magnitude of a number than half the way to the numbers
next to it; the number below a power of two is only half as far away as the one above. -/
structure Finite.Near (x : Finite) (v : Rat) : Prop where
  low : (x.mantissa - 1 / 2 : Rat) * 2 ^ x.exponent < v
  high : v < (x.mantissa + 1 / 2 : Rat) * 2 ^ x.exponent
  lowest : x.mantissa = mantissaFloor → -1074 < x.exponent →
    (x.mantissa - 1 / 4 : Rat) * 2 ^ x.exponent < v

/-- Only the ratio matters. -/
theorem roundRatio_mul (s : Bool) (num : Nat) {den k : Nat} (hd : 0 < den) (hk : 0 < k) :
    roundRatio s (num * k) (den * k) = roundRatio s num den := by
  rcases Nat.eq_zero_or_pos num with rfl | hn
  · rw [Nat.zero_mul]
    rfl
  · have ratio : ((num * k : Nat) / (den * k : Nat) : Rat) = num / den := by
      rw [Nat.cast_mul, Nat.cast_mul, mul_div_mul_right _ _ (Nat.cast_ne_zero.2 hk.ne')]
    have log : floorLog2 (num * k) (den * k) = floorLog2 num den := by
      rw [floorLog2_eq (Nat.mul_pos hn hk) (Nat.mul_pos hd hk), floorLog2_eq hn hd, ratio]
    unfold roundRatio
    rw [if_neg hn.ne', if_neg (Nat.mul_pos hn hk).ne', log]
    dsimp only
    rw [Nat.mul_right_comm den, Nat.mul_right_comm num, nearest_mul _ _ hk, nearest_mul _ _ hk]

/-- A significand of 53 bits at its exponent is the number of that significand and that exponent. -/
theorem assemble_finite (x : Finite) (s : Bool) :
    assemble s x.mantissa x.exponent = .finite { x with negative := s } := by
  have below : x.mantissa ≠ mantissaLimit := x.canonical.1.ne
  unfold assemble
  rw [if_neg below]
  exact dif_pos x.canonical

/-- A significand of 54 bits is a power of two, of which the exponent is one higher. -/
theorem assemble_carry (x : Finite) (s : Bool) (h : x.mantissa = mantissaFloor) :
    assemble s mantissaLimit (x.exponent - 1) = .finite { x with negative := s } := by
  unfold assemble
  rw [if_pos rfl, Int.sub_add_cancel, ← h]
  exact dif_pos x.canonical

theorem log2_lt {v : Rat} (h : 0 < v) {e : Int} : Int.log 2 v < e ↔ v < 2 ^ e :=
  (Int.lt_zpow_iff_log_lt (by decide) h).symm

theorem le_log2 {v : Rat} (h : 0 < v) {e : Int} : e ≤ Int.log 2 v ↔ 2 ^ e ≤ v :=
  (Int.zpow_le_iff_le_log (by decide) h).symm

theorem roundRatio_near {x : Finite} {num den : Nat} (s : Bool) (hn : 0 < num) (hd : 0 < den)
    (h : x.Near (num / den)) : roundRatio s num den = .finite { x with negative := s } := by
  have positive : (0 : Rat) < num / den := div_pos (Nat.cast_pos.2 hn) (Nat.cast_pos.2 hd)
  have power : (0 : Rat) < 2 ^ x.exponent := zpow_pos (by decide) _
  have times (k : Nat) : (2 : Rat) ^ (x.exponent + k) = 2 ^ k * 2 ^ x.exponent := by
    rw [zpow_add₀ (by decide), mul_comm, zpow_natCast]
  obtain ⟨short, least, -, normal⟩ := x.canonical
  unfold roundRatio
  rw [if_neg hn.ne', floorLog2_eq hn hd]
  dsimp only
  by_cases place : 2 ^ (x.exponent + (52 : Nat)) ≤ (num / den : Rat) ∨ x.exponent = -1074
  · have short : (x.mantissa + 1 : Rat) ≤ 2 ^ 53 := by exact_mod_cast short
    have below : Int.log 2 (num / den : Rat) < x.exponent + (53 : Nat) := by
      rw [log2_lt positive, times]
      exact h.high.trans (mul_lt_mul_of_pos_right (by linarith) power)
    have exponent : max (Int.log 2 (num / den : Rat) - 52) (-1074) = x.exponent := by
      rw [← le_log2 positive] at place
      omega
    rw [exponent, significand_of_near hd h.low h.high]
    exact assemble_finite x s
  · -- The ratio lies right below a power of two: its significand, rounded, is that power.
    obtain ⟨small, high⟩ := not_or.1 place
    rw [not_le, times] at small
    have floor : x.mantissa = mantissaFloor := by
      have bound : (x.mantissa - 1 / 2 : Rat) < 2 ^ 52 :=
        lt_of_mul_lt_mul_right (h.low.trans small) power.le
      have limit : ((mantissaFloor : Nat) : Rat) = 2 ^ 52 := by norm_num
      refine le_antisymm (Nat.lt_succ_iff.1 (Nat.cast_lt (α := Rat).1 ?_)) (normal.resolve_right high)
      rw [Nat.cast_succ, limit]
      linarith
    have close := h.lowest floor (by omega)
    have half : (2 : Rat) ^ x.exponent = 2 * 2 ^ (x.exponent - 1) := by
      rw [zpow_sub_one₀ (by decide)]
      ring
    have exponent : max (Int.log 2 (num / den : Rat) - 52) (-1074) = x.exponent - 1 := by
      have above : x.exponent + (51 : Nat) ≤ Int.log 2 (num / den : Rat) := by
        rw [le_log2 positive, times]
        refine le_of_lt (lt_of_le_of_lt (mul_le_mul_of_nonneg_right ?_ power.le) close)
        rw [floor]
        norm_num
      have below : Int.log 2 (num / den : Rat) < x.exponent + (52 : Nat) := by
        rw [log2_lt positive, times]
        exact small
      omega
    rw [exponent, significand_of_near (n := mantissaLimit) hd]
    · exact assemble_carry x s floor
    · rw [floor, half] at close
      norm_num at close ⊢
      linarith
    · rw [half] at small
      norm_num at small ⊢
      linarith

end VideoExport.Binary64
