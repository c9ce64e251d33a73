import VideoExport.Proofs.Numeric.Rounding

/-!
# The shortest decimal reads back

A number of seventeen digits that is nearest to a finite number reads back as it
(`Binary64.exists_neighbour`): the step between two such decimals is smaller than the gap between two
numbers. So there is a shortest decimal that reads back, and `Binary64.shortest` finds it
(`Binary64.shortest_reads`).
-/

set_option autoImplicit false

namespace VideoExport.Binary64

/-! ## Numbers of decimals -/

/-- Exponents of which the power of ten is computed. -/
def InReach (e : Int) : Prop := -400 ≤ e ∧ e ≤ 400

section
variable {d : Nat} {e : Int}

theorem ofDecimal_reach (s : Bool) (hd : 0 < d) (he : InReach e) :
    ofDecimal s d e = if 0 ≤ e then roundRatio s (d * Nat.pow 10 e.toNat) 1
      else roundRatio s d (Nat.pow 10 (-e).toNat) := by
  have low := he.1
  have high := he.2
  unfold ofDecimal
  rw [if_neg hd.ne', if_neg (by omega), if_neg (by omega)]

/-- A factor of ten is a step of the exponent. -/
theorem ofDecimal_ten (s : Bool) (hd : 0 < d) (he : InReach e) (he' : InReach (e + 1)) :
    ofDecimal s (d * 10) e = ofDecimal s d (e + 1) := by
  rw [ofDecimal_reach s (Nat.mul_pos hd (by decide)) he, ofDecimal_reach s hd he']
  have power (k : Nat) : Nat.pow 10 (k + 1) = Nat.pow 10 k * 10 := Nat.pow_succ 10 k
  by_cases natural : 0 ≤ e
  · have next : (e + 1).toNat = e.toNat + 1 := by omega
    rw [if_pos natural, if_pos (by omega), next, power, ← Nat.mul_assoc, Nat.mul_right_comm]
  · have next : (-e).toNat = (-(e + 1)).toNat + 1 := by omega
    have ratio : roundRatio s (d * 10) (Nat.pow 10 (-(e + 1)).toNat * 10) =
        roundRatio s d (Nat.pow 10 (-(e + 1)).toNat) :=
      roundRatio_mul s d (Nat.pow_pos (by decide)) (by decide)
    rw [if_neg natural, next, power, ratio]
    split
    · have zero : e + 1 = 0 := by omega
      rw [zero]
      show roundRatio s d 1 = roundRatio s (d * 1) 1
      rw [Nat.mul_one]
    · rfl

theorem ofDecimal_zeros (s : Bool) (hd : 0 < d) (he : InReach e) (k : Nat) (hk : InReach (e + k)) :
    ofDecimal s (d * 10 ^ k) e = ofDecimal s d (e + k) := by
  have low := he.1
  have high := hk.2
  induction k generalizing e with
  | zero => rw [Nat.pow_zero, Nat.mul_one, Int.natCast_zero, Int.add_zero]
  | succ k ih =>
    have step : e + ((k + 1 : Nat) : Int) = e + 1 + k := by omega
    have he' : InReach (e + 1) := ⟨by omega, by omega⟩
    rw [step] at hk ⊢
    rw [Nat.pow_succ, ← Nat.mul_assoc,
      ofDecimal_ten s (Nat.mul_pos hd (Nat.pow_pos (by decide))) he he',
      ih he' hk he'.1 hk.2]

theorem assemble_true (m : Nat) (e : Int) : assemble true m e = (assemble false m e).neg := by
  unfold assemble
  split
  split <;> rfl

theorem roundRatio_true (num den : Nat) : roundRatio true num den = (roundRatio false num den).neg := by
  unfold roundRatio
  split
  · rfl
  · exact assemble_true _ _

/-- The sign of a decimal is the sign of its number. -/
theorem ofDecimal_true (d : Nat) (e : Int) : ofDecimal true d e = (ofDecimal false d e).neg := by
  unfold ofDecimal
  split
  · rfl
  · split
    · rfl
    · split
      · rfl
      · split <;> exact roundRatio_true _ _

theorem ofDecimal_near {x : Finite} (s : Bool) (hd : 0 < d) (he : InReach e) (h : x.Near (d * 10 ^ e)) :
    ofDecimal s d e = .finite { x with negative := s } := by
  rw [ofDecimal_reach s hd he]
  split
  · rename_i natural
    have power := natPow_cast (b := 10) natural
    refine roundRatio_near s (Nat.mul_pos hd (Nat.pow_pos (by decide))) (by decide) ?_
    rw [Nat.cast_mul, power, Nat.cast_one, div_one]
    exact h
  · rename_i negative
    have power := natPow_cast (b := 10) (e := -e) (by omega)
    refine roundRatio_near s hd (Nat.pow_pos (by decide)) ?_
    rw [power, zpow_neg, div_inv_eq_mul]
    exact h

end

/-! ## Decimals that read back -/

/-- A decimal that reads as a number. -/
structure Decimal.Reads (d : Decimal) (x : Finite) : Prop where
  positive : 0 < d.digits
  reach : InReach d.exponent
  reads : ofDecimal false d.digits d.exponent = .finite x

variable {x : Finite}

theorem Finite.value_positive (h : x.negative = false) : x.value = x.mantissa * 2 ^ x.exponent := by
  unfold value
  rw [h, twoPow_eq]
  rfl

/-- The decimal exponents of the numbers that are not zero. -/
theorem Finite.log10_bounds (hm : 0 < x.mantissa) :
    -324 ≤ Int.log 10 (x.mantissa * 2 ^ x.exponent : Rat) ∧
      Int.log 10 (x.mantissa * 2 ^ x.exponent : Rat) ≤ 308 := by
  obtain ⟨short, least, largest, -⟩ := x.canonical
  have mantissa : (1 : Rat) ≤ x.mantissa := by exact_mod_cast hm
  have short : (x.mantissa : Rat) < 2 ^ 53 := by exact_mod_cast short
  have power (e : Int) : (0 : Rat) < 2 ^ e := zpow_pos (by decide) e
  have positive : (0 : Rat) < x.mantissa * 2 ^ x.exponent := mul_pos (by linarith) (power _)
  have least : (2 : Rat) ^ (-1074 : Int) ≤ 2 ^ x.exponent := zpow_le_zpow_right₀ (by decide) least
  have largest : (2 : Rat) ^ x.exponent ≤ 2 ^ (971 : Int) := zpow_le_zpow_right₀ (by decide) largest
  have small : ((10 : Nat) : Rat) ^ (-324 : Int) ≤ 2 ^ (-1074 : Int) := by
    have nat : 2 ^ 1074 ≤ 10 ^ 324 := by decide +kernel
    rw [zpow_neg, zpow_neg]
    exact inv_anti₀ (power 1074) (by exact_mod_cast nat)
  have large : (2 ^ 53 * 2 ^ (971 : Int) : Rat) ≤ ((10 : Nat) : Rat) ^ (308 + 1 : Int) := by
    have nat : ((2 ^ 53 * 2 ^ 971 : Nat) : Rat) ≤ ((10 ^ 309 : Nat) : Rat) :=
      Nat.cast_le.2 (by decide +kernel)
    rw [Nat.cast_mul, Nat.cast_pow, Nat.cast_pow, Nat.cast_pow, ← zpow_natCast _ 971,
      ← zpow_natCast _ 309] at nat
    exact nat
  constructor
  · rw [← Int.zpow_le_iff_le_log (by decide) positive]
    calc ((10 : Nat) : Rat) ^ (-324 : Int) ≤ 2 ^ (-1074 : Int) := small
      _ ≤ 2 ^ x.exponent := least
      _ ≤ x.mantissa * 2 ^ x.exponent := le_mul_of_one_le_left (power _).le mantissa
  · rw [← Int.lt_add_one_iff, ← Int.lt_zpow_iff_log_lt (by decide) positive]
    calc (x.mantissa * 2 ^ x.exponent : Rat) < 2 ^ 53 * 2 ^ (971 : Int) :=
          mul_lt_mul short largest (power _) (by positivity)
      _ ≤ ((10 : Nat) : Rat) ^ (308 + 1 : Int) := large

/-- Seventeen digits are fine enough: half a step between two decimals is less than half a gap between
two numbers. -/
theorem Finite.near_of_step {v u : Rat}
    (fine : u * 10 ^ 16 ≤ x.mantissa * 2 ^ x.exponent)
    (low : x.mantissa * 2 ^ x.exponent - u / 2 ≤ v) (high : v ≤ x.mantissa * 2 ^ x.exponent + u / 2) :
    x.Near v := by
  have power : (0 : Rat) < 2 ^ x.exponent := zpow_pos (by decide) _
  have short : (x.mantissa : Rat) < 2 ^ 53 := by exact_mod_cast x.canonical.1
  have short : (x.mantissa * 2 ^ x.exponent : Rat) < 2 ^ 53 * 2 ^ x.exponent :=
    mul_lt_mul_of_pos_right short power
  constructor
  case low => linarith
  case high => linarith
  case lowest =>
    intro floor _
    rw [floor] at fine low ⊢
    norm_num at fine low ⊢
    linarith

/-- One of the two neighbours is at most half a step away. -/
theorem half_step {v u : Rat} (hu : 0 < u) (hv : 0 ≤ v) :
    ∃ d, (d = (v / u).floor.toNat ∨ d = (v / u).floor.toNat + 1) ∧ v - u / 2 ≤ d * u ∧
      d * u ≤ v + u / 2 := by
  have cast : (((v / u).floor.toNat : Nat) : Rat) = ((v / u).floor : Int) := by
    have natural : 0 ≤ (v / u).floor := Rat.le_floor_iff.2 (by rw [Int.cast_zero]; positivity)
    exact_mod_cast congrArg (Int.cast : Int → Rat) (Int.toNat_of_nonneg natural)
  have below : ((v / u).floor : Rat) * u ≤ v := (le_div_iff₀ hu).1 (Rat.floor_le _)
  have above : v < ((v / u).floor + 1 : Rat) * u := by
    have next := (div_lt_iff₀ hu).1 (Rat.lt_floor_add_one (v / u))
    rwa [Int.cast_add, Int.cast_one] at next
  by_cases half : v - u / 2 ≤ ((v / u).floor : Rat) * u
  · exact ⟨_, .inl rfl, cast ▸ half, by rw [cast]; linarith⟩
  · refine ⟨_, .inr rfl, ?_, ?_⟩ <;> rw [Nat.cast_add, cast, Nat.cast_one] <;> linarith

/-- Seventeen digits suffice. -/
theorem exists_neighbour (hm : 0 < x.mantissa) (hx : x.negative = false) :
    ∃ d, neighbour? (.finite x) x.value 17 = some d := by
  have value := Finite.value_positive hx
  have one : (1 : Rat) ≤ x.mantissa := by exact_mod_cast hm
  have power : (0 : Rat) < 2 ^ x.exponent := zpow_pos (by decide) _
  have positive : 0 < x.value := by
    rw [value]
    exact mul_pos (by linarith) power
  have bounds := Finite.log10_bounds hm
  rw [← value, ← floorLog10_eq positive] at bounds
  have reach : InReach (floorLog10 x.value - (17 : Nat) + 1) := ⟨by omega, by omega⟩
  have fine : tenPow (floorLog10 x.value - (17 : Nat) + 1) * 10 ^ 16 ≤ x.value := by
    have first := (Int.zpow_le_iff_le_log (b := 10) (by decide) positive).2 le_rfl
    have exponent : floorLog10 x.value - (17 : Nat) + 1 + (16 : Nat) = Int.log 10 x.value := by
      rw [floorLog10_eq positive]
      omega
    rw [tenPow_eq, ← zpow_natCast, ← zpow_add₀ (by decide), exponent]
    exact first
  unfold neighbour?
  dsimp only
  generalize floorLog10 x.value - (17 : Nat) + 1 = e at reach fine ⊢
  have step : 0 < tenPow e := by
    rw [tenPow_eq]
    exact zpow_pos (by decide) e
  obtain ⟨d, hd, low, high⟩ := half_step step positive.le
  have near : x.Near (d * tenPow e) := by
    rw [value] at fine low high
    exact Finite.near_of_step fine low high
  have digits : 0 < d := by
    have product : (0 : Rat) < d * tenPow e := lt_trans (mul_pos (by linarith) power) near.low
    exact Nat.cast_pos.1 (pos_of_mul_pos_left product step.le)
  have reads : ofDecimal false d e = .finite x := by
    rw [tenPow_eq] at near
    rw [ofDecimal_near false digits reach near, ← hx]
  rw [← Option.isSome_iff_exists, Option.isSome_map, List.find?_isSome]
  refine ⟨d, ?_, ?_⟩
  · split <;> rcases hd with rfl | rfl <;> simp
  · rw [reads]
    exact beq_self_eq_true _

/-- What is found among the neighbours reads back. -/
theorem neighbour?_reads {d : Decimal} {count : Nat} (hm : 0 < x.mantissa) (hx : x.negative = false)
    (hc : count < 17) (h : neighbour? (.finite x) x.value (count + 1) = some d) : d.Reads x := by
  have value := Finite.value_positive hx
  have positive : 0 < x.value := by
    rw [value]
    exact mul_pos (Nat.cast_pos.2 hm) (zpow_pos (by decide) _)
  have bounds := Finite.log10_bounds hm
  rw [← value, ← floorLog10_eq positive] at bounds
  have reach : InReach (floorLog10 x.value - ((count + 1 : Nat) : Int) + 1) := ⟨by omega, by omega⟩
  have next : InReach (floorLog10 x.value - ((count + 1 : Nat) : Int) + 1 + 1) :=
    ⟨by omega, by omega⟩
  unfold neighbour? at h
  dsimp only at h
  generalize floorLog10 x.value - ((count + 1 : Nat) : Int) + 1 = e at reach next h
  obtain ⟨n, found, hd⟩ := Option.map_eq_some_iff.1 h
  have reads : ofDecimal false n e = .finite x :=
    beq_iff_eq.1 (List.find?_some (p := fun d => ofDecimal false d e == .finite x) found)
  have digits : 0 < n := by
    refine Nat.pos_of_ne_zero ?_
    rintro rfl
    cases reads
    exact hm.ne' rfl
  split at hd
  · -- One step past the largest number of so many digits is a power of ten.
    rename_i carry
    cases hd
    have power : Nat.pow 10 (count + 1) = 10 ^ count * 10 := Nat.pow_succ 10 count
    have positive : 0 < 10 ^ count := Nat.pow_pos (by decide)
    rw [carry, power, ofDecimal_ten false positive reach next] at reads
    exact ⟨positive, next, reads⟩
  · cases hd
    exact ⟨digits, reach, reads⟩

/-- The shortest decimal is a neighbour that was found. -/
theorem exists_shortest (hm : 0 < x.mantissa) (hx : x.negative = false) :
    ∃ i < 17, neighbour? (.finite x) x.value (i + 1) = some (shortest (.finite x) x.value) := by
  obtain ⟨d, hd⟩ := exists_neighbour hm hx
  have some : ((List.range 17).findSome? fun i => neighbour? (.finite x) x.value (i + 1)).isSome := by
    rw [List.findSome?_isSome_iff]
    exact ⟨16, by decide, Option.isSome_iff_exists.2 ⟨d, hd⟩⟩
  obtain ⟨d', found⟩ := Option.isSome_iff_exists.1 some
  obtain ⟨i, hi, here⟩ := List.exists_of_findSome?_eq_some found
  unfold shortest
  rw [found]
  exact ⟨i, List.mem_range.1 hi, here⟩

/-- The shortest decimal of a positive number reads back. -/
theorem shortest_reads (hm : 0 < x.mantissa) (hx : x.negative = false) :
    (shortest (.finite x) x.value).Reads x := by
  obtain ⟨i, hi, found⟩ := exists_shortest hm hx
  exact neighbour?_reads hm hx hi found

end VideoExport.Binary64
