import VideoExport.Proofs.Json.WrittenNumber
import VideoExport.Proofs.Numeral
import VideoExport.Proofs.Numeric.Range

/-!
# Plain numerals

A plain numeral has digits and perhaps a point with further digits, and neither sign nor exponent
(`IsPlain`). A number is written with one exactly if it is zero or not below one ten-thousandth
(`Number.compact_plain_iff`): the text of a smaller one has an exponent, and that of a number so large that
it would have one is the text of an integer.
-/

set_option autoImplicit false

namespace VideoExport

open Binary64 (Finite digitCount digitText exponentText floorLog10 leadPoint neighbour? placePoint shortest
  tenPow zeros)
open Json (Digits pointed)

/-- Digits, and perhaps a point with further digits: no sign, no exponent, and no name of a number. -/
def IsPlain (t : String) : Prop :=
  ∃ ds fs, Digits ds ∧ ds ≠ [] ∧ Digits fs ∧ t.toList = ds ++ pointed fs

namespace IsPlain

variable {t : String}

theorem consists (h : IsPlain t) : Consists (fun c => Json.isDigit c || c == '.') t := by
  obtain ⟨ds, fs, whole, -, fraction, text⟩ := h
  intro c hc
  rw [text] at hc
  rcases List.mem_append.1 hc with hc | hc
  · exact Bool.or_eq_true_iff.2 (.inl (whole c hc))
  · unfold pointed at hc
    split at hc
    · cases hc
    · rcases List.mem_cons.1 hc with rfl | hc
      · rfl
      · exact Bool.or_eq_true_iff.2 (.inl (fraction c hc))

theorem not_of_mem {c : Char} (hc : c ∈ t.toList) (other : (Json.isDigit c || c == '.') = false) :
    ¬ IsPlain t := fun plain => Bool.false_ne_true (other.symm.trans (plain.consists c hc))

theorem digitText (n : Nat) : IsPlain (digitText n) :=
  ⟨Nat.toDigits 10 n, [], .toDigits n, Nat.toDigits_ne_nil, nofun, by simp [Binary64.digitText, pointed]⟩

/-- A point among digits, or at either end of them, makes a plain numeral. -/
theorem placePoint (n : Nat) (point : Int) : IsPlain (placePoint (Binary64.digitText n) point) := by
  have digits := Digits.toDigits n
  have any : Nat.toDigits 10 n ≠ [] := Nat.toDigits_ne_nil
  unfold Binary64.placePoint Binary64.digitText
  dsimp only
  rw [String.length_ofList, String.toList_ofList]
  generalize Nat.toDigits 10 n = ds at digits any ⊢
  split
  · refine ⟨['0'], List.replicate (-point).toNat '0' ++ ds, .zeros 1, List.cons_ne_nil _ _,
      (Digits.zeros _).append digits, ?_⟩
    simp [zeros, pointed, any]
  · split
    · refine ⟨ds ++ List.replicate (point - ds.length).toNat '0', ['0'], digits.append (.zeros _),
        List.append_ne_nil_of_left_ne_nil any _, .zeros 1, ?_⟩
      simp [zeros, pointed]
    · rename_i front inside
      have rest : ds.drop point.toNat ≠ [] := by
        refine List.ne_nil_of_length_pos ?_
        rw [List.length_drop]
        omega
      have front : ds.take point.toNat ≠ [] := by
        refine List.ne_nil_of_length_pos ?_
        rw [List.length_take]
        have := List.length_pos_iff.2 any
        omega
      refine ⟨ds.take point.toNat, ds.drop point.toNat, fun c hc => digits c (List.mem_of_mem_take hc),
        front, fun c hc => digits c (List.mem_of_mem_drop hc), ?_⟩
      rw [List.splitAt_eq]
      simp [pointed, rest]

end IsPlain

namespace Binary64

variable {x : Finite} {q : Rat} {d : Decimal} {count n : Nat}

/-! ## The point of the shortest decimal -/

theorem digitCount_eq (hc : 0 < count) (low : 10 ^ (count - 1) ≤ n) (high : n < 10 ^ count) :
    digitCount n = count := by
  have most : digitCount n ≤ count := (Nat.length_toDigits_le_iff (by decide) hc).2 high
  refine le_antisymm most (Nat.le_of_not_lt fun fewer => ?_)
  have some : 0 < digitCount n := Nat.length_toDigits_pos
  have short : n < 10 ^ digitCount n := (Nat.length_toDigits_le_iff (by decide) some).1 le_rfl
  have room : 10 ^ digitCount n ≤ 10 ^ (count - 1) := Nat.pow_le_pow_right (by decide) (by omega)
  omega

/-- A positive rational, shifted so that this many of its digits come before the point. -/
theorem scaled_bounds (hq : 0 < q) (hc : 0 < count) :
    ((10 ^ (count - 1) : Nat) : Rat) ≤ q / tenPow (floorLog10 q - count + 1) ∧
      q / tenPow (floorLog10 q - count + 1) < ((10 ^ count : Nat) : Rat) := by
  have power : (0 : Rat) < 10 ^ (Int.log 10 q - count + 1) := zpow_pos (by decide) _
  have low : (count - 1 : Nat) + (Int.log 10 q - count + 1) = Int.log 10 q := by omega
  have high : (count : Int) + (Int.log 10 q - count + 1) = Int.log 10 q + 1 := by omega
  rw [tenPow_eq, floorLog10_eq hq, le_div_iff₀ power, div_lt_iff₀ power, Nat.cast_pow, Nat.cast_pow,
    ← zpow_natCast, ← zpow_natCast, Nat.cast_ofNat, ← zpow_add₀ (by decide), ← zpow_add₀ (by decide), low,
    high]
  exact ⟨(Int.zpow_le_iff_le_log (b := 10) (by decide) hq).2 le_rfl,
    (Int.lt_zpow_iff_log_lt (b := 10) (by decide) hq).2 (Int.lt_succ _)⟩

/-- The integer below a rational of so many digits before the point has so many digits. -/
theorem floor_bounds {v : Rat} (low : ((10 ^ (count - 1) : Nat) : Rat) ≤ v)
    (high : v < ((10 ^ count : Nat) : Rat)) : (v.floor.toNat : Rat) ≤ v ∧
      10 ^ (count - 1) ≤ v.floor.toNat ∧ v.floor.toNat < 10 ^ count := by
  have below : ((10 ^ (count - 1) : Nat) : Int) ≤ v.floor := Rat.le_floor_iff.2 (by exact_mod_cast low)
  have above : v.floor < ((10 ^ count : Nat) : Int) := Rat.floor_lt_iff.2 (by exact_mod_cast high)
  have natural : ((v.floor.toNat : Nat) : Int) = v.floor :=
    Int.toNat_of_nonneg ((Int.natCast_nonneg _).trans below)
  refine ⟨?_, by omega, by omega⟩
  calc ((v.floor.toNat : Nat) : Rat) = ((v.floor.toNat : Int) : Rat) := by norm_cast
    _ = (v.floor : Rat) := by rw [natural]
    _ ≤ v := Rat.floor_le v

/-- What is rounded up to a power of ten lies close below it. -/
theorem carry_near (hq : 0 < q) (hc : 0 < count)
    (h : (q / tenPow (floorLog10 q - count + 1)).floor.toNat + 1 = 10 ^ count) :
    9 * (10 : Rat) ^ Int.log 10 q ≤ q := by
  obtain ⟨low, high⟩ := scaled_bounds hq hc
  obtain ⟨floor, -, -⟩ := floor_bounds low high
  have times : 10 ^ count = 10 * 10 ^ (count - 1) := by
    rw [← Nat.pow_succ', Nat.succ_eq_add_one, Nat.sub_add_cancel hc]
  have one : 0 < 10 ^ (count - 1) := Nat.pow_pos (by decide)
  have last : 9 * 10 ^ (count - 1) ≤ (q / tenPow (floorLog10 q - count + 1)).floor.toNat := by omega
  have near := (Nat.cast_le (α := Rat)).2 last |>.trans floor
  have exponent : (count - 1 : Nat) + (Int.log 10 q - count + 1) = Int.log 10 q := by omega
  rw [tenPow_eq, floorLog10_eq hq, le_div_iff₀ (zpow_pos (by decide) _), Nat.cast_mul, Nat.cast_pow,
    mul_assoc, ← zpow_natCast, Nat.cast_ofNat, Nat.cast_ofNat, ← zpow_add₀ (by decide), exponent] at near
  exact near

/-- A neighbour has its point right after the place of the first digit of the rational, or one place further
if it was rounded up to a power of ten. -/
theorem neighbour?_point (hq : 0 < q) (hc : 0 < count) (h : neighbour? (.finite x) q count = some d) :
    d.exponent + digitCount d.digits = Int.log 10 q + 1 ∨
      d.exponent + digitCount d.digits = Int.log 10 q + 2 ∧ d.digits = 10 ^ (count - 1) ∧
        9 * (10 : Rat) ^ Int.log 10 q ≤ q := by
  obtain ⟨low, high⟩ := scaled_bounds hq hc
  obtain ⟨-, least, most⟩ := floor_bounds low high
  have near := carry_near hq hc
  unfold neighbour? at h
  dsimp only at h
  obtain ⟨m, found, hd⟩ := Option.map_eq_some_iff.1 h
  have member := List.mem_of_find?_eq_some found
  rw [floorLog10_eq hq] at near member least most hd
  generalize (q / tenPow (Int.log 10 q - count + 1)).floor.toNat = n at near member least most
  have either : m = n ∨ m = n + 1 := by
    split at member <;> simp at member <;> tauto
  split at hd
  · rename_i carry
    have carry : m = 10 ^ count := carry
    cases hd
    have digits : digitCount (Nat.pow 10 (count - 1)) = count :=
      digitCount_eq hc le_rfl (Nat.pow_lt_pow_right (by decide) (by omega))
    refine .inr ⟨?_, rfl, near (by omega)⟩
    dsimp only
    rw [digits]
    omega
  · rename_i less
    have less : m ≠ 10 ^ count := less
    cases hd
    have digits : digitCount m = count := digitCount_eq hc (by omega) (by omega)
    refine .inl ?_
    dsimp only
    rw [digits]
    omega

/-- Where the point of the text of a positive number may stand: after the place of its first digit, or one
place further if a power of ten reads as the number. -/
inductive PointAt (x : Finite) : Int → Prop
  | first : PointAt x (Int.log 10 x.value + 1)
  | rounded (near : 9 * (10 : Rat) ^ Int.log 10 x.value ≤ x.value)
      (power : ofDecimal false 1 (Int.log 10 x.value + 1) = .finite x) :
      PointAt x (Int.log 10 x.value + 2)

theorem shortest_pointAt (hq : 0 < x.value) : PointAt x
    ((shortest (.finite x) x.value).exponent + digitCount (shortest (.finite x) x.value).digits) := by
  obtain ⟨hx, hm⟩ := Finite.value_pos_iff.1 hq
  obtain ⟨i, hi, found⟩ := exists_shortest hm hx
  have reads := neighbour?_reads hm hx hi found
  rcases neighbour?_point hq (Nat.zero_lt_succ i) found with first | ⟨next, power, near⟩
  · rw [first]
    exact .first
  · rw [next]
    refine .rounded near ?_
    generalize shortest (.finite x) x.value = d at reads next power
    rw [Nat.succ_eq_add_one, Nat.add_sub_cancel] at power
    have digits : digitCount (10 ^ i) = i + 1 :=
      digitCount_eq (Nat.zero_lt_succ i) le_rfl (Nat.pow_lt_pow_right (by decide) (Nat.lt_succ_self i))
    rw [power, digits] at next
    have bounds := Finite.log10_bounds hm
    rw [← Finite.value_positive hx] at bounds
    have exponent : d.exponent + (i : Nat) = Int.log 10 x.value + 1 := by omega
    rw [← reads.reads, power, ← exponent, ← ofDecimal_zeros false Nat.one_pos reads.reach i
      ⟨by omega, by omega⟩, Nat.one_mul]

/-! ## Texts -/

/-- The two layouts of the text of a positive number. -/
theorem text_layout (hq : 0 < x.value) : ∃ (n : Nat) (point : Int), PointAt x point ∧
    (finite x).text = if -4 < point ∧ point ≤ 16 then placePoint (digitText n) point
      else leadPoint (digitText n) ++ exponentText (point - 1) := by
  obtain ⟨hx, hm⟩ := Finite.value_pos_iff.1 hq
  refine ⟨(shortest (.finite x) x.value).digits, _, shortest_pointAt hq, ?_⟩
  obtain ⟨negative, mantissa, exponent, canonical⟩ := x
  cases hx
  have length (n : Nat) : (digitText n).length = digitCount n := String.length_ofList
  unfold text
  dsimp only
  rw [if_neg hm.ne', length]
  simp only [Bool.and_eq_true, decide_eq_true_eq, Bool.false_eq_true, if_false, String.empty_append]

theorem not_isPlain_exponent (t : String) (e : Int) : ¬ IsPlain (t ++ exponentText e) := by
  refine IsPlain.not_of_mem (c := 'e') ?_ rfl
  rw [String.toList_append, Json.exponentText_toList]
  exact List.mem_append_right _ (.head _)

/-- One ten-thousandth reads as a number that is a little larger. -/
theorem tenThousandth_le (h : ofDecimal false 1 (-4) = .finite x) : 1 / 10000 ≤ x.value := by
  have above : ∀ v ∈ (ofDecimal false 1 (-4)).value?, 1 / 10000 ≤ v := by decide +kernel
  exact above x.value (by rw [h]; rfl)

/-- A positive number below two to the power of 52 is written without exponent from one ten-thousandth on. -/
theorem text_plain_iff (hq : 0 < x.value) (small : x.value < 2 ^ 52) :
    IsPlain (finite x).text ↔ 1 / 10000 ≤ x.value := by
  have limit : (1 / 10000 : Rat) = (10 : Nat) ^ (-4 : Int) := by norm_num
  obtain ⟨n, point, place, layout⟩ := text_layout hq
  rw [layout]
  constructor
  · intro plain
    by_contra below
    have log : Int.log 10 x.value < -4 := by
      rwa [limit, not_le, Int.lt_zpow_iff_log_lt (by decide) hq] at below
    rw [if_neg] at plain
    · exact not_isPlain_exponent _ _ plain
    · cases place with
      | first => omega
      | rounded near power =>
        -- one place further only for what one ten-thousandth reads as, which is not below it
        have other : Int.log 10 x.value ≠ -5 := fun five => by
          rw [five] at power
          exact below (tenThousandth_le power)
        omega
  · intro above
    have low : -4 ≤ Int.log 10 x.value := by
      rwa [limit, Int.zpow_le_iff_le_log (by decide) hq] at above
    have high : Int.log 10 x.value < 16 := by
      rw [← Int.lt_zpow_iff_log_lt (by decide) hq]
      exact small.trans (by norm_num)
    rw [if_pos]
    · exact .placePoint _ _
    · cases place with
      | first => omega
      | rounded near power =>
        have other : Int.log 10 x.value ≠ 15 := fun fifteen => by
          rw [fifteen] at near
          norm_num at near small
          linarith
        omega

/-- A positive number with a fraction is small. -/
theorem Finite.fraction_small (hq : 0 < x.value) (h : x.value.den ≠ 1) : x.value < 2 ^ 52 := by
  have value := x.value_positive (Finite.value_pos_iff.1 hq).1
  have mantissa : (x.mantissa : Rat) < 2 ^ (53 : Int) := by exact_mod_cast x.canonical.1
  have exponent : x.exponent ≤ -1 := by
    by_contra natural
    obtain ⟨k, hk⟩ := Int.eq_ofNat_of_zero_le (a := x.exponent) (by omega)
    refine h ?_
    have integer : x.value = ((x.mantissa * 2 ^ k : Nat) : Rat) := by
      rw [value, hk, zpow_natCast]
      push_cast
      ring
    rw [integer, Rat.den_natCast]
  calc x.value = x.mantissa * 2 ^ x.exponent := value
    _ < 2 ^ (53 : Int) * 2 ^ (-1 : Int) :=
      mul_lt_mul mantissa (zpow_le_zpow_right₀ (by norm_num) exponent) (zpow_pos (by decide) _) (by positivity)
    _ = 2 ^ 52 := by norm_num

end Binary64

theorem Number.intText_plain_iff {n : Int} {t : String} (h : Number.intText n = .ok t) :
    IsPlain t ↔ 0 ≤ n := by
  unfold Number.intText at h
  split at h
  · cases h
    split
    · refine iff_of_false (IsPlain.not_of_mem (c := '-') (by simp) rfl) (by omega)
    · rw [String.empty_append]
      exact iff_of_true (.digitText _) (by omega)
  · cases h

/-- A number is written plainly exactly if it is zero or not below one ten-thousandth. -/
theorem Number.compact_plain_iff {x : Finite} {t : String}
    (h : (Number.real (.finite x)).compact = .ok t) : IsPlain t ↔ x.value = 0 ∨ 1 / 10000 ≤ x.value := by
  unfold Number.compact at h
  dsimp only at h
  split at h
  · rename_i integer
    rw [Number.intText_plain_iff h, ← Finite.truncate_value (beq_iff_eq.1 integer)]
    generalize x.truncate = n
    constructor
    · intro natural
      rcases Int.lt_or_eq_of_le natural with positive | zero
      · have one : (1 : Rat) ≤ n := by exact_mod_cast positive
        exact .inr (by linarith)
      · exact .inl (by rw [← zero, Int.cast_zero])
    · rintro (zero | above)
      · exact le_of_eq (by exact_mod_cast zero.symm)
      · have positive : (0 : Rat) < n := by linarith
        exact_mod_cast positive.le
  · rename_i fraction
    have den : x.value.den ≠ 1 := fun one => fraction (beq_iff_eq.2 one)
    cases h
    rcases lt_trichotomy 0 x.value with positive | zero | negative
    · rw [Binary64.text_plain_iff positive (Finite.fraction_small positive den)]
      exact (or_iff_right positive.ne').symm
    · exact absurd (zero ▸ rfl) den
    · have sign : x.negative = true := by
        by_contra natural
        have value := x.value_positive (Bool.eq_false_iff.2 natural)
        have above : (0 : Rat) ≤ x.mantissa * 2 ^ x.exponent :=
          mul_nonneg (Nat.cast_nonneg _) (zpow_pos (by decide) _).le
        linarith
      obtain ⟨body, text, -⟩ := Json.text_spells x
      refine iff_of_false (IsPlain.not_of_mem (c := '-') ?_ rfl) ?_
      · rw [text, sign]
        exact .head _
      · rintro (zero | above) <;> linarith

end VideoExport
