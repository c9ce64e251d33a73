import Mathlib.Data.Rat.Lemmas
import Mathlib.Tactic.Ring
import VideoExport.Numeric.Decimal
import VideoExport.Proofs.Number

/-!
# The text of numbers

The text of a number has digits, signs, points, exponent marks and the letters of `inf` and `nan`, and
nothing else (`IsNumeral`). Any binary64 number has such a text, and so has an integer that is not too
long (`Number.compact_real`, `Number.compact_int`).
-/

set_option autoImplicit false

namespace VideoExport

/-- A computation that succeeds, with an outcome for which `P` holds. -/
def Yields {α : Type} (x : Except NumericError α) (P : α → Prop) : Prop := ∃ a, x = .ok a ∧ P a

namespace Yields

variable {α β : Type} {x : Except NumericError α} {P Q : α → Prop}

theorem pure {a : α} (h : P a) : Yields (Pure.pure a) P := ⟨a, rfl, h⟩

theorem bind {k : α → Except NumericError β} {R : β → Prop} (hx : Yields x P)
    (hk : ∀ a, P a → Yields (k a) R) : Yields (x >>= k) R := by
  obtain ⟨a, rfl, ha⟩ := hx
  exact hk a ha

theorem mono (hx : Yields x P) (h : ∀ a, P a → Q a) : Yields x Q := by
  obtain ⟨a, ha, hP⟩ := hx
  exact ⟨a, ha, h a hP⟩

end Yields

/-! ## Characters of texts -/

/-- A text all of whose characters pass a test. -/
def Consists (p : Char → Bool) (t : String) : Prop := ∀ c ∈ t.toList, p c = true

namespace Consists

variable {p q : Char → Bool} {a b : String} {cs : List Char}

theorem append (ha : Consists p a) (hb : Consists p b) : Consists p (a ++ b) := by
  intro c hc
  rw [String.toList_append] at hc
  exact (List.mem_append.1 hc).elim (ha c) (hb c)

theorem of_all (h : a.toList.all p = true) : Consists p a := fun _ => List.all_eq_true.1 h _

theorem ofList (h : ∀ c ∈ cs, p c = true) : Consists p (String.ofList cs) := by
  intro c hc
  rw [String.toList_ofList] at hc
  exact h c hc

theorem mono (ha : Consists p a) (h : ∀ c, p c = true → q c = true) : Consists q a :=
  fun c hc => h c (ha c hc)

end Consists

/-- A character that the text of a number may have. -/
def isNumeralChar (c : Char) : Bool := c.isDigit || "+-.einfa".toList.contains c

abbrev IsNumeral (t : String) : Prop := Consists isNumeralChar t

namespace Binary64

theorem digitText_numeral (n : Nat) : IsNumeral (digitText n) :=
  .ofList fun _ hc => Bool.or_eq_true_iff.2 (.inl (Nat.isDigit_of_mem_toDigits (by decide) (by decide) hc))

theorem zeros_numeral (n : Nat) : IsNumeral (zeros n) := by
  refine .ofList fun c hc => ?_
  rw [List.eq_of_mem_replicate hc]
  decide

theorem placePoint_numeral {digits : String} (h : IsNumeral digits) (point : Int) :
    IsNumeral (placePoint digits point) := by
  unfold placePoint
  dsimp only
  split
  · exact ((Consists.of_all (by decide)).append (zeros_numeral _)).append h
  · split
    · exact (h.append (zeros_numeral _)).append (.of_all (by decide))
    · rw [List.splitAt_eq]
      have whole : IsNumeral (String.ofList (digits.toList.take point.toNat)) :=
        .ofList fun c hc => h c (List.mem_of_mem_take hc)
      have fraction : IsNumeral (String.ofList (digits.toList.drop point.toNat)) :=
        .ofList fun c hc => h c (List.mem_of_mem_drop hc)
      exact (whole.append (.of_all (by decide))).append fraction

theorem leadPoint_numeral {digits : String} (h : IsNumeral digits) : IsNumeral (leadPoint digits) := by
  have ofHead {c : Char} {rest : List Char} (hd : digits.toList = c :: rest) :
      IsNumeral (String.singleton c) ∧ IsNumeral (String.ofList rest) := by
    refine ⟨fun d hs => ?_, .ofList fun d hr => h d (hd ▸ .tail _ hr)⟩
    rw [String.toList_singleton, List.mem_singleton] at hs
    exact h d (hd ▸ hs ▸ .head _)
  unfold leadPoint
  split
  · exact .of_all (by decide)
  · rename_i hd
    exact (ofHead hd).1
  · rename_i hd
    exact ((ofHead hd).1.append (.of_all (by decide))).append (ofHead hd).2

theorem exponentText_numeral (e : Int) : IsNumeral (exponentText e) := by
  unfold exponentText
  refine .append ?_ ?_
  · split <;> exact .of_all (by decide)
  · split
    · exact (Consists.of_all (by decide)).append (digitText_numeral _)
    · exact digitText_numeral _

theorem text_numeral (x : Binary64) : IsNumeral x.text := by
  have sign (negative : Bool) : IsNumeral (if negative then "-" else "") := by
    cases negative <;> exact .of_all (by decide)
  unfold text
  split
  · exact .of_all (by decide)
  · split <;> exact .of_all (by decide)
  · dsimp only
    split
    · exact (sign _).append (.of_all (by decide))
    · split
      · exact (sign _).append (placePoint_numeral (digitText_numeral _) _)
      · exact ((sign _).append (leadPoint_numeral (digitText_numeral _))).append
          (exponentText_numeral _)

/-- A power of two adds to the numerator only what it adds above one. -/
theorem twoPow_mul_num (m : Nat) (e : Int) :
    ((m : Rat) * twoPow e).num.natAbs ≤ m * 2 ^ e.toNat := by
  unfold twoPow
  split
  · show ((m : Rat) * ((2 ^ e.toNat : Nat) : Rat)).num.natAbs ≤ _
    rw [← Rat.natCast_mul, Rat.num_natCast, Int.natAbs_natCast]
  · rename_i negative
    have power : (Nat.pow 2 (-e).toNat : Int) ≠ 0 :=
      Int.natCast_ne_zero.2 (Nat.pow_pos (by decide)).ne'
    have fraction : (m : Rat) * mkRat 1 (Nat.pow 2 (-e).toNat) =
        Rat.divInt m (Nat.pow 2 (-e).toNat) := by
      rw [Rat.mkRat_eq_divInt, Rat.divInt_eq_div, Rat.divInt_eq_div]
      push_cast
      ring
    have none : e.toNat = 0 := Int.toNat_of_nonpos (Int.le_of_lt (Int.not_le.1 negative))
    rw [fraction, none, Nat.pow_zero, Nat.mul_one]
    rcases Nat.eq_zero_or_pos m with rfl | positive
    · simp
    · exact Nat.le_of_dvd positive (Int.natAbs_dvd_natAbs.2 (Rat.num_dvd m power))

theorem Finite.value_num (x : Finite) : x.value.num.natAbs ≤ x.mantissa * 2 ^ x.exponent.toNat := by
  unfold value
  dsimp only
  split
  · rw [Rat.neg_num, Int.natAbs_neg]
    exact twoPow_mul_num _ _
  · exact twoPow_mul_num _ _

theorem Finite.truncate_lt (x : Finite) {k : Nat} (h : x.exponent.toNat ≤ k) :
    x.truncate.natAbs < mantissaLimit * 2 ^ k :=
  calc x.truncate.natAbs = x.value.num.natAbs / x.value.den := Int.natAbs_tdiv _ _
    _ ≤ x.value.num.natAbs := Nat.div_le_self _ _
    _ ≤ x.mantissa * 2 ^ x.exponent.toNat := x.value_num
    _ ≤ x.mantissa * 2 ^ k := Nat.mul_le_mul_left _ (Nat.pow_le_pow_right (by decide) h)
    _ < mantissaLimit * 2 ^ k :=
      Nat.mul_lt_mul_of_pos_right x.canonical.1 (Nat.pow_pos (by decide))

/-- The integer part of a finite number is far from having too many digits. -/
theorem Finite.truncate_short (x : Finite) : x.truncate.natAbs < Nat.pow 10 digitLimit := by
  have exponent : x.exponent ≤ 971 := x.canonical.2.2.1
  have room : mantissaLimit * 2 ^ 971 < Nat.pow 10 digitLimit := by decide +kernel
  exact (x.truncate_lt (by omega)).trans room

/-- The integer part of an integer is that integer. -/
theorem Finite.truncate_value {x : Finite} (h : x.value.den = 1) : (x.truncate : Rat) = x.value := by
  unfold truncate
  rw [h, Nat.cast_one, Int.tdiv_one, (Rat.den_eq_one_iff _).1 h]

end Binary64

namespace Number

/-- Not an integer of too many digits. -/
def IsShort (n : Number) : Prop := ∀ m, n = .int m → m.natAbs < Nat.pow 10 digitLimit

theorem intText_numeral {n : Int} (h : n.natAbs < Nat.pow 10 digitLimit) :
    Yields (intText n) IsNumeral := by
  refine ⟨_, if_pos h, .append ?_ (Binary64.digitText_numeral _)⟩
  split <;> exact .of_all (by decide)

theorem compact_numeral {n : Number} (h : n.IsShort) : Yields n.compact IsNumeral := by
  unfold compact
  split
  · exact intText_numeral (h _ rfl)
  · split
    · exact intText_numeral (Binary64.Finite.truncate_short _)
    · exact .pure (Binary64.text_numeral _)
  · exact .pure (Binary64.text_numeral _)

theorem isShort_real (x : Binary64) : IsShort (.real x) := nofun

/-- A number of the domain is no long integer. -/
theorem Within.isShort {n lo hi : Number} (h : n.Within lo hi) (hlo : (Number.int (-1000)).le lo = true)
    (hhi : hi.le (.int 1000) = true) : n.IsShort := by
  rintro m rfl
  obtain ⟨least, largest⟩ := h.int_between hlo hhi
  have room : 1000 < Nat.pow 10 digitLimit := by decide +kernel
  exact Nat.lt_of_le_of_lt (by omega) room

end Number

end VideoExport
