import Mathlib.Algebra.Group.Nat.Defs
import VideoExport.Numeric.Decimal
import VideoExport.Text.Numeral

/-!
# Integers read back

The decimal digits of a natural number, up to the limit of their count, are a numeral that is read as
this number (`Text.readInteger?_digitText`).
-/

set_option autoImplicit false

namespace VideoExport.Text

/-- Decimal digits of ASCII only, and at least one. -/
structure IsDigits (ds : List Char) : Prop where
  all : ∀ c ∈ ds, c.isDigit = true
  some : ds ≠ []

variable {ds : List Char} {c : Char}

theorem isDigits_toDigits (n : Nat) : IsDigits (Nat.toDigits 10 n) :=
  ⟨fun _ h => Nat.isDigit_of_mem_toDigits (by decide) (by decide) h, Nat.toDigits_ne_nil⟩

theorem exists_digitChar (h : c.isDigit = true) : ∃ d < 10, c = Nat.digitChar d := by
  have range : 48 ≤ c.toNat ∧ c.toNat ≤ 57 := by
    simp only [Char.isDigit, Bool.and_eq_true, decide_eq_true_eq, UInt32.le_iff_toNat_le] at h
    exact h
  refine ⟨c.toNat - 48, by omega, Char.toNat_inj.1 ?_⟩
  rw [Nat.toNat_digitChar_of_lt_ten (by omega)]
  omega

/-- What the readers of numerals make of a digit: it is no blank, no sign and no underscore, and it
stands for itself. -/
theorem digit_plain (h : c.isDigit = true) : isBlank c = false ∧ c ≠ '_' ∧ c ≠ '+' ∧ c ≠ '-' ∧
    (match digitValue? c with
      | some d => Nat.digitChar d
      | none => c) = c := by
  have each : ∀ d < 10, isBlank (Nat.digitChar d) = false ∧ Nat.digitChar d ≠ '_' ∧
      Nat.digitChar d ≠ '+' ∧ Nat.digitChar d ≠ '-' ∧ digitValue? (Nat.digitChar d) = some d := by
    decide
  obtain ⟨d, hd, rfl⟩ := exists_digitChar h
  obtain ⟨blank, underscore, plus, minus, value⟩ := each d hd
  exact ⟨blank, underscore, plus, minus, by rw [value]⟩

theorem dropWhile_of_none {p : Char → Bool} (h : ∀ c ∈ ds.head?, p c = false) : ds.dropWhile p = ds := by
  cases ds with
  | nil => rfl
  | cons c rest => exact List.dropWhile_cons_of_neg (by simp [h c rfl])

/-- Nothing is stripped from characters of which neither end is blank. -/
theorem strip_of_ends (first : ∀ c ∈ ds.head?, isBlank c = false)
    (last : ∀ c ∈ ds.getLast?, isBlank c = false) : strip ds = ds := by
  unfold strip
  rw [dropWhile_of_none first, dropWhile_of_none (by rwa [List.head?_reverse]), List.reverse_reverse]

theorem trimNumeral_digits (h : IsDigits ds) : trimNumeral ds = ds := by
  have none {c : Char} (hc : c ∈ ds) : isNumeralBlank c = false := by
    simp [isNumeralBlank, (digit_plain (h.all c hc)).1]
  unfold trimNumeral
  rw [dropWhile_of_none fun c hc => none (List.mem_of_mem_head? hc),
    dropWhile_of_none fun c hc => none (List.mem_of_mem_getLast? (by rwa [List.head?_reverse] at hc)),
    List.reverse_reverse]

theorem plainNumeral_digits (h : IsDigits ds) : plainNumeral (String.ofList ds) = ds := by
  unfold plainNumeral
  rw [String.toList_ofList, trimNumeral_digits h]
  exact (List.map_congr_left fun c hc => (digit_plain (h.all c hc)).2.2.2.2).trans (List.map_id ds)

theorem dropUnderscores_digits (previous : Bool) (h : ∀ c ∈ ds, c.isDigit = true) :
    dropUnderscores previous ds = some ds := by
  induction ds generalizing previous with
  | nil => rfl
  | cons c rest ih =>
    have plain := (digit_plain (h c (.head _))).2.1
    rw [dropUnderscores]
    · rw [ih _ fun c hc => h c (.tail _ hc)]
      rfl
    · exact fun _ _ same _ => plain same
    · exact fun same _ => plain same

theorem splitSign_digits (h : IsDigits ds) : splitSign ds = (false, ds) := by
  cases ds with
  | nil => rfl
  | cons c rest =>
    obtain ⟨-, -, plus, minus, -⟩ := digit_plain (h.all c (.head _))
    unfold splitSign
    split <;> simp_all

/-- The digits of a number are read as this number if they are not too many. -/
theorem readInteger?_digitText {n : Nat} (short : n < 10 ^ digitLimit) :
    readInteger? (Binary64.digitText n) = some (n : Int) := by
  have digits := isDigits_toDigits n
  have count : (Nat.toDigits 10 n).length ≤ digitLimit :=
    (Nat.length_toDigits_le_iff (by decide) (by decide)).2 short
  have value : decimalValue (Nat.toDigits 10 n) = n := by
    have fold : decimalValue (Nat.toDigits 10 n) = Nat.ofDigitChars 10 (Nat.toDigits 10 n) 0 := by
      rw [Nat.ofDigitChars_eq_foldl]
      simp only [decimalValue, Nat.mul_comm]
    rw [fold, Nat.ofDigitChars_ten_toDigits]
  unfold readInteger? Binary64.digitText
  rw [plainNumeral_digits digits, dropUnderscores_digits false digits.all]
  have valid : ¬ ((Nat.toDigits 10 n).isEmpty || !(Nat.toDigits 10 n).all Char.isDigit ||
      digitLimit < (Nat.toDigits 10 n).length) = true := by
    simpa [digits.some, count] using digits.all
  simp only [Option.bind_eq_bind, Option.bind_some, splitSign_digits digits, value]
  rw [if_neg valid]
  rfl

end VideoExport.Text
