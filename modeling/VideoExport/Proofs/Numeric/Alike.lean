import VideoExport.Proofs.Number
import VideoExport.Proofs.Numeral
import VideoExport.Proofs.Numeric.Scaling

/-!
# Numbers of one value

An integer and a binary64 number of the same value are different numbers, and so are the two zeros. They
compare alike (`Number.Alike.lt_eq`), they have the same text in a filter (`Number.Alike.compact_eq`), and
where they are positive they are converted to the same number (`Number.Alike.toReal_eq`).
-/

set_option autoImplicit false

namespace VideoExport

namespace Binary64

variable {x y : Finite}

/-- Apart from zeros, a value belongs to one number only. -/
theorem Finite.eq_of_value (value : x.value = y.value) (nonzero : x.value ≠ 0) : x = y := by
  have of_positive {x y : Finite} (value : x.value = y.value) (positive : 0 < x.value) : x = y := by
    have rounded := round_value positive false
    rw [value, round_value (value ▸ positive)] at rounded
    exact (Binary64.finite.inj rounded).symm
  rcases lt_or_gt_of_ne nonzero with negative | positive
  · have flipped := of_positive (x := { x with negative := !x.negative })
      (y := { y with negative := !y.negative }) (by rw [x.neg_value, y.neg_value, value])
      (by rw [x.neg_value]; exact neg_pos.2 negative)
    injection flipped with sign mantissa exponent
    cases x
    cases y
    simp_all
  · exact of_positive value positive

/-- The sign that a zero is given does not change the place. -/
theorem round_place (q : Rat) (s t : Bool) : (round q s).place? = (round q t).place? := by
  unfold round
  split
  · cases s <;> cases t <;> decide +kernel
  · rfl

end Binary64

namespace Number

/-- Numbers with the same place on the line, whatever their kinds and the signs of zeros. -/
def Alike (a b : Number) : Prop := a.place? = b.place?

variable {a b c d lo hi : Number} {q : Rat}

theorem alike_of_same (h : a.same b = true) : Alike a b := by
  unfold same at h
  split at h
  · rename_i i p j q ha hb
    simp only [Bool.and_eq_true, beq_iff_eq] at h
    unfold Alike
    rw [ha, hb, h.1, h.2]
  · cases h

namespace Alike

protected theorem refl (a : Number) : Alike a a := rfl

protected theorem symm (h : Alike a b) : Alike b a := Eq.symm h

/-! ## Order -/

theorem lt_eq (h : Alike a b) (h' : Alike c d) : a.lt c = b.lt d := by
  unfold lt
  rw [h, h']

theorem same_eq (h : Alike a b) (h' : Alike c d) : a.same c = b.same d := by
  unfold same
  rw [h, h']

theorem le_eq (h : Alike a b) (h' : Alike c d) : a.le c = b.le d := by
  unfold le
  rw [h.lt_eq h', h.same_eq h']

theorem least (h : Alike a b) (h' : Alike c d) : Alike (a.least c) (b.least d) := by
  unfold Number.least
  rw [h'.lt_eq h]
  split
  · exact h'
  · exact h

theorem greatest (h : Alike a b) (h' : Alike c d) : Alike (a.greatest c) (b.greatest d) := by
  unfold Number.greatest
  rw [h.lt_eq h']
  split
  · exact h'
  · exact h

theorem clamp (h : Alike a b) (lo hi : Number) : Alike (a.clamp lo hi) (b.clamp lo hi) :=
  .greatest (.refl lo) (.least (.refl hi) h)

/-! ## Text and conversion -/

/-- Binary64 numbers alike are the same unless they are numbers of one value. -/
theorem real_cases {x y : Binary64} (h : Alike (.real x) (.real y)) :
    x = y ∨ ∃ f g : Binary64.Finite, x = .finite f ∧ y = .finite g ∧ f.value = g.value := by
  change x.place? = y.place? at h
  rcases x with _ | (_ | _) | f <;> rcases y with _ | (_ | _) | g
  case finite.finite => exact .inr ⟨f, g, rfl, rfl, (Prod.mk.inj (Option.some.inj h)).2⟩
  all_goals first | exact .inl rfl | cases h

theorem real_eq {x y : Binary64} (h : Alike (.real x) (.real y)) :
    x = y ∨ (Number.real x).place? = some (0, 0) := by
  rcases h.real_cases with rfl | ⟨f, g, rfl, rfl, value⟩
  · exact .inl rfl
  · by_cases zero : f.value = 0
    · exact .inr (congrArg (fun q => some (0, q)) zero)
    · exact .inl (congrArg Binary64.finite (Binary64.Finite.eq_of_value value zero))

end Alike

/-- A number with a value is an integer, or a binary64 number that is finite. -/
theorem of_place (h : a.place? = some (0, q)) :
    (∃ n : Int, a = .int n ∧ n = q) ∨ ∃ x : Binary64.Finite, a = .real (.finite x) ∧ x.value = q := by
  cases a with
  | int n => exact .inl ⟨n, rfl, (Prod.mk.inj (Option.some.inj h)).2⟩
  | real x =>
    cases x with
    | finite x => exact .inr ⟨x, rfl, (Prod.mk.inj (Option.some.inj h)).2⟩
    | nan => cases h
    | infinite s => cases s <;> cases h

/-- An integral value is written as an integer. -/
theorem compact_integral (h : a.place? = some (0, q)) (integral : q.den = 1) :
    a.compact = intText q.num := by
  obtain ⟨n, rfl, rfl⟩ | ⟨x, rfl, rfl⟩ := of_place h
  · rfl
  · have integer : (Binary64.finite x).isInteger = true := beq_iff_eq.2 integral
    have truncated : x.truncate = x.value.num := by
      have value := Binary64.Finite.truncate_value integral
      rw [← value, Rat.num_intCast]
    show (if (Binary64.finite x).isInteger then intText x.truncate else _) = _
    rw [if_pos integer, truncated]

theorem Alike.compact_eq (h : Alike a b) : a.compact = b.compact := by
  have of_int {n : Int} {b : Number} (h : Alike (.int n) b) : (Number.int n).compact = b.compact := by
    have place : (Number.int n).place? = some (0, (n : Rat)) := rfl
    rw [compact_integral place (Rat.den_intCast n), compact_integral (h ▸ place) (Rat.den_intCast n)]
  cases a with
  | int n => exact of_int h
  | real x =>
    cases b with
    | int n => exact (of_int h.symm).symm
    | real y =>
      rcases h.real_eq with rfl | zero
      · rfl
      · rw [compact_integral zero rfl, compact_integral (h ▸ zero) rfl]

/-- A positive value is converted to the number nearest to it, of whichever kind it was. -/
theorem toReal_of_place (h : a.place? = some (0, q)) (positive : 0 < q) : a.toReal =
    match Binary64.round q false with
    | .infinite _ => .error .tooLargeForReal
    | x => .ok x := by
  obtain ⟨n, rfl, rfl⟩ | ⟨x, rfl, rfl⟩ := of_place h
  · rfl
  · rw [Binary64.round_value positive]
    rfl

theorem Alike.toReal_eq (h : Alike a b) (finite : a.isFinite = true)
    (positive : Number.lt 0 a = true) : a.toReal = b.toReal := by
  obtain ⟨q, hq⟩ := exists_place finite
  have above := (lt_iff (a := 0) rfl hq).1 positive
  rw [toReal_of_place hq above, toReal_of_place (h ▸ hq) above]

/-- A number in a range above zero is above zero. -/
theorem Within.positive (h : a.Within lo hi) (hlo : lo.le 0 = false) : Number.lt 0 a = true := by
  rw [lt_eq_not_le rfl h.finite, h.le_zero hlo]
  rfl

/-! ## Arithmetic -/

/-- A quotient depends on the number that the divisor is converted to. -/
theorem div_real_eq (x : Binary64) (h : a.toReal = b.toReal) :
    (Number.real x).div a = (Number.real x).div b := by
  unfold div
  cases a <;> cases b <;> dsimp only <;> rw [h]

theorem sub_real_eq (x : Binary64) (h : a.toReal = b.toReal) :
    (Number.real x).sub a = (Number.real x).sub b := by
  have converted (n : Number) : (Number.real x).sub n =
      (do return .real (x.sub (← n.toReal))) := by
    cases n <;> rfl
  rw [converted, converted, h]

/-- The sign of a zero is lost where a number with a positive sign is added. -/
theorem Alike.add_eq {x y : Binary64} {z : Binary64.Finite} (h : Alike (.real x) (.real y))
    (sign : z.negative = false) :
    (Number.real x).add (.real (.finite z)) = (Number.real y).add (.real (.finite z)) := by
  rcases h.real_cases with rfl | ⟨f, g, rfl, rfl, value⟩
  · rfl
  · have sum (f : Binary64.Finite) : (Number.real (.finite f)).add (.real (.finite z)) =
        .ok (.real (.round (f.value + z.value) (f.negative && z.negative))) := rfl
    rw [sum, sum, value, sign, Bool.and_false, Bool.and_false]

end Number

end VideoExport
