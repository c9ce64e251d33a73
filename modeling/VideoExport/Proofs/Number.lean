import VideoExport.Numeric.Number

/-!
# The order of numbers

Finite numbers are ordered by their values, whatever their kinds (`Number.lt_iff`, `Number.le_iff`). A
number brought into a range is the nearer bound where it does not lie strictly inside
(`Number.clamp_below`, `Number.clamp_above`), and itself where it does (`Number.clamp_inside`).
-/

set_option autoImplicit false

namespace VideoExport.Number

theorem bind_ok {ε α β : Type} {a : Except ε α} {k : α → Except ε β} {b : β}
    (h : (a >>= k) = .ok b) : ∃ v, a = .ok v ∧ k v = .ok b := by
  cases a with
  | error e => cases h
  | ok v => exact ⟨v, rfl, h⟩

variable {a b n lo hi : Number} {i j : Int} {p q r : Rat}

theorem lt_place (h : a.lt b = true) : ∃ i p j q, a.place? = some (i, p) ∧
    b.place? = some (j, q) ∧ (i < j ∨ i = j ∧ p < q) := by
  unfold lt at h
  split at h
  · rename_i i p j q ha hb
    simp only [Bool.or_eq_true, Bool.and_eq_true, decide_eq_true_eq, beq_iff_eq] at h
    exact ⟨i, p, j, q, ha, hb, h⟩
  · cases h

/-- On the finite part of the line, numbers are ordered by value. -/
theorem lt_iff (ha : a.place? = some (i, p)) (hb : b.place? = some (i, q)) :
    a.lt b = true ↔ p < q := by
  unfold lt
  rw [ha, hb]
  simp

theorem same_iff (ha : a.place? = some (i, p)) (hb : b.place? = some (i, q)) :
    a.same b = true ↔ p = q := by
  unfold same
  rw [ha, hb]
  simp

theorem le_iff (ha : a.place? = some (i, p)) (hb : b.place? = some (i, q)) :
    a.le b = true ↔ p ≤ q := by
  unfold le
  rw [Bool.or_eq_true, lt_iff ha hb, same_iff ha hb]
  exact Rat.le_iff_lt_or_eq.symm

/-! ## Finite numbers -/

theorem exists_place (h : n.isFinite = true) : ∃ q, n.place? = some (0, q) := by
  cases n with
  | int n => exact ⟨n, rfl⟩
  | real x =>
    cases x with
    | finite x => exact ⟨x.value, rfl⟩
    | _ => cases h

theorem same_self (h : n.isFinite = true) : n.same n = true := by
  obtain ⟨q, hq⟩ := exists_place h
  exact (same_iff hq hq).2 rfl

theorem le_self (h : n.isFinite = true) : n.le n = true :=
  Bool.or_eq_true_iff.2 (.inr (same_self h))

theorem lt_eq_not_le (ha : a.isFinite = true) (hb : b.isFinite = true) : a.lt b = !b.le a := by
  obtain ⟨p, hp⟩ := exists_place ha
  obtain ⟨q, hq⟩ := exists_place hb
  rw [Bool.eq_iff_iff, lt_iff hp hq, Bool.not_eq_true', Bool.eq_false_iff, ne_eq, le_iff hq hp]
  exact Rat.not_le.symm

theorem le_of_lt (h : a.lt b = true) : a.le b = true := Bool.or_eq_true_iff.2 (.inl h)

theorem le_place (h : a.le b = true) : ∃ i p j q, a.place? = some (i, p) ∧
    b.place? = some (j, q) ∧ (i < j ∨ i = j ∧ p ≤ q) := by
  rcases Bool.or_eq_true_iff.1 h with h | h
  · obtain ⟨i, p, j, q, ha, hb, h⟩ := lt_place h
    exact ⟨i, p, j, q, ha, hb, h.imp_right fun h => ⟨h.1, Rat.le_of_lt h.2⟩⟩
  · unfold same at h
    split at h
    · rename_i i p j q ha hb
      simp only [Bool.and_eq_true, beq_iff_eq] at h
      exact ⟨i, p, j, q, ha, hb, .inr ⟨h.1, h.2 ▸ Rat.le_refl⟩⟩
    · cases h

theorem le_trans {c : Number} (h : a.le b = true) (h' : b.le c = true) : a.le c = true := by
  obtain ⟨i, p, j, q, ha, hb, h⟩ := le_place h
  obtain ⟨j', q', k, r, hb', hc, h'⟩ := le_place h'
  cases hb.symm.trans hb'
  unfold le lt same
  rw [ha, hc]
  simp only [Bool.or_eq_true, Bool.and_eq_true, decide_eq_true_eq, beq_iff_eq]
  rcases h with h | ⟨rfl, h⟩
  · rcases h' with h' | ⟨rfl, -⟩
    · exact .inl (.inl (Int.lt_trans h h'))
    · exact .inl (.inl h)
  · rcases h' with h' | ⟨rfl, h'⟩
    · exact .inl (.inl h')
    · rcases Rat.le_iff_lt_or_eq.1 (Rat.le_trans h h') with lt | eq
      · exact .inl (.inr ⟨rfl, lt⟩)
      · exact .inr ⟨rfl, eq⟩

theorem int_le_int {m n : Int} : (Number.int m).le (.int n) = true ↔ m ≤ n := by
  rw [le_iff (a := .int m) (b := .int n) rfl rfl, Rat.intCast_le_intCast]

/-- What an integer is not below, no larger integer is below. -/
theorem not_lt_of_int_le {m n : Int} (h : m ≤ n) (large : (Number.int m).lt b = false) :
    (Number.int n).lt b = false := by
  rw [Bool.eq_false_iff] at large ⊢
  intro below
  obtain ⟨_, _, j, q, ⟨⟩, hq, below⟩ := lt_place below
  refine large ?_
  unfold lt
  rw [show (Number.int m).place? = some (0, (m : Rat)) from rfl, hq]
  simp only [Bool.or_eq_true, Bool.and_eq_true, decide_eq_true_eq, beq_iff_eq]
  exact below.imp_right fun below =>
    ⟨below.1, Std.lt_of_le_of_lt (Rat.intCast_le_intCast.2 h) below.2⟩

/-! ## Ranges -/

/-- Finite, and from one number to another. -/
structure Within (n lo hi : Number) : Prop where
  finite : n.isFinite = true
  above : lo.le n = true
  below : n.le hi = true

/-- A range of more than one number. -/
structure IsRange (lo hi : Number) : Prop where
  least : lo.isFinite = true
  largest : hi.isFinite = true
  lt : lo.lt hi = true

/-- Integers around the bounds are around an integer in the range. -/
theorem Within.int_between {k l m : Int} (h : (Number.int m).Within lo hi)
    (hlo : (Number.int k).le lo = true) (hhi : hi.le (.int l) = true) : k ≤ m ∧ m ≤ l :=
  ⟨int_le_int.1 (le_trans hlo h.above), int_le_int.1 (le_trans h.below hhi)⟩

/-- A number in a range above zero is not at most zero. -/
theorem Within.le_zero (h : n.Within lo hi) (hlo : lo.le 0 = false) : n.le 0 = false :=
  Bool.eq_false_iff.2 fun low => Bool.eq_false_iff.1 hlo (le_trans h.above low)

theorem clamp_below (range : IsRange lo hi) (finite : n.isFinite = true) (h : n.le lo = true) :
    n.clamp lo hi = lo := by
  obtain ⟨p, hp⟩ := exists_place range.least
  obtain ⟨q, hq⟩ := exists_place range.largest
  obtain ⟨r, hr⟩ := exists_place finite
  have lt := (lt_iff hp hq).1 range.lt
  have below := (le_iff hr hp).1 h
  have least : hi.least n = n := if_pos ((lt_iff hr hq).2 (Std.lt_of_le_of_lt below lt))
  unfold clamp
  rw [least]
  exact if_neg fun above => Rat.not_lt.2 below ((lt_iff hp hr).1 above)

theorem clamp_above (range : IsRange lo hi) (finite : n.isFinite = true) (h : hi.le n = true) :
    n.clamp lo hi = hi := by
  obtain ⟨q, hq⟩ := exists_place range.largest
  obtain ⟨r, hr⟩ := exists_place finite
  have least : hi.least n = hi :=
    if_neg fun below => Rat.not_lt.2 ((le_iff hq hr).1 h) ((lt_iff hr hq).1 below)
  unfold clamp
  rw [least]
  exact if_pos range.lt

theorem clamp_inside (above : lo.lt n = true) (below : n.lt hi = true) : n.clamp lo hi = n := by
  have least : hi.least n = n := if_pos below
  unfold clamp
  rw [least]
  exact if_pos above

/-- A finite number is at most the lower bound, at least the upper one, or strictly inside. -/
theorem clamp_cases (range : IsRange lo hi) (finite : n.isFinite = true) :
    n.le lo = true ∨ hi.le n = true ∨ lo.lt n = true ∧ n.lt hi = true := by
  obtain ⟨p, hp⟩ := exists_place range.least
  obtain ⟨q, hq⟩ := exists_place range.largest
  obtain ⟨r, hr⟩ := exists_place finite
  rw [le_iff hr hp, le_iff hq hr, lt_iff hp hr, lt_iff hr hq]
  by_cases below : r ≤ p
  · exact .inl below
  · by_cases above : q ≤ r
    · exact .inr (.inl above)
    · exact .inr (.inr ⟨Rat.not_le.1 below, Rat.not_le.1 above⟩)

theorem clamp_within (range : IsRange lo hi) (finite : n.isFinite = true) :
    (n.clamp lo hi).Within lo hi := by
  rcases clamp_cases range finite with h | h | ⟨above, below⟩
  · rw [clamp_below range finite h]
    exact ⟨range.least, le_self range.least, le_of_lt range.lt⟩
  · rw [clamp_above range finite h]
    exact ⟨range.largest, le_of_lt range.lt, le_self range.largest⟩
  · rw [clamp_inside above below]
    exact ⟨finite, le_of_lt above, le_of_lt below⟩

/-- A number in the range keeps its value. -/
theorem Within.clamp_same (range : IsRange lo hi) (h : n.Within lo hi) :
    n.same (n.clamp lo hi) = true := by
  obtain ⟨p, hp⟩ := exists_place range.least
  obtain ⟨q, hq⟩ := exists_place range.largest
  obtain ⟨r, hr⟩ := exists_place h.finite
  rcases clamp_cases range h.finite with low | high | ⟨above, below⟩
  · rw [clamp_below range h.finite low, same_iff hr hp]
    exact Rat.le_antisymm ((le_iff hr hp).1 low) ((le_iff hp hr).1 h.above)
  · rw [clamp_above range h.finite high, same_iff hr hq]
    exact Rat.le_antisymm ((le_iff hr hq).1 h.below) ((le_iff hq hr).1 high)
  · rw [clamp_inside above below]
    exact same_self h.finite

/-- What was brought into the range stays as it is. -/
theorem clamp_clamp (range : IsRange lo hi) (finite : n.isFinite = true) :
    (n.clamp lo hi).clamp lo hi = n.clamp lo hi := by
  rcases clamp_cases range finite with h | h | ⟨above, below⟩
  · rw [clamp_below range finite h]
    exact clamp_below range range.least (le_self range.least)
  · rw [clamp_above range finite h]
    exact clamp_above range range.largest (le_self range.largest)
  · rw [clamp_inside above below, clamp_inside above below]

end VideoExport.Number
