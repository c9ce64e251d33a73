import VideoExport.Proofs.Numeric.Range
import VideoExport.Proofs.Progress
import VideoExport.Proofs.Text.Integer

/-!
# Progress lines

A line that tells a time makes a report: the time, in seconds, divided by the length of the source, and
at most one. What is shown for that report is the quotient brought into the range from zero to one
(`Progress.Reads`): being at most one, it is never taken for a percentage. A time whose seconds lie
beyond the binary64 range is the only thing in a line that fails (`Progress.parseLine_unreadable`).
-/

set_option autoImplicit false

namespace VideoExport

/-! ## The nearest fraction -/

namespace Number

variable {a b c : Number}

theorem lt_of_le_of_lt (h : a.le b = true) (h' : b.lt c = true) : a.lt c = true := by
  obtain ⟨i, p, j, q, ha, hb, h⟩ := le_place h
  obtain ⟨j', q', k, r, hb', hc, h'⟩ := lt_place h'
  cases hb.symm.trans hb'
  unfold lt
  rw [ha, hc]
  simp only [Bool.or_eq_true, Bool.and_eq_true, decide_eq_true_eq, beq_iff_eq]
  rcases h with h | ⟨rfl, h⟩
  · rcases h' with h' | ⟨rfl, -⟩
    · exact .inl (Int.lt_trans h h')
    · exact .inl h
  · exact h'.imp_right fun h' => ⟨h'.1, Std.lt_of_le_of_lt h h'.2⟩

theorem not_lt_of_le (h : a.le b = true) : b.lt a = false := by
  refine Bool.eq_false_iff.2 fun above => ?_
  obtain ⟨i, p, j, q, ha, hb, h⟩ := le_place h
  obtain ⟨j', q', i', p', hb', ha', above⟩ := lt_place above
  cases ha.symm.trans ha'
  cases hb.symm.trans hb'
  rcases h with h | ⟨rfl, h⟩
  · rcases above with above | ⟨rfl, -⟩ <;> omega
  · rcases above with above | ⟨-, above⟩
    · omega
    · exact absurd above (Rat.not_lt.2 h)

/-- The quotient of two integers. -/
theorem div_int (m : Int) {n : Int} (h : n ≠ 0) : (Number.int m).div (.int n) =
    match Binary64.round ((m : Rat) / (n : Rat)) false with
    | .infinite _ => .error .quotientTooLarge
    | x => .ok (.real x) := if_neg h

/-- The quotient of a binary64 number and a positive number is one, finite or infinite. -/
theorem div_positive (x : Binary64.Finite) (finite : b.isFinite = true)
    (positive : Number.lt 0 b = true) :
    ∃ q : Binary64, (Number.real (.finite x)).div b = .ok (.real q) ∧ q ≠ .nan := by
  obtain ⟨y, hy⟩ := toReal_eq_finite finite
  have divisor : y.mantissa ≠ 0 :=
    (Binary64.Finite.value_pos_iff.1 (toReal_positive hy positive)).2.ne'
  have rounded : Binary64.div? (.finite x) (.finite y) =
      some (Binary64.round (x.value / y.value) (x.negative != y.negative)) := by
    rw [Binary64.div?, if_neg divisor]
  have quotient : (Number.real (.finite x)).div b =
      .ok (.real (Binary64.round (x.value / y.value) (x.negative != y.negative))) := by
    unfold Number.div
    cases b with
    | int n =>
      dsimp only
      rw [hy]
      simp only [bind, Except.bind, toReal]
      rw [rounded]
      rfl
    | real z =>
      cases hy
      simp only [bind, Except.bind, toReal]
      rw [rounded]
      rfl
  refine ⟨_, quotient, ?_⟩
  rcases Binary64.round_cases (x.value / y.value) (x.negative != y.negative) with
    ⟨-, z, hz⟩ | ⟨-, s, hs⟩
  · simp [hz]
  · simp [hs]

end Number

namespace Binary64

/-- The fraction nearest to a number: the nearer bound of zero and one unless the number lies between
them. -/
structure NearestFraction (q x : Binary64) : Prop where
  below : (Number.real q).le 0 = true → x = zero false
  above : Number.le 1 (.real q) = true → x = one
  inside : Number.lt 0 (.real q) = true → (Number.real q).lt 1 = true → x = q

variable {q : Binary64}

theorem lt_one : (Number.real q).lt (.real one) = (Number.real q).lt 1 := by
  unfold Number.lt
  rw [place_one]
  rfl

theorem zero_lt : (Number.real (zero false)).lt (.real q) = Number.lt 0 (.real q) := by
  unfold Number.lt
  rw [place_zero]
  rfl

theorem clampUnit_of_not_lt (h : (Number.real q).lt (.real one) = false) : q.clampUnit = one := by
  have room : (Number.real (zero false)).lt (.real one) = true :=
    (Number.lt_iff place_zero place_one).2 (by decide)
  rw [clampUnit, h]
  exact if_pos room

theorem clampUnit_nearest (q : Binary64) : NearestFraction q q.clampUnit where
  below h := by
    have least : Number.lt 0 (.real q) = false := Number.not_lt_of_le h
    have small : (Number.real q).lt 1 = true := Number.lt_of_le_of_lt h (by decide)
    rw [clampUnit, lt_one, small, if_pos rfl, zero_lt, least]
    rfl
  above h := clampUnit_of_not_lt (lt_one ▸ Number.not_lt_of_le h)
  inside positive small := by
    rw [clampUnit, lt_one, small, if_pos rfl, zero_lt, positive]
    rfl

end Binary64

namespace Progress

variable {d : Number} {v : Int}

/-! ## Times -/

/-- The seconds of a time lie beyond the binary64 range. -/
def Oversized (microseconds : Int) : Prop := Binary64.overflow ≤ |(microseconds : Rat) / 1000000|

/-- A line tells such a time. -/
def Unreadable (line : String) : Prop := ∃ v, Line.ofText? line = some (.time v) ∧ Oversized v

theorem seconds_cases (v : Int) : (Oversized v ∧ seconds v = .error .quotientTooLarge) ∨
    ¬ Oversized v ∧ ∃ x : Binary64.Finite, seconds v = .ok (.real (.finite x)) := by
  have quotient := Number.div_int v (n := 1000000) (by decide)
  rcases Binary64.round_cases ((v : Rat) / ((1000000 : Int) : Rat)) false with
    ⟨inside, x, hx⟩ | ⟨beyond, s, hs⟩
  · rw [hx] at quotient
    exact .inr ⟨not_le.2 inside, x, quotient⟩
  · rw [hs] at quotient
    exact .inl ⟨beyond, quotient⟩

theorem oversized_iff : Oversized v ↔ seconds v = .error .quotientTooLarge := by
  rcases seconds_cases v with ⟨oversized, failed⟩ | ⟨fits, x, hx⟩
  · exact iff_of_true oversized failed
  · exact iff_of_false fits (by simp [hx])

/-- What is shown for a number that was brought down to at most one is the fraction nearest to it. -/
theorem ofNumber_atMostOne {q : Binary64} (number : q ≠ .nan) :
    ofNumber (Number.least (.real .one) (.real q)) = .ok q.clampUnit := by
  unfold Number.least
  cases small : (Number.real q).lt (.real .one) with
  | true =>
    rw [if_pos rfl]
    cases q with
    | nan => exact absurd rfl number
    | infinite s =>
      cases s with
      | true => decide +kernel
      | false => exact absurd small (by decide +kernel)
    | finite x =>
      have limit : (Number.real (.finite x)).le fractionLimit = true :=
        Number.le_trans (Number.le_of_lt small) (by decide +kernel)
      show (if (Number.real (.finite x)).le fractionLimit then _ else _) = _
      exact if_pos limit
  | false =>
    have one : ofNumber (.real .one) = .ok .one := by decide +kernel
    rw [Binary64.clampUnit_of_not_lt small, ← one]
    rfl

theorem least_one_le (q : Binary64) : (Number.least (.real .one) (.real q)).le 1 = true := by
  unfold Number.least
  split
  · rename_i small
    rw [Binary64.lt_one] at small
    exact Number.le_of_lt small
  · decide +kernel

/-! ## Lines -/

/-- What a line of the encoder's output comes to, for a source of length `d`. -/
structure Reads (d : Number) (line : String) : Prop where
  /-- Only a time beyond the range fails. -/
  fails : ∀ e, parseLine line d = .error e ↔ Unreadable line ∧ e = .quotientTooLarge
  /-- A report has a ratio and nothing else, which is at most one. -/
  atMostOne : ∀ report, parseLine line d = .ok (some report) →
    ∃ r, report = { ratio := .number r } ∧ r.le 1 = true
  /-- What is shown for a time is the fraction nearest to its part of the length. -/
  measured : ∀ v, Line.ofText? line = some (.time v) → ¬ Oversized v → Number.lt 0 d = true →
    ∃ q report x, (seconds v >>= fun time => time.div d) = .ok (.real q) ∧ q ≠ .nan ∧
      parseLine line d = .ok (some report) ∧
      normalize (eventNumber? (.progress report)) = .ok x ∧ Binary64.NearestFraction q x

variable {line : String}

theorem parseLine_other (h : Line.ofText? line = none) : parseLine line d = .ok none := by
  unfold parseLine
  rw [h]

theorem parseLine_ended (h : Line.ofText? line = some .ended) :
    parseLine line d = .ok (some { ratio := .number (.real .one) }) := by
  unfold parseLine
  rw [h]

theorem parseLine_oversized (h : Line.ofText? line = some (.time v)) (oversized : Oversized v) :
    parseLine line d = .error .quotientTooLarge := by
  rcases seconds_cases v with ⟨-, beyond⟩ | ⟨fits, -⟩
  · unfold parseLine
    rw [h]
    dsimp only
    rw [beyond]
    rfl
  · exact absurd oversized fits

/-- A time without a length says nothing. -/
theorem parseLine_unmeasured (h : Line.ofText? line = some (.time v)) (fits : ¬ Oversized v)
    (unknown : d.le 0 = true) : parseLine line d = .ok none := by
  rcases seconds_cases v with ⟨oversized, -⟩ | ⟨-, x, hx⟩
  · exact absurd oversized fits
  · unfold parseLine
    rw [h]
    dsimp only
    rw [hx]
    exact if_pos unknown

/-- A time makes a report of its part of the length. -/
theorem parseLine_measured (h : Line.ofText? line = some (.time v)) (fits : ¬ Oversized v)
    (finite : d.isFinite = true) (positive : Number.lt 0 d = true) :
    ∃ q : Binary64, (seconds v >>= fun time => time.div d) = .ok (.real q) ∧ q ≠ .nan ∧
      parseLine line d =
        .ok (some { ratio := .number (Number.least (.real .one) (.real q)) }) := by
  rcases seconds_cases v with ⟨oversized, -⟩ | ⟨-, x, hx⟩
  · exact absurd oversized fits
  · obtain ⟨q, hq, number⟩ := Number.div_positive x finite positive
    have known : ¬ d.le 0 = true := fun below => by
      rw [Number.not_lt_of_le below] at positive
      cases positive
    refine ⟨q, by rw [hx]; exact hq, number, ?_⟩
    unfold parseLine
    rw [h]
    dsimp only
    rw [hx]
    show (if d.le 0 = true then _ else _) = _
    rw [if_neg known, hq]
    rfl

/-- A line fails if it is unreadable; otherwise it makes no report or one of a ratio. -/
theorem parseLine_cases (finite : d.isFinite = true) (line : String) :
    (Unreadable line ∧ parseLine line d = .error .quotientTooLarge) ∨
    ¬ Unreadable line ∧ ∃ made, parseLine line d = .ok made ∧
      ∀ report ∈ made, ∃ r, report = { ratio := .number r } ∧ r.le 1 = true := by
  have readable (h : ∀ v, Line.ofText? line = some (.time v) → ¬ Oversized v) :
      ¬ Unreadable line := fun ⟨v, hv, oversized⟩ => h v hv oversized
  have silent (h : parseLine line d = .ok none) : ∃ made, parseLine line d = .ok made ∧
      ∀ report ∈ made, ∃ r, report = { ratio := .number r } ∧ r.le 1 = true :=
    ⟨none, h, nofun⟩
  cases h : Line.ofText? line with
  | none => exact .inr ⟨readable (by simp [h]), silent (parseLine_other h)⟩
  | some told =>
    cases told with
    | ended =>
      refine .inr ⟨readable (by simp [h]), _, parseLine_ended h, fun report hr => ?_⟩
      cases hr
      exact ⟨_, rfl, by decide +kernel⟩
    | time v =>
      by_cases fits : Oversized v
      · exact .inl ⟨⟨v, h, fits⟩, parseLine_oversized h fits⟩
      · refine .inr ⟨readable (by simpa [h] using fits), ?_⟩
        by_cases unknown : d.le 0 = true
        · exact silent (parseLine_unmeasured h fits unknown)
        · have positive : Number.lt 0 d = true := by
            obtain ⟨p, hp⟩ := Number.exists_place finite
            rw [Number.le_iff hp (b := 0) rfl] at unknown
            exact (Number.lt_iff (a := 0) rfl hp).2 (not_le.1 unknown)
          obtain ⟨q, -, -, made⟩ := parseLine_measured h fits finite positive
          refine ⟨_, made, fun report hr => ?_⟩
          cases hr
          exact ⟨_, rfl, least_one_le q⟩

/-- Every line is read so. -/
theorem reads (finite : d.isFinite = true) (line : String) : Reads d line := by
  refine ⟨fun e => ?_, fun report made => ?_, fun v h fits positive => ?_⟩
  · rcases parseLine_cases finite line with ⟨unreadable, failed⟩ | ⟨readable, made, hm, -⟩
    · simp [unreadable, failed, eq_comm]
    · simp [readable, hm]
  · rcases parseLine_cases finite line with ⟨-, failed⟩ | ⟨-, made', hm, ratios⟩
    · cases failed.symm.trans made
    · cases hm.symm.trans made
      exact ratios report rfl
  · obtain ⟨q, quotient, number, made⟩ := parseLine_measured h fits finite positive
    exact ⟨q, _, _, quotient, number, made, ofNumber_atMostOne number, q.clampUnit_nearest⟩

/-! ## Lines that tell a time -/

/-- The line that tells a time. -/
def timeLine (microseconds : Nat) : String := "out_time_us=" ++ Binary64.digitText microseconds

section
variable {n : Nat}

theorem toList_timeLine : (timeLine n).toList = "out_time_us=".toList ++ Nat.toDigits 10 n := by
  rw [timeLine, String.toList_append]
  exact congrArg _ String.toList_ofList

theorem strip_timeLine : Text.strip (timeLine n).toList = (timeLine n).toList := by
  have digits := Text.isDigits_toDigits n
  rw [toList_timeLine]
  refine Text.strip_of_ends (fun c hc => ?_) fun c hc => ?_
  · obtain rfl : 'o' = c := by simpa using hc
    decide
  · rw [List.getLast?_append_of_ne_nil _ digits.some] at hc
    exact (Text.digit_plain (digits.all c (List.mem_of_mem_getLast? hc))).1

/-- Any time that has not too many digits can be told. -/
theorem ofText?_timeLine (short : n < 10 ^ digitLimit) :
    Line.ofText? (timeLine n) = some (.time n) := by
  have split : splitLine (timeLine n) = some ("out_time_us", Binary64.digitText n) := by
    unfold splitLine
    rw [toList_timeLine]
    rfl
  unfold Line.ofText?
  rw [split]
  simp [Text.readInteger?_digitText short]

theorem unreadable_timeLine (short : n < 10 ^ digitLimit) :
    Unreadable (timeLine n) ↔ Oversized n := by
  simp [Unreadable, ofText?_timeLine short]

end

end Progress

end VideoExport
