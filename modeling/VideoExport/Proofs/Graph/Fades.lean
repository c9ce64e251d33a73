import Mathlib.Tactic.IntervalCases
import VideoExport.Proofs.Graph.Tempo
import VideoExport.Proofs.Graph.Total
import VideoExport.Proofs.Numeric.Places
import VideoExport.Proofs.Numeric.Plain

/-!
# The times of the fades

Sanitized settings with fades on make one fade in and one fade out of a source of known length
(`Settings.fades_written`). The length of a fade is written plainly. So is the start of the fade out, which
is rounded to millionths of a second, unless it is rounded to less than one ten-thousandth of a second and
more than none, or the output is longer than any number (`FadeStart`).
-/

set_option autoImplicit false

namespace VideoExport

open Binary64 (Finite overflow)

variable {x rate d : Finite}

/-! ## Numbers that binary64 has -/

/-- A number and the binary64 number of the same value, as which it takes part in arithmetic. -/
structure Number.Stands (n : Number) (f : Finite) : Prop where
  real : n.toReal = .ok (.finite f)
  place : n.place? = some (0, f.value)

namespace Number

variable {n lo hi : Number}

/-- Small integers are binary64 numbers. -/
theorem stands_small : ∀ k < 3, ∃ f, (Number.int (k : Nat)).Stands f := by
  have zero : (Number.int 0).Stands ⟨false, 0, -1074, by decide⟩ := ⟨by decide +kernel, by decide +kernel⟩
  have one : (Number.int 1).Stands ⟨false, 2 ^ 52, -52, by decide⟩ := ⟨by decide +kernel, by decide +kernel⟩
  have two : (Number.int 2).Stands ⟨false, 2 ^ 52, -51, by decide⟩ := ⟨by decide +kernel, by decide +kernel⟩
  intro k hk
  interval_cases k
  · exact ⟨_, zero⟩
  · exact ⟨_, one⟩
  · exact ⟨_, two⟩

/-- A number between nought and two stands for a binary64 number in the same range. -/
theorem Within.stands (h : n.Within lo hi) (hlo : (Number.int 0).le lo = true)
    (hhi : hi.le (.int 2) = true) : ∃ f, n.Stands f := by
  cases n with
  | int m =>
    obtain ⟨least, largest⟩ := h.int_between hlo hhi
    obtain ⟨k, rfl⟩ := Int.eq_ofNat_of_zero_le least
    exact stands_small k (by omega)
  | real x =>
    cases x with
    | finite f => exact ⟨f, rfl, rfl⟩
    | _ => cases h.finite

/-- A bound of a number is one of the binary64 number. -/
theorem Stands.above {f : Finite} {q : Rat} (hf : n.Stands f) (h : lo.le n = true)
    (bound : ∀ p ∈ lo.place?, p.1 = 0 ∧ q ≤ p.2) : q ≤ f.value := by
  obtain ⟨i, p, j, r, hp, hr, order⟩ := le_place h
  obtain ⟨rfl, low⟩ := bound _ hp
  cases hr.symm.trans hf.place
  exact low.trans (order.resolve_left (lt_irrefl _)).2

/-- A number that is zero or not below one ten-thousandth has a plain numeral. -/
theorem Stands.compact_plain {f : Finite} (h : n.Stands f) (short : n.IsShort)
    (size : f.value = 0 ∨ 1 / 10000 ≤ f.value) :
    ∃ t : Numeral, n.compact = .ok t ∧ IsPlain t ∧ t.Denotes f.value := by
  cases n with
  | int m =>
    have value : (m : Rat) = f.value := (Prod.mk.inj (Option.some.inj h.place)).2
    have natural : 0 ≤ m := by
      have above : (0 : Rat) ≤ m := by rcases size with zero | large <;> linarith
      exact_mod_cast above
    have finite : (Number.int m).isFinite = true := by
      rw [int_isFinite_iff, value]
      exact f.abs_value_lt
    have written : intText m = .ok _ := if_pos (short m rfl)
    exact ⟨_, written, (intText_plain_iff written).2 natural, denotes_of_text finite written h.place⟩
  | real y =>
    obtain rfl : y = .finite f := Except.ok.inj h.real
    obtain ⟨t, written, denotes⟩ := compact_denotes f
    exact ⟨t, written, (compact_plain_iff written).2 size, denotes⟩

theorem Stands.div {f : Finite} (h : n.Stands f) (nonzero : f.mantissa ≠ 0) :
    (Number.real (.finite x)).div n =
      .ok (.real (.round (x.value / f.value) (x.negative != f.negative))) := by
  have quotient : Binary64.div? (.finite x) (.finite f) = some _ := if_neg nonzero
  unfold Number.div
  split
  · rename_i other
    cases other
  · rw [h.real]
    dsimp only [toReal, bind, Except.bind]
    rw [quotient]
    rfl

theorem Stands.sub {f : Finite} (h : n.Stands f) (y : Binary64) :
    (Number.real y).sub n = .ok (.real (y.sub (.finite f))) := by
  unfold Number.sub combine
  split
  · rename_i other
    cases other
  · rw [h.real]
    rfl

end Number

/-! ## The start of the fade out -/

/-- What a fade out of length `d` starts at, in the output of a source of length `x` at a speed: at the
end of the output less the length of the fade, to the millionth of a second, and not below zero. -/
structure FadeStart (x rate d : Finite) (st : Numeral) : Prop where
  /-- The output is longer than any number. -/
  endless : overflow ≤ x.value / rate.value → st = "inf" ∧ ¬ IsPlain st
  timed : x.value / rate.value < overflow → ∃ length rest start : Finite,
    Binary64.div? (.finite x) (.finite rate) = some (.finite length) ∧
      (Binary64.finite length).sub (.finite d) = .finite rest ∧
      Binary64.roundRatio false (Binary64.scaledPlaces (max 0 rest.value) 6) (Nat.pow 10 6) =
        .finite start ∧
      st.Denotes start.value ∧
      (IsPlain st ↔ rest.value ≤ 1 / 2000000 ∨ 199 / 2000000 ≤ rest.value)

/-- The later of zero and a time, as a number that is not negative. -/
theorem greatest_zero (rest : Finite) : ∃ f : Finite,
    Number.greatest (.real (.zero false)) (.real (.finite rest)) = .real (.finite f) ∧
      f.negative = false ∧ f.value = max 0 rest.value := by
  have zero : (Number.real (.zero false)).place? = some (0, 0) := by decide +kernel
  have order := Number.lt_iff (b := .real (.finite rest)) zero rfl
  unfold Number.greatest
  by_cases positive : 0 < rest.value
  · rw [if_pos (order.2 positive)]
    exact ⟨rest, rfl, (Binary64.Finite.value_pos_iff.1 positive).1, (max_eq_right positive.le).symm⟩
  · rw [if_neg (mt order.1 positive)]
    exact ⟨_, rfl, rfl, (Prod.mk.inj (Option.some.inj zero)).2.trans (max_eq_left (not_lt.1 positive)).symm⟩

/-- The difference of two numbers that are not negative is a number. -/
theorem sub_finite {y d : Finite} (hy : 0 ≤ y.value) (hd : 0 ≤ d.value) :
    ∃ rest, (Binary64.finite y).sub (.finite d) = .finite rest := by
  show ∃ rest, Binary64.round (y.value + ({ d with negative := !d.negative } : Finite).value) _ = _
  rw [d.neg_value]
  rcases Binary64.round_cases (y.value + -d.value) (y.negative && !d.negative) with ⟨-, inside⟩ | ⟨beyond, -⟩
  · exact inside
  · have below := (abs_lt.1 y.abs_value_lt).2
    have above := (abs_lt.1 d.abs_value_lt).2
    rcases le_abs'.1 beyond with low | high <;> linarith

/-- The start of a fade out has a numeral, whatever the length of the source. -/
theorem fadeStart_written {speed length : Number} (hs : speed.Stands rate) (hl : length.Stands d)
    (positive : 0 < x.value) (hr : 0 < rate.value) (hd : 0 ≤ d.value) :
    ∃ output rest st, (Number.real (.finite x)).div speed = .ok output ∧ output.sub length = .ok rest ∧
      ((Number.greatest (.real (.zero false)) rest).roundPlaces 6).compact = .ok st ∧
      FadeStart x rate d st := by
  obtain ⟨sign, -⟩ := Binary64.Finite.value_pos_iff.1 positive
  obtain ⟨sign', nonzero⟩ := Binary64.Finite.value_pos_iff.1 hr
  have quotient := hs.div (x := x) nonzero.ne'
  have same : Binary64.div? (.finite x) (.finite rate) =
      some (.round (x.value / rate.value) (x.negative != rate.negative)) := if_neg nonzero.ne'
  rw [sign, sign'] at quotient same
  rcases le_or_gt overflow (x.value / rate.value) with beyond | inside
  · rw [Binary64.round_beyond beyond] at quotient
    refine ⟨_, _, "inf", quotient, hl.sub _, rfl, fun _ => ⟨rfl, ?_⟩, fun range => ?_⟩
    · exact IsPlain.not_of_mem (c := 'i') (by decide) rfl
    · exact absurd range (not_lt.2 beyond)
  · have natural : 0 ≤ x.value / rate.value := (div_pos positive hr).le
    rcases Binary64.round_cases (x.value / rate.value) (false != false) with ⟨-, y, hy⟩ | ⟨beyond, -⟩
    · rw [hy] at quotient same
      obtain ⟨rest, hrest⟩ := sub_finite (Binary64.round_nonneg natural hy) hd
      obtain ⟨f, later, plus, value⟩ := greatest_zero rest
      have top : (0 : Rat) ≤ max 0 rest.value := le_max_left _ _
      obtain ⟨start, hstart⟩ := Binary64.millionths_finite top value.ge
      obtain ⟨st, written, denotes⟩ := Number.compact_denotes start
      have rounded : (Number.real (.finite f)).roundPlaces 6 = .real (.finite start) := by
        rw [← hstart, ← value, ← plus]
        rfl
      refine ⟨_, _, st, quotient, hl.sub _, ?_, fun range => ?_, fun _ => ?_⟩
      · rw [hrest, later, rounded]
        exact written
      · exact absurd inside (not_lt.2 range)
      · refine ⟨y, rest, start, same, hrest, hstart, denotes, ?_⟩
        rw [Number.compact_plain_iff written, Binary64.millionths_apart top hstart, max_le_iff, le_max_iff]
        norm_num
    · rw [abs_of_nonneg natural] at beyond
      exact absurd inside (not_lt.2 beyond)

namespace Settings

variable {s : Settings} {raw : Raw} {hasImage : Bool}

/-- Sanitized settings with fades on make one fade in and one fade out of a source of any length. The length
of both is written plainly, and so is the start of the fade out, unless the output is longer than any
number, or than its fade by less than a ten-thousandth of a second but not by so little that this is
rounded to zero. -/
theorem fades_written (h : sanitize raw hasImage = .ok s) (on : s.fadeEnabled = true)
    (positive : 0 < x.value) : ∃ (rate d : Finite) (length start : Numeral),
      s.playbackRate.Stands rate ∧ (s.fadeDuration.clamp (.decimal 1 1) (.decimal 20 1)).Stands d ∧
      s.fadeFilters (.real (.finite x)) = .ok [.fadeIn length, .fadeOut start length] ∧
      (VideoFilter.fadeIn length).write = "fade=t=in:st=0:d=" ++ length ∧
      (VideoFilter.fadeOut start length).write = "fade=t=out:st=" ++ start ++ ":d=" ++ length ∧
      IsPlain length ∧ length.Denotes d.value ∧ FadeStart x rate d start := by
  have domain := ofDraft_inDomain h
  have within : (s.fadeDuration.clamp (.decimal 1 1) (.decimal 20 1)).Within (.decimal 1 1) (.decimal 20 1) :=
    Number.clamp_within (Field.bounds_sound (f := .fadeDuration) rfl).range domain.fadeDuration.finite
  obtain ⟨d, hd⟩ := within.stands (by decide +kernel) (by decide +kernel)
  obtain ⟨rate, hr⟩ := domain.playbackRate.stands (by decide +kernel) (by decide +kernel)
  have fade : 1 / 10000 ≤ d.value := hd.above within.above (by decide +kernel)
  have speed : 1 / 2 ≤ rate.value := hr.above domain.playbackRate.above (by decide +kernel)
  obtain ⟨length, written, plain, denotes⟩ :=
    hd.compact_plain (within.isShort (by decide +kernel) (by decide +kernel)) (.inr fade)
  obtain ⟨output, rest, start, hout, hrest, hstart, starts⟩ :=
    fadeStart_written hr hd positive (by linarith) (by linarith)
  refine ⟨rate, d, length, start, hr, hd, ?_, rfl, rfl, plain, denotes, starts⟩
  have known : Number.lt 0 (.real (.finite x)) = true :=
    (Number.lt_iff (a := 0) (b := .real (.finite x)) rfl rfl).2 positive
  have moving : s.playbackRate.isZero = false := by
    rw [Bool.eq_false_iff]
    intro zero
    have := (Number.same_iff (b := .int 0) hr.place rfl).1 zero
    rw [this] at speed
    norm_num at speed
  have lasting : s.fadeDuration.le 0 = false := by
    rw [Bool.eq_false_iff]
    intro none
    exact absurd (Number.le_trans domain.fadeDuration.above none) (by decide +kernel)
  unfold fadeFilters
  rw [on, lasting, if_neg (by decide)]
  dsimp only
  rw [written, known, moving]
  dsimp only [bind, Except.bind, if_true]
  simp only [Bool.false_eq_true, if_false]
  rw [hout]
  dsimp only
  rw [hrest]
  dsimp only
  rw [hstart]
  rfl

/-- Settings that say only that there are fades. -/
def fadingEntries : Raw := .value (.map [("fade_enabled", .bool true)])

/-- The length of a source, its speed, the length of its fades and the start of the second one. -/
def tenSeconds : Finite := ⟨false, 5 * 2 ^ 50, -49, by decide⟩

def normalRate : Finite := ⟨false, 2 ^ 52, -52, by decide⟩

def halfSecond : Finite := ⟨false, 2 ^ 52, -53, by decide⟩

def nineAndHalf : Finite := ⟨false, 19 * 2 ^ 48, -49, by decide⟩

theorem fades_written_of_ten : ∃ s, sanitize fadingEntries false = .ok s ∧ s.fadeEnabled = true ∧
    0 < tenSeconds.value ∧
    s.fadeFilters (.real (.finite tenSeconds)) = .ok [.fadeIn "0.5", .fadeOut "9.5" "0.5"] ∧
    IsPlain "0.5" ∧ IsPlain "9.5" := by
  obtain ⟨s, h, rate, length, on, made⟩ : ∃ s, sanitize fadingEntries false = .ok s ∧
      s.playbackRate = 1 ∧ s.fadeDuration = .decimal 5 1 ∧ s.fadeEnabled = true ∧
      s.fadeFilters (.real (.finite tenSeconds)) = .ok [.fadeIn "0.5", .fadeOut "9.5" "0.5"] :=
    ⟨_, rfl, by decide +kernel, by decide +kernel, by decide +kernel, by decide +kernel⟩
  have positive : 0 < tenSeconds.value := by decide +kernel
  obtain ⟨r, d, l, st, hr, hd, filters, -, -, plain, -, starts⟩ := fades_written h on positive
  cases made.symm.trans filters
  obtain rfl : r = normalRate := by
    have real : Number.toReal 1 = .ok (.finite normalRate) := by decide +kernel
    have held := hr.real
    rw [rate, real] at held
    exact (Binary64.finite.inj (Except.ok.inj held)).symm
  obtain rfl : d = halfSecond := by
    have real : ((Number.decimal 5 1).clamp (.decimal 1 1) (.decimal 20 1)).toReal =
        .ok (.finite halfSecond) := by decide +kernel
    have held := hd.real
    rw [length, real] at held
    exact (Binary64.finite.inj (Except.ok.inj held)).symm
  have range : tenSeconds.value / normalRate.value < overflow := by
    have : tenSeconds.value / normalRate.value = 10 := by decide +kernel
    rw [this]
    decide +kernel
  obtain ⟨output, rest, start, quotient, difference, -, -, exact⟩ := starts.timed range
  have quotient' : Binary64.div? (.finite tenSeconds) (.finite normalRate) = some (.finite tenSeconds) := by
    decide +kernel
  cases quotient.symm.trans quotient'
  have difference' : (Binary64.finite tenSeconds).sub (.finite halfSecond) = .finite nineAndHalf := by
    decide +kernel
  cases difference.symm.trans difference'
  exact ⟨s, h, on, positive, made, plain, exact.2 (.inr (by decide +kernel))⟩

/-- A little more than one half: the source is a hundredth of a millisecond longer than the fade. -/
def littleOverHalf : Finite := ⟨false, 4503689699363043, -53, by decide⟩

/-- Its fade out starts at a time that is written with an exponent. -/
theorem tiny_start_unplain : ∃ s, sanitize fadingEntries false = .ok s ∧ s.fadeEnabled = true ∧
    0 < littleOverHalf.value ∧
    s.fadeFilters (.real (.finite littleOverHalf)) = .ok [.fadeIn "0.5", .fadeOut "1e-05" "0.5"] ∧
    ¬ IsPlain "1e-05" :=
  ⟨_, rfl, by decide +kernel, by decide +kernel, by decide +kernel,
    IsPlain.not_of_mem (c := 'e') (by decide) rfl⟩

end Settings

end VideoExport
