import VideoExport.Graph.Build
import VideoExport.Proofs.Numeral
import VideoExport.Proofs.Settings.Domain

/-!
# Graphs of sanitized settings

A graph is built for any settings in the domain and any length of the source, and all numbers in
it have numerals (`Settings.pictureFilters_numeric`, `Settings.fadeFilters_numeric`,
`Settings.tempoFilters_numeric`, `Overlay.ofSettings_numeric`).
-/

set_option autoImplicit false

namespace VideoExport

/-! ## Arithmetic that succeeds -/

namespace Number

variable {a b n : Number}

/-- A binary64 number. -/
def IsReal (n : Number) : Prop := ∃ x, n = .real x

theorem IsReal.isShort (h : n.IsReal) : n.IsShort := by
  obtain ⟨x, rfl⟩ := h
  exact isShort_real x

theorem IsReal.toReal (h : n.IsReal) : Yields n.toReal fun _ => True := by
  obtain ⟨x, rfl⟩ := h
  exact .pure trivial

theorem IsReal.least (ha : a.IsReal) (hb : b.IsReal) : (least a b).IsReal := by
  unfold Number.least
  split
  · exact hb
  · exact ha

theorem IsReal.greatest (ha : a.IsReal) (hb : b.IsReal) : (greatest a b).IsReal := by
  unfold Number.greatest
  split
  · exact hb
  · exact ha

theorem IsReal.roundPlaces (h : n.IsReal) (places : Nat) : (n.roundPlaces places).IsReal := by
  obtain ⟨x, rfl⟩ := h
  exact ⟨_, rfl⟩

theorem toReal_finite (h : n.isFinite = true) : Yields n.toReal (·.isFinite = true) := by
  cases n with
  | real x => exact .pure h
  | int n =>
    change (Binary64.ofInt n).isFinite = true at h
    unfold toReal
    dsimp only
    split
    · rename_i hx
      rw [hx] at h
      cases h
    · exact .pure h

/-- Arithmetic with a binary64 number has a binary64 outcome. -/
theorem combine_real {onInts : Int → Int → Int} {onReals : Binary64 → Binary64 → Binary64}
    (ha : Yields a.toReal fun _ => True) (hb : Yields b.toReal fun _ => True)
    (real : a.IsReal ∨ b.IsReal) : Yields (combine onInts onReals a b) IsReal := by
  have reals : Yields (do return Number.real (onReals (← a.toReal) (← b.toReal))) IsReal :=
    ha.bind fun _ _ => hb.bind fun _ _ => .pure ⟨_, rfl⟩
  unfold combine
  split
  · rcases real with ⟨_, h⟩ | ⟨_, h⟩ <;> cases h
  · exact reals

/-- A finite number other than zero, in binary64. -/
def IsDivisor (n : Number) : Prop := ∃ y, n.toReal = .ok (.finite y) ∧ y.mantissa ≠ 0

theorem isDivisor_one : IsDivisor 1 :=
  ⟨⟨false, 4503599627370496, -52, by decide⟩, by decide +kernel, by decide⟩

theorem isDivisor_hundred : IsDivisor 100 :=
  ⟨⟨false, 7036874417766400, -46, by decide⟩, by decide +kernel, by decide⟩

theorem div_of_divisor (x : Binary64) (hb : b.IsDivisor) : Yields ((Number.real x).div b) IsReal := by
  obtain ⟨y, hb, nonzero⟩ := hb
  obtain ⟨z, quotient⟩ : ∃ z, Binary64.div? x (.finite y) = some z := by
    cases x <;> exact ⟨_, if_neg nonzero⟩
  unfold div
  split
  · rename_i h
    cases h
  · rw [hb]
    dsimp only [toReal, bind, Except.bind]
    rw [quotient]
    exact .pure ⟨_, rfl⟩

theorem div_ints {m n : Int} (h : ((Number.int m).div (.int n)).isOk = true) :
    Yields ((Number.int m).div (.int n)) IsReal := by
  unfold div at h ⊢
  dsimp only at h ⊢
  split at h
  · cases h
  · rw [if_neg ‹_›]
    split at h
    · cases h
    · exact .pure ⟨_, rfl⟩

/-- The part of one that a percentage is. -/
theorem fraction_real (h : n.Within 0 100) : Yields (Settings.fraction n) IsReal := by
  cases n with
  | int m =>
    have all : ∀ k < 101, ((Number.int (k : Nat)).div 100).isOk = true := by decide +kernel
    obtain ⟨least, largest⟩ := h.int_between (k := 0) (l := 100) (by decide +kernel) (by decide +kernel)
    obtain ⟨k, rfl⟩ := Int.eq_ofNat_of_zero_le least
    exact div_ints (all k (by omega))
  | real x => exact div_of_divisor x isDivisor_hundred

/-- A number above zero is one that may be divided by, if it is binary64. -/
theorem isDivisor_real {lo hi : Number} {x : Binary64} (h : (Number.real x).Within lo hi)
    (positive : lo.le 0 = false) : (Number.real x).IsDivisor := by
  cases x with
  | finite y =>
    refine ⟨y, rfl, fun zero => ?_⟩
    have value : y.value = 0 := by
      unfold Binary64.Finite.value
      simp [zero]
    have small : (Number.real (.finite y)).le 0 = true :=
      (le_iff (a := .real (.finite y)) (b := 0) rfl rfl).2 (value ▸ Rat.le_refl)
    rw [le_trans h.above small] at positive
    cases positive
  | _ => cases h.finite

end Number

/-! ## Filters of sanitized settings -/

/-- The numbers of a text filter have numerals; its colour has hexadecimal digits. -/
structure Drawtext.Numeric (d : Drawtext) : Prop where
  x : IsNumeral d.x
  y : IsNumeral d.y
  size : IsNumeral d.size
  color : ∀ c ∈ d.color.toList, isHexDigit c = true ∨ c = '\n'
  opacity : IsNumeral d.opacity
  shadowOpacity : IsNumeral d.shadowOpacity

/-- The numbers of a filter have numerals. -/
def VideoFilter.Numeric : VideoFilter → Prop
  | .color b c s => IsNumeral b ∧ IsNumeral c ∧ IsNumeral s
  | .crop keep margin => IsNumeral keep ∧ IsNumeral margin
  | .uncrop n | .noise n | .speed n | .fadeIn n => IsNumeral n
  | .text d => d.Numeric
  | .fadeOut start duration => IsNumeral start ∧ IsNumeral duration
  | .flip | .turn _ | .evenSize => True

/-- The text that a filter draws, with its options. -/
def VideoFilter.drawtext? : VideoFilter → Option Drawtext
  | .text d => some d
  | _ => none

/-- Filters with numerals, none of which draws a text. -/
def Measured (filters : List VideoFilter) : Prop := ∀ f ∈ filters, f.Numeric ∧ f.drawtext? = none

theorem Measured.nil : Measured [] := fun _ h => absurd h List.not_mem_nil

theorem Measured.cons {f : VideoFilter} {rest : List VideoFilter} (hf : f.Numeric)
    (none : f.drawtext? = none) (h : Measured rest) : Measured (f :: rest) := by
  intro g hg
  rcases List.mem_cons.1 hg with rfl | hg
  · exact ⟨hf, none⟩
  · exact h g hg

theorem Measured.append {fs gs : List VideoFilter} (hf : Measured fs) (hg : Measured gs) :
    Measured (fs ++ gs) := fun f h => (List.mem_append.1 h).elim (hf f) (hg f)

namespace Settings

variable {s : Settings} {duration : Number}

/-- What is known of settings that were sanitized, as far as a graph uses them. -/
structure Clean (s : Settings) : Prop where
  domain : s.InDomain
  color : isColor s.text.color = true

theorem clean_of_sanitized {raw : Raw} {hasImage : Bool} (h : sanitize raw hasImage = .ok s) :
    s.Clean :=
  ⟨ofDraft_inDomain h, (ofDraft_others h).2.1 ▸ raw.draft.isColor_color⟩

theorem colorFilter_numeric (h : s.InDomain) :
    Yields s.colorFilter fun f => f.Numeric ∧ f.drawtext? = none := by
  have brightness := h.brightness.isShort (by decide +kernel) (by decide +kernel)
  have contrast := h.contrast.isShort (by decide +kernel) (by decide +kernel)
  have saturation := h.saturation.isShort (by decide +kernel) (by decide +kernel)
  exact (Number.compact_numeral brightness).bind fun _ hb =>
    (Number.compact_numeral contrast).bind fun _ hc =>
    (Number.compact_numeral saturation).bind fun _ hs => .pure ⟨⟨hb, hc, hs⟩, rfl⟩

theorem turnFilters_measured (s : Settings) : Measured s.turnFilters := by
  unfold turnFilters
  split
  · exact .cons trivial rfl .nil
  · split
    · exact .cons trivial rfl (.cons trivial rfl .nil)
    · split
      · exact .cons trivial rfl .nil
      · exact .nil

/-- What a margin on both sides leaves. -/
theorem keep_short {margin : Number} (h : margin.Within 0 (.decimal 2 1)) :
    Yields (Number.mul 2 margin) fun double => Yields (Number.sub 1 double) Number.IsShort := by
  have small (n : Number) (h : n.isFinite = true) : Yields n.toReal fun _ => True :=
    (Number.toReal_finite h).mono fun _ _ => trivial
  cases margin with
  | int m =>
    obtain ⟨least, largest⟩ := h.int_between (k := 0) (l := 1) (by decide +kernel) (by decide +kernel)
    have room : 1 < Nat.pow 10 digitLimit := by decide +kernel
    refine ⟨.int (2 * m), rfl, .int (1 - 2 * m), rfl, fun k hk => ?_⟩
    cases hk
    exact Nat.lt_of_le_of_lt (by omega) room
  | real x =>
    refine (Number.combine_real (small 2 (by decide +kernel)) (.pure trivial) (.inr ⟨x, rfl⟩)).mono ?_
    intro double real
    exact (Number.combine_real (small 1 (by decide +kernel)) real.toReal (.inr real)).mono
      fun _ real => real.isShort

theorem cropFilters_measured (h : s.InDomain) : Yields s.cropFilters Measured := by
  have range : Number.IsRange 0 (.decimal 2 1) := (Field.bounds_sound (f := .smartCrop) rfl).range
  have margin := Number.clamp_within range h.smartCrop.finite
  unfold cropFilters
  split
  · exact .pure .nil
  · refine (keep_short margin).bind fun double hkeep => hkeep.bind fun keep short => ?_
    exact (Number.compact_numeral (margin.isShort (by decide +kernel) (by decide +kernel))).bind
      fun _ hm => (Number.compact_numeral short).bind fun _ hk =>
      .pure (.cons ⟨hk, hm⟩ rfl (.cons hk rfl .nil))

theorem whenever_yields {condition : Bool} {make : Except NumericError VideoFilter}
    {P : VideoFilter → Prop} (h : Yields make P) :
    Yields (whenever condition make) fun fs => ∃ f, P f ∧ fs = if condition then [f] else [] := by
  obtain ⟨f, hf, hP⟩ := h
  unfold whenever
  split
  · rw [hf]
    exact .pure ⟨f, hP, rfl⟩
  · exact .pure ⟨f, hP, rfl⟩

theorem noiseFilter_numeric (h : s.InDomain) :
    Yields s.noiseFilter fun f => f.Numeric ∧ f.drawtext? = none := by
  have strength := Number.clamp_within (Field.bounds_sound (f := .filmGrain) rfl).range h.filmGrain.finite
  exact (Number.compact_numeral (strength.isShort (by decide +kernel) (by decide +kernel))).bind
    fun _ hs => .pure ⟨hs, rfl⟩

theorem speedFilter_numeric (h : s.InDomain) :
    Yields s.speedFilter fun f => f.Numeric ∧ f.drawtext? = none :=
  (Number.compact_numeral (h.playbackRate.isShort (by decide +kernel) (by decide +kernel))).bind
    fun _ hs => .pure ⟨hs, rfl⟩

theorem colorDigits_hex {color : String} (h : isColor color = true) :
    ∀ c ∈ (colorDigits color).toList, isHexDigit c = true ∨ c = '\n' := by
  unfold isColor at h
  split at h
  · rename_i rest hc
    simp only [Bool.and_eq_true, Bool.or_eq_true, decide_eq_true_eq] at h
    obtain ⟨⟨-, digits⟩, last⟩ := h
    have nonempty : color.isEmpty = false := by
      cases he : color.isEmpty with
      | false => rfl
      | true =>
        rw [String.isEmpty_iff.1 he] at hc
        cases hc
    intro c mem
    unfold colorDigits at mem
    rw [nonempty, String.toList_ofList] at mem
    obtain ⟨mem, sign⟩ := List.mem_filter.1 mem
    rw [if_neg (by decide), hc] at mem
    rcases List.mem_cons.1 mem with rfl | mem
    · cases sign
    · rw [← List.take_append_drop 6 rest] at mem
      rcases List.mem_append.1 mem with mem | mem
      · exact .inl (List.all_eq_true.1 digits c mem)
      · rcases last with none | line
        · rw [none] at mem
          cases mem
        · rw [line] at mem
          exact .inr (List.mem_singleton.1 mem)
  · cases h

theorem drawtext_numeric (h : s.Clean) :
    Yields s.drawtext fun d => d.Numeric ∧ d.content = s.text.content := by
  have domain := h.domain
  have opacity := Number.clamp_within (Field.bounds_sound (f := .textOpacity) rfl).range
    domain.textOpacity.finite
  have boost : Yields (Number.decimal 2 1).toReal fun _ => True := .pure trivial
  have size := domain.textSize.isShort (by decide +kernel) (by decide +kernel)
  refine (Number.fraction_real domain.textX).bind fun _ realX =>
    (Number.compact_numeral realX.isShort).bind fun x hx =>
    (Number.fraction_real domain.textY).bind fun _ realY =>
    (Number.compact_numeral realY.isShort).bind fun y hy =>
    (Number.fraction_real opacity).bind fun alpha realAlpha =>
    (Number.combine_real realAlpha.toReal boost (.inl realAlpha)).bind fun boosted realBoosted => ?_
  have shadow : (Number.least (.decimal 10 1) (boosted.roundPlaces 4)).IsReal :=
    .least ⟨_, rfl⟩ (realBoosted.roundPlaces 4)
  exact (Number.compact_numeral size).bind fun _ hsize =>
    (Number.compact_numeral realAlpha.isShort).bind fun _ hopacity =>
    (Number.compact_numeral shadow.isShort).bind fun _ hshadow =>
    .pure ⟨⟨hx, hy, hsize, colorDigits_hex h.color, hopacity, hshadow⟩, rfl⟩

/-- The filters of the picture, with the text filter among them where there is a text. -/
theorem pictureFilters_numeric (h : s.Clean) : ∃ d, s.drawtext = .ok d ∧ d.Numeric ∧
    d.content = s.text.content ∧ Yields s.pictureFilters fun fs => ∃ before after,
      fs = before ++ (if s.text.content.isEmpty then [] else [.text d]) ++ after ∧
        Measured before ∧ Measured after := by
  obtain ⟨d, drawn, numeric, content⟩ := drawtext_numeric h
  refine ⟨d, drawn, numeric, content, ?_⟩
  have text : Yields s.textFilter (· = .text d) := by
    unfold textFilter
    rw [drawn]
    exact .pure rfl
  refine (colorFilter_numeric h.domain).bind fun color hcolor =>
    (cropFilters_measured h.domain).bind fun crop hcrop =>
    (whenever_yields (noiseFilter_numeric h.domain)).bind fun noise hnoise =>
    (whenever_yields text).bind fun texts htexts =>
    (whenever_yields (speedFilter_numeric h.domain)).bind fun speed hspeed => ?_
  obtain ⟨grain, hgrain, rfl⟩ := hnoise
  obtain ⟨_, rfl, rfl⟩ := htexts
  obtain ⟨rate, hrate, rfl⟩ := hspeed
  have single {f : VideoFilter} (condition : Bool) (hf : f.Numeric ∧ f.drawtext? = none) :
      Measured (if condition then [f] else []) := by
    cases condition
    · exact .nil
    · exact .cons hf.1 hf.2 .nil
  have flip : Measured (if s.flipHorizontal then [VideoFilter.flip] else []) :=
    single _ ⟨trivial, rfl⟩
  have before := (((Measured.cons hcolor.1 hcolor.2 .nil).append flip).append
    (turnFilters_measured s)).append hcrop
  refine .pure ⟨_, _, ?_, before.append (single (Number.lt 0 s.filmGrain) hgrain),
    single (!s.playbackRate.same 1) hrate⟩
  cases s.text.content.isEmpty <;> rfl

/-- The rate by which lengths are divided. -/
theorem rate_isDivisor (h : s.InDomain) :
    (if s.playbackRate.isZero then 1 else s.playbackRate).IsDivisor := by
  split
  · exact Number.isDivisor_one
  · have within := h.playbackRate
    generalize s.playbackRate = rate at within
    cases rate with
    | int m =>
      obtain ⟨least, largest⟩ := within.int_between (k := 0) (l := 2) (by decide +kernel)
        (by decide +kernel)
      have inside : ∀ k : Fin 3, (Number.decimal 95 2).le (.int k) = true →
          (Number.int k).le (.decimal 105 2) = true → k = 1 := by decide +kernel
      obtain ⟨k, rfl⟩ := Int.eq_ofNat_of_zero_le least
      have one := inside ⟨k, by omega⟩ within.above within.below
      obtain rfl : k = 1 := congrArg Fin.val one
      exact Number.isDivisor_one
    | real x => exact Number.isDivisor_real within (by decide +kernel)

theorem fadeFilters_numeric (h : s.InDomain) (x : Binary64) :
    Yields (s.fadeFilters (.real x)) Measured := by
  have length := Number.clamp_within (Field.bounds_sound (f := .fadeDuration) rfl).range
    h.fadeDuration.finite
  unfold fadeFilters
  split
  · exact .pure .nil
  · refine (Number.compact_numeral (length.isShort (by decide +kernel) (by decide +kernel))).bind
      fun d hd => ?_
    split
    · refine (Number.div_of_divisor x (rate_isDivisor h)).bind fun output real =>
        (Number.combine_real real.toReal ((Number.toReal_finite length.finite).mono fun _ _ => trivial)
          (.inl real)).bind fun start realStart => ?_
      have shown : (Number.roundPlaces (Number.greatest (.real (.zero false)) start) 6).IsReal :=
        (Number.IsReal.greatest ⟨_, rfl⟩ realStart).roundPlaces 6
      exact (Number.compact_numeral shown.isShort).bind fun _ hs =>
        .pure (.cons hd rfl (.cons ⟨hs, hd⟩ rfl .nil))
    · exact .pure (.cons hd rfl .nil)

theorem tempoFactors_short {rate : Number} (finite : rate.isFinite = true) (short : rate.IsShort) :
    Yields (tempoFactors rate) fun factors => ∀ n ∈ factors, n.IsShort := by
  have alone : ∀ n ∈ [rate], n.IsShort := fun n hn => List.mem_singleton.1 hn ▸ short
  have split (count : Nat) (x y : Binary64) :
      ∀ n ∈ List.replicate count (Number.real x) ++ [.real y], n.IsShort := by
    intro n hn
    rcases List.mem_append.1 hn with hn | hn
    · exact List.eq_of_mem_replicate hn ▸ Number.isShort_real x
    · exact List.mem_singleton.1 hn ▸ Number.isShort_real y
  unfold tempoFactors
  split
  · exact .pure fun _ h => absurd h List.not_mem_nil
  · split
    · refine (Number.toReal_finite finite).bind fun x _ => ?_
      dsimp only
      split
      · exact .pure alone
      · exact .pure (split _ _ _)
    · split
      · exact (Number.toReal_finite finite).bind fun x _ => .pure (split _ _ _)
      · exact .pure alone

theorem tempoFilters_numeric (h : s.InDomain) :
    Yields s.tempoFilters fun fs => ∀ f ∈ fs, IsNumeral f.factor := by
  have rate := h.playbackRate
  have each (factors : List Number) (short : ∀ n ∈ factors, n.IsShort) :
      Yields (factors.mapM fun n => do return TempoFilter.mk (← n.compact)) fun fs =>
        ∀ f ∈ fs, IsNumeral f.factor := by
    induction factors with
    | nil => exact .pure fun _ h => absurd h List.not_mem_nil
    | cons n rest ih =>
      rw [List.mapM_cons]
      obtain ⟨t, ht, numeral⟩ := Number.compact_numeral (short n (.head _))
      rw [ht]
      refine (ih fun m hm => short m (.tail _ hm)).bind fun fs hfs => .pure fun f hf => ?_
      rcases List.mem_cons.1 hf with rfl | hf
      · exact numeral
      · exact hfs f hf
  unfold tempoFilters
  split
  · exact .pure fun _ h => absurd h List.not_mem_nil
  · exact (tempoFactors_short rate.finite (rate.isShort (by decide +kernel) (by decide +kernel))).bind
      each

end Settings

/-- The numbers of an overlay have numerals. -/
structure Overlay.Numeric (o : Overlay) : Prop where
  opacity : IsNumeral o.opacity
  scale : IsNumeral o.scale
  x : IsNumeral o.x
  y : IsNumeral o.y

theorem Overlay.ofSettings_numeric {s : Settings} (h : s.InDomain) :
    Yields (Overlay.ofSettings s) Overlay.Numeric := by
  have opacity := Number.clamp_within (Field.bounds_sound (f := .imageOpacity) rfl).range
    h.imageOpacity.finite
  have scale := Number.clamp_within (Field.bounds_sound (f := .imageScale) rfl).range
    h.imageScale.finite
  exact (Number.fraction_real opacity).bind fun _ realAlpha =>
    (Number.compact_numeral (scale.isShort (by decide +kernel) (by decide +kernel))).bind
      fun _ hscale =>
    (Number.fraction_real h.imageX).bind fun _ realX =>
    (Number.compact_numeral realX.isShort).bind fun _ hx =>
    (Number.fraction_real h.imageY).bind fun _ realY =>
    (Number.compact_numeral realY.isShort).bind fun _ hy =>
    (Number.compact_numeral realAlpha.isShort).bind fun _ hopacity => .pure ⟨hopacity, hscale, hx, hy⟩

end VideoExport
