import VideoExport.Proofs.Graph.Drawtext

/-!
# The colour of the text

A colour is a number sign and six hexadecimal digits, and a line break may follow them (`isColor_iff`). One
that is given is kept, anything else becomes white, and the text filter has what follows the number sign
between `0x` and the opacity (`Drawtext.write_color`).
-/

set_option autoImplicit false

namespace VideoExport

/-! ## Colours -/

/-- Six hexadecimal digits. -/
structure IsRgb (digits : String) : Prop where
  six : digits.toList.length = 6
  hexadecimal : ∀ c ∈ digits.toList, c ∈ "0123456789abcdefABCDEF".toList

instance (digits : String) : Decidable (IsRgb digits) :=
  decidable_of_iff (digits.toList.length = 6 ∧
      digits.toList.all (fun c => "0123456789abcdefABCDEF".toList.contains c) = true)
    ⟨fun h => ⟨h.1, fun c hc => List.contains_iff_mem.1 (List.all_eq_true.1 h.2 c hc)⟩,
      fun h => ⟨h.1, List.all_eq_true.2 fun c hc => List.contains_iff_mem.2 (h.2 c hc)⟩⟩

theorem isHexDigit_iff (c : Char) : isHexDigit c = true ↔ c ∈ "0123456789abcdefABCDEF".toList := by
  have same (d : Char) : c = d ↔ c.toNat = d.toNat := by
    constructor
    · exact congrArg Char.toNat
    · exact fun h => Char.ext (UInt32.toNat_inj.1 h)
  have range (a b : Char) : (a ≤ c && c ≤ b) = true ↔ a.toNat ≤ c.toNat ∧ c.toNat ≤ b.toNat := by
    rw [Bool.and_eq_true, decide_eq_true_eq, decide_eq_true_eq]
    exact Iff.rfl
  have digits : "0123456789abcdefABCDEF".toList = ['0', '1', '2', '3', '4', '5', '6', '7', '8', '9',
    'a', 'b', 'c', 'd', 'e', 'f', 'A', 'B', 'C', 'D', 'E', 'F'] := rfl
  unfold isHexDigit
  rw [digits]
  simp only [Bool.or_eq_true, range, List.mem_cons, List.not_mem_nil, or_false, same, Char.reduceToNat]
  omega

namespace IsRgb

variable {digits : String}

theorem isHexDigit (h : IsRgb digits) : digits.toList.all VideoExport.isHexDigit = true :=
  List.all_eq_true.2 fun c hc => (isHexDigit_iff c).2 (h.hexadecimal c hc)

theorem sign (h : IsRgb digits) : '#' ∉ digits.toList := fun mem =>
  absurd (h.hexadecimal '#' mem) (by decide)

end IsRgb

/-- A colour is a number sign and six digits, and a line break may follow. -/
theorem isColor_iff (s : String) : isColor s = true ↔
    ∃ digits, IsRgb digits ∧ (s = "#" ++ digits ∨ s = "#" ++ digits ++ "\n") := by
  constructor
  · intro h
    unfold isColor at h
    split at h
    · rename_i rest hs
      simp only [Bool.and_eq_true, Bool.or_eq_true, decide_eq_true_eq] at h
      obtain ⟨⟨six, digits⟩, last⟩ := h
      refine ⟨String.ofList (rest.take 6), ⟨?_, ?_⟩, ?_⟩
      · rwa [String.toList_ofList]
      · rw [String.toList_ofList]
        exact fun c hc => (isHexDigit_iff c).1 (List.all_eq_true.1 digits c hc)
      · rw [← List.take_append_drop 6 rest] at hs
        refine last.imp (fun none => ?_) fun line => ?_
        · rw [none] at hs
          refine String.toList_inj.1 (hs.trans ?_)
          simp
        · rw [line] at hs
          refine String.toList_inj.1 (hs.trans ?_)
          simp
    · cases h
  · rintro ⟨digits, rgb, h⟩
    have six := rgb.six
    have all := rgb.isHexDigit
    unfold isColor
    obtain rfl | rfl := h
    · have text : ("#" ++ digits).toList = '#' :: digits.toList := by simp
      rw [text]
      simp [List.take_of_length_le six.le, List.drop_of_length_le six.le, six, all]
    · have text : ("#" ++ digits ++ "\n").toList = '#' :: (digits.toList ++ ['\n']) := by simp
      rw [text]
      simp [List.take_left' six, List.drop_left' six, six, all]

namespace Draft

variable {d : Draft} {color digits : String}

/-- A draft that gives a text for the colour. -/
def GivesColor (d : Draft) (color : String) : Prop := d.value? .textColor = some (.text color)

theorem GivesColor.eq {other : String} (h : d.GivesColor color) (h' : d.GivesColor other) :
    color = other :=
  Value.text.inj (Option.some.inj (h.symm.trans h'))

/-- What a draft gives for the colour is kept if it is one. -/
theorem GivesColor.kept (h : d.GivesColor color) (valid : isColor color = true) : d.color = color := by
  unfold Draft.color
  rw [show d.value? .textColor = _ from h]
  exact if_pos valid

theorem color_white (h : ∀ color, d.GivesColor color → isColor color = false) : d.color = "#ffffff" := by
  unfold Draft.color
  split
  · rename_i color given
    rw [h color given]
    rfl
  · rfl

end Draft

/-! ## The option for the colour -/

/-- The text of a text filter from the option for its colour on. -/
theorem Drawtext.write_color (d : Drawtext) : ∃ before, d.write = before ++ ":fontcolor=0x" ++ d.color ++
    "@" ++ d.opacity ++ ":shadowcolor=black@" ++ d.shadowOpacity ++ ":shadowx=2:shadowy=2" := by
  let front := ":".intercalate ((d.options.take 5).map writeOption)
  have options : d.write = "drawtext=" ++ (front ++ ":" ++ ("fontcolor=0x" ++ d.color ++ "@" ++ d.opacity) ++
      ":" ++ ("shadowcolor=black@" ++ d.shadowOpacity) ++ ":" ++ "shadowx=2" ++ ":" ++ "shadowy=2") := rfl
  refine ⟨"drawtext=" ++ front, String.toList_inj.1 ?_⟩
  rw [options]
  simp

namespace Settings

variable {raw : Raw} {hasImage : Bool} {s : Settings} {d : Drawtext}

theorem drawtext_color (h : s.drawtext = .ok d) : d.color = colorDigits s.text.color ∧
    (fraction (s.text.opacity.clamp 0 100) >>= Number.compact) = .ok d.opacity := by
  obtain ⟨_, -, h⟩ := Number.bind_ok h
  obtain ⟨_, -, h⟩ := Number.bind_ok h
  obtain ⟨_, -, h⟩ := Number.bind_ok h
  obtain ⟨_, -, h⟩ := Number.bind_ok h
  obtain ⟨opacity, part, h⟩ := Number.bind_ok h
  obtain ⟨_, -, h⟩ := Number.bind_ok h
  obtain ⟨_, -, h⟩ := Number.bind_ok h
  obtain ⟨_, written, h⟩ := Number.bind_ok h
  obtain ⟨_, -, h⟩ := Number.bind_ok h
  cases h
  refine ⟨rfl, ?_⟩
  rw [part]
  exact written

theorem colorDigits_sign {digits : String} (h : '#' ∉ digits.toList) :
    colorDigits ("#" ++ digits) = digits := by
  have given : ("#" ++ digits).isEmpty = false := by
    rw [← Bool.not_eq_true, String.isEmpty_iff]
    exact fun none => by simpa using congrArg String.toList none
  have kept : digits.toList.filter (· ≠ '#') = digits.toList :=
    List.filter_eq_self.2 fun c hc => decide_eq_true (ne_of_mem_of_not_mem hc h)
  unfold colorDigits
  rw [given]
  refine String.toList_inj.1 ?_
  simpa using kept

/-- Six digits behind a number sign are kept as the colour of the text, and so are they with a line break
behind them; anything else becomes white. The text filter has the colour without the number sign and its
opacity as the option for the colour, so that is six digits and the opacity unless a line break was
given. -/
theorem color_kept (h : sanitize raw hasImage = .ok s) :
    (∀ digits, IsRgb digits → raw.draft.GivesColor ("#" ++ digits) → s.text.color = "#" ++ digits) ∧
    (∀ digits, IsRgb digits → raw.draft.GivesColor ("#" ++ digits ++ "\n") →
      s.text.color = "#" ++ digits ++ "\n") ∧
    ((∀ digits, IsRgb digits → ¬ raw.draft.GivesColor ("#" ++ digits) ∧
      ¬ raw.draft.GivesColor ("#" ++ digits ++ "\n")) → s.text.color = "#ffffff") ∧
    ∃ written, s.text.color = "#" ++ written ∧
      (IsRgb written ↔ ∀ digits, IsRgb digits → ¬ raw.draft.GivesColor ("#" ++ digits ++ "\n")) ∧
      (s.text.content ≠ "" → ∃ filters d before, s.pictureFilters = .ok filters ∧
        filters.filterMap VideoFilter.drawtext? = [d] ∧
        (fraction (s.text.opacity.clamp 0 100) >>= Number.compact) = .ok d.opacity ∧
        d.write = before ++ ":fontcolor=0x" ++ written ++ "@" ++ d.opacity ++ ":shadowcolor=black@" ++
          d.shadowOpacity ++ ":shadowx=2:shadowy=2") := by
  have color : s.text.color = raw.draft.color := (ofDraft_others h).2.1
  have plain {digits : String} (rgb : IsRgb digits) (given : raw.draft.GivesColor ("#" ++ digits)) :
      s.text.color = "#" ++ digits :=
    color.trans (given.kept ((isColor_iff _).2 ⟨digits, rgb, .inl rfl⟩))
  have ended {digits : String} (rgb : IsRgb digits)
      (given : raw.draft.GivesColor ("#" ++ digits ++ "\n")) :
      s.text.color = "#" ++ digits ++ "\n" :=
    color.trans (given.kept ((isColor_iff _).2 ⟨digits, rgb, .inr rfl⟩))
  have white (none : ∀ digits, IsRgb digits → ¬ raw.draft.GivesColor ("#" ++ digits) ∧
      ¬ raw.draft.GivesColor ("#" ++ digits ++ "\n")) : s.text.color = "#ffffff" := by
    refine color.trans (Draft.color_white fun given hg => Bool.eq_false_iff.2 fun valid => ?_)
    obtain ⟨digits, rgb, rfl | rfl⟩ := (isColor_iff given).1 valid
    · exact (none digits rgb).1 hg
    · exact (none digits rgb).2 hg
  have clean := clean_of_sanitized h
  have filter {written : String} (hw : s.text.color = "#" ++ written) (sign : '#' ∉ written.toList)
      (text : s.text.content ≠ "") : ∃ filters d before, s.pictureFilters = .ok filters ∧
        filters.filterMap VideoFilter.drawtext? = [d] ∧
        (fraction (s.text.opacity.clamp 0 100) >>= Number.compact) = .ok d.opacity ∧
        d.write = before ++ ":fontcolor=0x" ++ written ++ "@" ++ d.opacity ++ ":shadowcolor=black@" ++
          d.shadowOpacity ++ ":shadowx=2:shadowy=2" := by
    obtain ⟨filters, d, built, only, drawn, -⟩ := drawtext_picture clean text
    obtain ⟨own, opacity⟩ := drawtext_color drawn
    obtain ⟨before, whole⟩ := d.write_color
    rw [hw, colorDigits_sign sign] at own
    exact ⟨filters, d, before, built, only, opacity, own ▸ whole⟩
  refine ⟨fun _ => plain, fun _ => ended, white, ?_⟩
  obtain ⟨digits, rgb, is | is⟩ := (isColor_iff _).1 clean.color
  · refine ⟨digits, is, ⟨fun _ other rgb' given => ?_, fun _ => rgb⟩, filter is rgb.sign⟩
    have same := congrArg (·.toList.length) (is.symm.trans (ended rgb' given))
    simp [rgb.six, rgb'.six] at same
  · have split : s.text.color = "#" ++ (digits ++ "\n") := is.trans (String.append_assoc ..)
    have sign : '#' ∉ (digits ++ "\n").toList := by
      simpa using rgb.sign
    refine ⟨digits ++ "\n", split, ⟨fun longer => ?_, fun none => ?_⟩, filter split sign⟩
    · have six := longer.six
      simp [rgb.six] at six
    · -- Were no line break given, the colour would have seven characters.
      have eight : s.text.color.toList.length = 8 := by
        simp [is, rgb.six]
      by_cases any : ∃ digits, IsRgb digits ∧ raw.draft.GivesColor ("#" ++ digits)
      · obtain ⟨digits', rgb', given⟩ := any
        simp [plain rgb' given, rgb'.six] at eight
      · have fallen := white fun digits rgb => ⟨fun given => any ⟨digits, rgb, given⟩, none digits rgb⟩
        rw [fallen] at eight
        exact absurd eight (by decide)

/-- An input that gives a colour and a text. -/
def colored (color : String) : Raw :=
  .value (.map [("watermark_color", .text color), ("watermark_text", .text "hello")])

theorem color_kept_of_mixedCase : ∃ s filters d before, sanitize (colored "#a0B1c2") false = .ok s ∧
    s.text.color = "#a0B1c2" ∧ s.pictureFilters = .ok filters ∧
    filters.filterMap VideoFilter.drawtext? = [d] ∧
    d.write = before ++ ":fontcolor=0x" ++ "a0B1c2" ++ "@" ++ d.opacity ++ ":shadowcolor=black@" ++
      d.shadowOpacity ++ ":shadowx=2:shadowy=2" := by
  obtain ⟨s, hs, content⟩ : ∃ s, sanitize (colored "#a0B1c2") false = .ok s ∧ s.text.content = "hello" :=
    ⟨_, rfl, rfl⟩
  obtain ⟨kept, -, -, written, is, -, filter⟩ := color_kept hs
  have color : s.text.color = "#a0B1c2" := kept "a0B1c2" (by decide) rfl
  obtain rfl : written = "a0B1c2" := by
    have same := congrArg String.toList (is.symm.trans color)
    exact String.toList_inj.1 (by simpa using same)
  obtain ⟨filters, d, before, built, only, -, whole⟩ := filter (by rw [content]; decide)
  exact ⟨s, filters, d, before, hs, color, built, only, whole⟩

/-- A line break behind the six digits is kept, and the filter has it between them and the opacity. -/
theorem color_ended : ∃ s d before, sanitize (colored "#a0b1c2\n") false = .ok s ∧
    s.text.color = "#a0b1c2\n" ∧ s.text.color.toList.length = 8 ∧ s.drawtext = .ok d ∧
    d.write = before ++ ":fontcolor=0x" ++ "a0b1c2\n" ++ "@" ++ d.opacity ++ ":shadowcolor=black@" ++
      d.shadowOpacity ++ ":shadowx=2:shadowy=2" := by
  obtain ⟨s, hs, color⟩ : ∃ s, sanitize (colored "#a0b1c2\n") false = .ok s ∧
      s.text.color = "#a0b1c2\n" := ⟨_, rfl, rfl⟩
  obtain ⟨d, drawn, -, -⟩ := drawtext_numeric (clean_of_sanitized hs)
  obtain ⟨before, whole⟩ := d.write_color
  have own : d.color = "a0b1c2\n" := by
    rw [(drawtext_color drawn).1, color]
    decide
  exact ⟨s, d, before, hs, color, by rw [color]; decide, drawn, own ▸ whole⟩

end Settings

end VideoExport
