import VideoExport.Proofs.Number
import VideoExport.Proofs.Settings

/-!
# The domain of sanitized settings

Sanitizing lands in the documented ranges (`Settings.InDomain`), keeps what lies in them, and takes the
nearer bound or the default for what does not (`Field.Keeps`). What it gave, it gives again
(`Settings.sanitize_sound`).
-/

set_option autoImplicit false

namespace VideoExport

open Number (bind_ok)

variable {raw : Raw} {hasImage : Bool} {s : Settings} {d : Draft} {f : Field} {b : Bounds}

/-! ## Numbers in their ranges -/

/-- A range, and a default that it holds. -/
structure Bounds.Sound (b : Bounds) : Prop where
  range : Number.IsRange b.lo b.hi
  finite : b.fallback.isFinite = true
  default : b.fallback.clamp b.lo b.hi = b.fallback

theorem Field.bounds_sound (h : f.bounds? = some b) : b.Sound := by
  cases f <;> cases h <;> exact ⟨⟨by decide +kernel, by decide +kernel, by decide +kernel⟩,
    by decide +kernel, by decide +kernel⟩

theorem Field.bounds_default (h : f.bounds? = some b) :
    Settings.default.record f = .number b.fallback := by
  cases f <;> cases h <;> rfl

/-- A value that is no finite number: none at all, one of another kind, `nan`, an infinity, or an integer
beyond the binary64 range. -/
def Value.NoFinite (given : Option Value) : Prop := ∀ n, given = some (.number n) → n.isFinite = false

theorem Value.finiteOr_of_noFinite {given : Option Value} (h : NoFinite given) (fallback : Number) :
    finiteOr given fallback = fallback := by
  unfold finiteOr
  split
  · rename_i n
    rw [if_neg (by rw [h n rfl]; decide)]
  · rfl

theorem Bounds.admit_number {n : Number} (h : n.isFinite = true) (b : Bounds) :
    b.admit (some (.number n)) = n.clamp b.lo b.hi :=
  congrArg (Number.clamp · b.lo b.hi) (if_pos h)

theorem Value.finiteOr_finite (given : Option Value) {fallback : Number}
    (h : fallback.isFinite = true) : (finiteOr given fallback).isFinite = true := by
  unfold finiteOr
  split
  · split
    · assumption
    · exact h
  · exact h

section
variable {given : Option Value} {m : Number}

theorem Bounds.Sound.within (h : b.Sound) (hm : b.admit given = m) : m.Within b.lo b.hi :=
  hm ▸ Number.clamp_within h.range (Value.finiteOr_finite given h.finite)

theorem Bounds.Sound.again (h : b.Sound) (hm : b.admit given = m) :
    b.admit (some (.number m)) = m := by
  rw [Bounds.admit_number (h.within hm).finite, ← hm]
  exact Number.clamp_clamp h.range (Value.finiteOr_finite given h.finite)

end

/-- What a field with a range holds in place of what it was given. -/
structure Bounds.Keeps (b : Bounds) (given : Option Value) (fallback held : Value) : Prop where
  kept : ∀ n, given = some (.number n) → n.Within b.lo b.hi →
    ∃ m, held = .number m ∧ n.same m = true
  raised : ∀ n, given = some (.number n) → n.isFinite = true → n.lt b.lo = true →
    held = .number b.lo
  lowered : ∀ n, given = some (.number n) → n.isFinite = true → b.hi.lt n = true →
    held = .number b.hi
  replaced : Value.NoFinite given → held = fallback

theorem Bounds.Sound.keeps (h : b.Sound) {given : Option Value} {m : Number}
    (hm : b.admit given = m) : b.Keeps given (.number b.fallback) (.number m) := by
  subst hm
  constructor
  case kept =>
    rintro n rfl within
    rw [Bounds.admit_number within.finite]
    exact ⟨_, rfl, within.clamp_same h.range⟩
  case raised =>
    rintro n rfl finite below
    rw [Bounds.admit_number finite, Number.clamp_below h.range finite (Number.le_of_lt below)]
  case lowered =>
    rintro n rfl finite above
    rw [Bounds.admit_number finite, Number.clamp_above h.range finite (Number.le_of_lt above)]
  case replaced =>
    intro none
    unfold Bounds.admit
    rw [Value.finiteOr_of_noFinite none, h.default]

/-! ## Fields of sanitized settings -/

theorem Draft.number_eq (h : f.bounds? = some b) : d.number f = b.admit (d.value? f) := by
  unfold number
  rw [h]

/-- A number that a record holds because a draft was sanitized is the number sanitized once more. -/
theorem Record.number_draft {r : Record} (h : r f = .number (d.number f)) :
    r.draft.number f = d.number f := by
  cases hb : f.bounds? with
  | none =>
    unfold Draft.number
    rw [hb]
  | some b =>
    rw [Draft.number_eq hb, Record.value?_draft, h]
    exact (Field.bounds_sound hb).again (Draft.number_eq hb).symm

theorem Draft.rotation_mem (d : Draft) : d.rotation ∈ ([0, 90, 180, 270] : List Int) := by
  unfold rotation
  dsimp only
  cases found : ([0, 90, 180, 270] : List Int).find? _ with
  | none => exact .head _
  | some angle => exact List.mem_of_find?_eq_some found

theorem Record.rotation_draft {r : Record} (h : r .rotation = .number (.int d.rotation)) :
    r.draft.rotation = d.rotation := by
  have again : ∀ angle ∈ ([0, 90, 180, 270] : List Int),
      (([0, 90, 180, 270] : List Int).find? fun a =>
        (Value.finiteOr (some (.number (.int angle))) 0).same (.int a)).getD 0 = angle := by
    decide +kernel
  show (_ : Option Int).getD 0 = _
  rw [Record.value?_draft, h]
  exact again _ d.rotation_mem

theorem Draft.isColor_color (d : Draft) : isColor d.color = true := by
  unfold color
  split
  · split
    · assumption
    · decide
  · decide

theorem Record.color_draft {r : Record} (h : r .textColor = .text d.color) :
    r.draft.color = d.color := by
  have again := d.isColor_color
  unfold Draft.color
  rw [Record.value?_draft, h]
  exact if_pos again

theorem Draft.number_within (h : f.bounds? = some b) (d : Draft) :
    (d.number f).Within b.lo b.hi :=
  (Field.bounds_sound h).within (number_eq h).symm

/-! ## The domain -/

namespace Settings

/-- All numbers in their ranges, and the angle a multiple of a quarter turn. -/
structure InDomain (s : Settings) : Prop where
  brightness : s.brightness.Within (.int (-1)) 1
  contrast : s.contrast.Within 0 2
  saturation : s.saturation.Within 0 3
  smartCrop : s.smartCrop.Within 0 (.decimal 2 1)
  rotation : s.rotation ∈ ([0, 90, 180, 270] : List Int)
  filmGrain : s.filmGrain.Within 0 100
  fadeDuration : s.fadeDuration.Within (.decimal 1 1) (.decimal 20 1)
  textX : s.text.x.Within 0 100
  textY : s.text.y.Within 0 100
  textSize : s.text.size.Within 8 200
  textFontWeight : s.text.fontWeight.Within 100 900
  textOpacity : s.text.opacity.Within 0 100
  imageX : s.image.x.Within 0 100
  imageY : s.image.y.Within 0 100
  imageScale : s.image.scale.Within (.decimal 5 2) (.decimal 20 1)
  imageOpacity : s.image.opacity.Within 0 100
  playbackRate : s.playbackRate.Within (.decimal 95 2) (.decimal 105 2)

theorem InDomain.same_self (h : s.InDomain) : s.same s = true := by
  unfold same
  simp only [Number.same_self h.brightness.finite, Number.same_self h.contrast.finite,
    Number.same_self h.saturation.finite, Number.same_self h.smartCrop.finite,
    Number.same_self h.filmGrain.finite, Number.same_self h.fadeDuration.finite,
    Number.same_self h.textX.finite, Number.same_self h.textY.finite,
    Number.same_self h.textSize.finite, Number.same_self h.textFontWeight.finite,
    Number.same_self h.textOpacity.finite, Number.same_self h.imageX.finite,
    Number.same_self h.imageY.finite, Number.same_self h.imageScale.finite,
    Number.same_self h.imageOpacity.finite, Number.same_self h.playbackRate.finite,
    beq_self_eq_true, Bool.and_self]

theorem ofDraft_inDomain (h : ofDraft d hasImage = .ok s) : s.InDomain := by
  obtain ⟨content, -, h⟩ := bind_ok h
  obtain ⟨family, -, h⟩ := bind_ok h
  cases h
  have within (f : Field) {b : Bounds} (h : f.bounds? = some b) : (d.number f).Within b.lo b.hi :=
    Draft.number_within h d
  exact
    { brightness := within .brightness rfl
      contrast := within .contrast rfl
      saturation := within .saturation rfl
      smartCrop := within .smartCrop rfl
      rotation := d.rotation_mem
      filmGrain := within .filmGrain rfl
      fadeDuration := within .fadeDuration rfl
      textX := within .textX rfl
      textY := within .textY rfl
      textSize := within .textSize rfl
      textFontWeight := within .textFontWeight rfl
      textOpacity := within .textOpacity rfl
      imageX := within .imageX rfl
      imageY := within .imageY rfl
      imageScale := within .imageScale rfl
      imageOpacity := within .imageOpacity rfl
      playbackRate := within .playbackRate rfl }

/-- A field with a range holds the number of the draft. -/
theorem ofDraft_record (h : ofDraft d hasImage = .ok s) (hb : f.bounds? = some b) :
    s.record f = .number (d.number f) := by
  obtain ⟨content, -, h⟩ := bind_ok h
  obtain ⟨family, -, h⟩ := bind_ok h
  cases h
  cases f <;> first | rfl | cases hb

theorem ofDraft_others (h : ofDraft d hasImage = .ok s) : s.rotation = d.rotation ∧
    s.text.color = d.color ∧ s.image.enabled = (hasImage && d.switch .imageEnabled false) := by
  obtain ⟨content, -, h⟩ := bind_ok h
  obtain ⟨family, -, h⟩ := bind_ok h
  cases h
  exact ⟨rfl, rfl, rfl⟩

/-- What a draft was sanitized to stays as it is. -/
theorem ofDraft_again (h : ofDraft d hasImage = .ok s) : s.resanitize hasImage = .ok s := by
  obtain ⟨s', hs'⟩ := sanitize_record s hasImage
  refine hs'.trans (congrArg _ ?_)
  have number (f : Field) {b : Bounds} {n : Number} (hb : f.bounds? = some b)
      (hn : s.record f = .number n) : s.record.draft.number f = n := by
    have held := ofDraft_record h hb
    rw [Record.number_draft held]
    exact Value.number.inj (held.symm.trans hn)
  obtain ⟨rotation, color, enabled⟩ := ofDraft_others h
  have rotation : s.record.draft.rotation = s.rotation := by
    rw [Record.rotation_draft (congrArg (fun n => Value.number (.int n)) rotation), rotation]
  have style : s.record.draft.fontStyle = s.text.fontStyle := by
    have again : ∀ style : FontStyle,
        (if style.name = "italic" then FontStyle.italic else .normal) = style := by
      intro style
      cases style <;> rfl
    exact again _
  have color : s.record.draft.color = s.text.color := by
    rw [Record.color_draft (congrArg Value.text color), color]
  have enabled : (hasImage && s.record.draft.switch .imageEnabled false) = s.image.enabled := by
    show (hasImage && s.image.enabled) = _
    rw [enabled, ← Bool.and_assoc, Bool.and_self]
  unfold sanitize Raw.draft at hs'
  cases hs'
  simp only [rotation, style, color, enabled, number .brightness rfl rfl, number .contrast rfl rfl,
    number .saturation rfl rfl, number .smartCrop rfl rfl, number .filmGrain rfl rfl,
    number .fadeDuration rfl rfl, number .textX rfl rfl, number .textY rfl rfl,
    number .textSize rfl rfl, number .textFontWeight rfl rfl, number .textOpacity rfl rfl,
    number .imageX rfl rfl, number .imageY rfl rfl, number .imageScale rfl rfl,
    number .imageOpacity rfl rfl, number .playbackRate rfl rfl]
  rfl

/-- Sanitizing lands in the domain, and what it gave it gives again. A finite number that lies in the
range of its field keeps its value, one beyond a bound becomes the bound, and for anything else there is
the default. -/
theorem sanitize_sound (h : sanitize raw hasImage = .ok s) :
    s.resanitize hasImage = .ok s ∧ s.same s = true ∧ s.InDomain ∧
      (∀ (f : Field) (b : Bounds), f.bounds? = some b →
        b.Keeps (raw.draft.value? f) (Settings.default.record f) (s.record f)) ∧
      (hasImage = false → s.image.enabled = false) := by
  have domain := ofDraft_inDomain h
  refine ⟨ofDraft_again h, domain.same_self, domain, fun f b hb => ?_, ?_⟩
  · rw [ofDraft_record h hb, Field.bounds_default hb]
    exact (Field.bounds_sound hb).keeps (Draft.number_eq hb).symm
  · rintro rfl
    obtain ⟨-, -, enabled⟩ := ofDraft_others h
    exact enabled

/-- Entries of which only one is as its field wants it. -/
def mixedEntries : Raw := .value (.map [("brightness", .number 5), ("contrast", .number (.decimal 15 1)),
  ("saturation", .text "high"), ("rotation", .number 450), ("watermark_image_enabled", .bool true)])

theorem sanitize_sound_of_mixedEntries : ∃ s, sanitize mixedEntries false = .ok s ∧
    s.resanitize false = .ok s ∧ s.InDomain ∧ s.brightness = 1 ∧ (Number.decimal 15 1).same s.contrast ∧
    s.saturation = 1 ∧ s.image.enabled = false := by
  obtain ⟨s, h⟩ : ∃ s, sanitize mixedEntries false = .ok s := ⟨_, rfl⟩
  obtain ⟨again, -, domain, keeps, off⟩ := sanitize_sound h
  refine ⟨s, h, again, domain, ?_, ?_, ?_, off rfl⟩
  · have lowered := (keeps .brightness _ rfl).lowered 5 rfl (by decide +kernel) (by decide +kernel)
    exact Value.number.inj lowered
  · obtain ⟨m, held, same⟩ := (keeps .contrast _ rfl).kept (.decimal 15 1) rfl
      ⟨by decide +kernel, by decide +kernel, by decide +kernel⟩
    rw [Value.number.inj held]
    exact same
  · exact Value.number.inj ((keeps .saturation _ rfl).replaced (fun _ => nofun))

/-- An integer beyond the binary64 range. -/
def farInteger : Number := .int (.ofNat (Nat.pow 10 400))

/-- An integer beyond the binary64 range lies above the upper bound, and what stands in for it is the
default. -/
theorem oversized_integer_replaced : (1 : Number).lt farInteger = true ∧
    ∃ s, sanitize (.value (.map [("brightness", .number farInteger)])) false = .ok s ∧
      s.brightness = 0 ∧ s.brightness ≠ 1 := by
  refine ⟨by decide +kernel, _, rfl, ?_, ?_⟩ <;> decide +kernel

end Settings

end VideoExport
