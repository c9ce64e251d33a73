import VideoExport.Proofs.Graph.Fades
import VideoExport.Proofs.Graph.WellFormed
import VideoExport.Proofs.Numeric.Alike
import VideoExport.Proofs.Settings.RoundTrip

/-!
# What a command depends on

A command uses the fields of what is turned on (`Settings.uses`), and of their numbers the values only, not
whether they are integers. So settings that agree in the fields they use have the same filters, the same
graph (`FilterGraph.build_eq`) and the same command (`Command.compile_eq_of_agrees`). Hence the values of
what is turned off have no part in it (`Command.compile_by_use`), and settings that are equal by value, or
are sanitized or stored once more, have one command (`Command.compile_by_value`).
-/

set_option autoImplicit false

namespace VideoExport

open Number (bind_ok Alike)

/-! ## Percentages -/

namespace Number

variable {a b n : Number} {q : Rat}

theorem stands_hundred : ∃ f, (Number.int 100).Stands f ∧ f.mantissa ≠ 0 :=
  ⟨⟨false, 7036874417766400, -46, by decide⟩, ⟨by decide +kernel, by decide +kernel⟩, by decide⟩

/-- A percentage is divided and rounded once, of whichever kind it is. -/
theorem fraction_eq (h : n.Within 0 100) (hq : n.place? = some (0, q)) :
    ∃ s, Settings.fraction n = .ok (.real (Binary64.round (q / 100) s)) := by
  cases n with
  | int m =>
    obtain rfl : (m : Rat) = q := (Prod.mk.inj (Option.some.inj hq)).2
    obtain ⟨_, divided, x, rfl⟩ := fraction_real h
    refine ⟨false, divided.trans ?_⟩
    unfold Settings.fraction Number.div at divided
    dsimp only at divided
    split at divided
    · cases divided
    · split at divided <;> cases divided
      rfl
  | real x =>
    cases x with
    | finite x =>
      obtain rfl : x.value = q := (Prod.mk.inj (Option.some.inj hq)).2
      obtain ⟨f, hundred, nonzero⟩ := stands_hundred
      have value : (100 : Rat) = f.value := (Prod.mk.inj (Option.some.inj hundred.place)).2
      refine ⟨x.negative != f.negative, ?_⟩
      rw [value]
      exact hundred.div nonzero
    | nan => cases hq
    | infinite s => cases s <;> cases hq

theorem Alike.fraction (h : Alike a b) (ha : a.Within 0 100) (hb : b.Within 0 100) :
    ∃ x y, Settings.fraction a = .ok (.real x) ∧ Settings.fraction b = .ok (.real y) ∧
      Alike (.real x) (.real y) := by
  obtain ⟨q, hq⟩ := exists_place ha.finite
  obtain ⟨s, first⟩ := fraction_eq ha hq
  obtain ⟨t, second⟩ := fraction_eq hb (h ▸ hq)
  exact ⟨_, _, first, second, Binary64.round_place _ s t⟩

end Number

/-! ## Settings that agree -/

/-- Values that are equal, numbers by what they are worth. -/
def Value.Alike : Value → Value → Prop
  | .number a, .number b => a.Alike b
  | v, w => v = w

namespace Settings

/-- The fields that a command depends on: those of a watermark, or of the fades, only where there are any,
and nothing of a font but its size. -/
def uses (s : Settings) : Field → Bool
  | .textX | .textY | .textSize | .textColor | .textOpacity => !s.text.content.isEmpty
  | .imageX | .imageY | .imageScale | .imageOpacity => s.image.enabled
  | .fadeDuration => s.fadeEnabled
  | .textFontFamily | .textFontWeight | .textFontStyle => false
  | _ => true

/-- Settings that have values alike for all that a command depends on. -/
def Agrees (s t : Settings) : Prop := ∀ f, s.uses f = true → (s.record f).Alike (t.record f)

end Settings

/-- Contexts that are equal in what a command depends on. -/
structure RenderContext.Agrees (s : Settings) (c d : RenderContext) : Prop where
  duration : s.fadeEnabled = true → c.duration.Alike d.duration
  timestamp : s.regenerateMetadata = true → c.timestamp = d.timestamp
  imageName : s.image.enabled = true → c.imageName = d.imageName

theorem RenderContext.Agrees.refl (s : Settings) (c : RenderContext) : c.Agrees s c :=
  ⟨fun _ => .refl _, fun _ => rfl, fun _ => rfl⟩

namespace Settings

variable {s t : Settings}

/-! ## Settings that are equal, and settings once more sanitized -/

theorem agrees_of_same (h : s.same t = true) : s.Agrees t := by
  unfold same at h
  simp only [Bool.and_eq_true, beq_iff_eq] at h
  intro f _
  cases f <;> simp [record, Value.Alike, Number.alike_of_same, Alike.refl, h]

theorem InDomain.record_within {f : Field} {b : Bounds} (h : s.InDomain) (hb : f.bounds? = some b) :
    ∃ n, s.record f = .number n ∧ n.Within b.lo b.hi := by
  cases h
  cases f <;> cases hb <;> exact ⟨_, rfl, by assumption⟩

/-- An angle that is allowed is found again. -/
theorem angle_again : ∀ n ∈ ([0, 90, 180, 270] : List Int),
    (([0, 90, 180, 270] : List Int).find? fun angle =>
      (Value.finiteOr (some (.number (.int n))) 0).same (.int angle)).getD 0 = n := by
  decide +kernel

/-- Sanitized once more, with the image that they have, settings agree with what they were, although a
number may be of another kind. -/
theorem Clean.resanitize_agrees (h : s.Clean) {kept : Bool} (image : s.image.enabled = true → kept = true) :
    ∃ t, s.resanitize kept = .ok t ∧ t.InDomain ∧ s.Agrees t := by
  obtain ⟨t, ht⟩ := sanitize_record s kept
  refine ⟨t, ht, ofDraft_inDomain ht, fun f used => ?_⟩
  cases hb : f.bounds? with
  | some b =>
    obtain ⟨n, held, within⟩ := h.domain.record_within hb
    rw [ofDraft_record ht hb, held, Draft.number_eq hb]
    show n.Alike <| b.admit (s.record.draft.value? f)
    rw [Record.value?_draft, held, Bounds.admit_number within.finite]
    exact Number.alike_of_same (within.clamp_same (Field.bounds_sound hb).range)
  | none =>
    obtain ⟨content, hcontent, ht⟩ := bind_ok ht
    obtain ⟨family, -, ht⟩ := bind_ok ht
    cases ht
    cases f
    case flipHorizontal | fadeEnabled | regenerateMetadata => rfl
    case rotation =>
      exact congrArg (fun n : Int => (Number.int n).place?) (angle_again _ h.domain.rotation).symm
    case textContent => exact congrArg Value.text (Except.ok.inj hcontent)
    case textColor => exact congrArg Value.text (if_pos h.color).symm
    case imageEnabled =>
      refine congrArg Value.bool ?_
      show s.image.enabled = (kept && s.image.enabled)
      cases enabled : s.image.enabled with
      | false => exact (Bool.and_false kept).symm
      | true => rw [image enabled, Bool.and_true]
    case textFontFamily | textFontStyle => cases used
    all_goals cases hb

/-! ## Filters that agree -/

theorem Agrees.colorFilter_eq (h : s.Agrees t) : s.colorFilter = t.colorFilter := by
  have brightness : Alike s.brightness t.brightness := h .brightness rfl
  have contrast : Alike s.contrast t.contrast := h .contrast rfl
  have saturation : Alike s.saturation t.saturation := h .saturation rfl
  unfold colorFilter
  rw [brightness.compact_eq, contrast.compact_eq, saturation.compact_eq]

theorem Agrees.turnFilters_eq (h : s.Agrees t) : s.turnFilters = t.turnFilters := by
  have angle : (Number.int s.rotation).Alike (.int t.rotation) := h .rotation rfl
  have rotation : s.rotation = t.rotation := Rat.intCast_inj.1 (Prod.mk.inj (Option.some.inj angle)).2
  unfold turnFilters
  rw [rotation]

/-- A crop takes place for numbers of binary64 only, as no integer but zero is in the range. -/
theorem InDomain.smartCrop_real (h : s.InDomain) (cropped : s.smartCrop.le 0 = false) :
    ∃ x, s.smartCrop = .real x := by
  have within := h.smartCrop
  generalize s.smartCrop = n at within cropped
  cases n with
  | real x => exact ⟨x, rfl⟩
  | int m =>
    obtain ⟨least, largest⟩ := within.int_between (k := 0) (l := 1) (by decide +kernel) (by decide +kernel)
    obtain rfl | rfl : m = 0 ∨ m = 1 := by omega
    · cases cropped.symm.trans (by decide +kernel : (Number.int 0).le 0 = true)
    · exact absurd within.below (by decide +kernel)

theorem Agrees.cropFilters_eq (h : s.Agrees t) (hs : s.InDomain) (ht : t.InDomain) :
    s.cropFilters = t.cropFilters := by
  have crop : Alike s.smartCrop t.smartCrop := h .smartCrop rfl
  have asked := crop.le_eq (.refl 0)
  unfold cropFilters
  cases none : s.smartCrop.le 0 with
  | true =>
    rw [← asked, none]
    rfl
  | false =>
    obtain ⟨x, hx⟩ := hs.smartCrop_real none
    obtain ⟨y, hy⟩ := ht.smartCrop_real (asked ▸ none)
    rw [hx, hy] at crop
    rcases crop.real_eq with rfl | zero
    · rw [hy, ← hx, none]
    · rw [hx, (Number.le_iff (b := 0) zero rfl).2 le_rfl] at none
      cases none

theorem Agrees.noiseFilter_eq (h : s.Agrees t) : s.noiseFilter = t.noiseFilter := by
  have grain : Alike s.filmGrain t.filmGrain := h .filmGrain rfl
  unfold noiseFilter
  rw [(grain.clamp 0 100).compact_eq]

theorem Agrees.speedFilter_eq (h : s.Agrees t) : s.speedFilter = t.speedFilter := by
  have rate : Alike s.playbackRate t.playbackRate := h .playbackRate rfl
  unfold speedFilter
  rw [rate.compact_eq]

theorem Agrees.content_eq (h : s.Agrees t) : s.text.content = t.text.content :=
  Value.text.inj (h .textContent rfl)

/-- What is added to the opacity of a text for that of its shadow. -/
theorem boost_finite : ∃ z : Binary64.Finite, Number.decimal 2 1 = .real (.finite z) ∧ z.negative = false :=
  ⟨⟨false, 7205759403792794, -55, by decide⟩, by decide +kernel, rfl⟩

theorem Agrees.drawtext_eq (h : s.Agrees t) (hs : s.InDomain) (ht : t.InDomain)
    (drawn : s.text.content.isEmpty = false) : s.drawtext = t.drawtext := by
  have used : (!s.text.content.isEmpty) = true := by rw [drawn]; rfl
  have x : Alike s.text.x t.text.x := h .textX used
  have y : Alike s.text.y t.text.y := h .textY used
  have size : Alike s.text.size t.text.size := h .textSize used
  have opacity : Alike s.text.opacity t.text.opacity := h .textOpacity used
  have color : s.text.color = t.text.color := Value.text.inj (h .textColor used)
  have range : Number.IsRange 0 100 := (Field.bounds_sound (f := .textOpacity) rfl).range
  obtain ⟨_, _, x_s, x_t, x⟩ := x.fraction hs.textX ht.textX
  obtain ⟨_, _, y_s, y_t, y⟩ := y.fraction hs.textY ht.textY
  obtain ⟨_, _, opacity_s, opacity_t, opacity⟩ := (opacity.clamp 0 100).fraction
    (Number.clamp_within range hs.textOpacity.finite) (Number.clamp_within range ht.textOpacity.finite)
  obtain ⟨z, boost, sign⟩ := boost_finite
  unfold drawtext
  rw [x_s, x_t, y_s, y_t, opacity_s, opacity_t, size.compact_eq, color, h.content_eq, boost]
  dsimp only [bind, Except.bind]
  rw [x.compact_eq, y.compact_eq, opacity.compact_eq, opacity.add_eq sign]

theorem Agrees.textFilter_eq (h : s.Agrees t) (hs : s.InDomain) (ht : t.InDomain) :
    whenever (!s.text.content.isEmpty) s.textFilter = whenever (!t.text.content.isEmpty) t.textFilter := by
  rw [← h.content_eq]
  cases drawn : s.text.content.isEmpty with
  | true => rfl
  | false =>
    unfold textFilter
    rw [h.drawtext_eq hs ht drawn]

theorem Agrees.pictureFilters_eq (h : s.Agrees t) (hs : s.InDomain) (ht : t.InDomain) :
    s.pictureFilters = t.pictureFilters := by
  have grain : Alike s.filmGrain t.filmGrain := h .filmGrain rfl
  have rate : Alike s.playbackRate t.playbackRate := h .playbackRate rfl
  have flip : s.flipHorizontal = t.flipHorizontal := Value.bool.inj (h .flipHorizontal rfl)
  unfold pictureFilters
  rw [h.colorFilter_eq, h.cropFilters_eq hs ht, h.noiseFilter_eq, h.textFilter_eq hs ht,
    h.speedFilter_eq, h.turnFilters_eq, flip, Alike.lt_eq (.refl 0) grain, rate.same_eq (.refl 1)]

/-! ## Fades and sound that agree -/

theorem Agrees.fadeFilters_eq (h : s.Agrees t) (hs : s.InDomain) (ht : t.InDomain)
    {x y : Binary64} (length : s.fadeEnabled = true → Alike (.real x) (.real y)) :
    s.fadeFilters (.real x) = t.fadeFilters (.real y) := by
  have switch : s.fadeEnabled = t.fadeEnabled := Value.bool.inj (h .fadeEnabled rfl)
  have rate : Alike s.playbackRate t.playbackRate := h .playbackRate rfl
  unfold fadeFilters
  rw [← switch, hs.fadeDuration.le_zero (by decide +kernel), ht.fadeDuration.le_zero (by decide +kernel)]
  cases enabled : s.fadeEnabled with
  | false => rfl
  | true =>
    have range : Number.IsRange (.decimal 1 1) (.decimal 20 1) :=
      (Field.bounds_sound (f := .fadeDuration) rfl).range
    have fade : Alike (s.fadeDuration.clamp (.decimal 1 1) (.decimal 20 1))
      (t.fadeDuration.clamp (.decimal 1 1) (.decimal 20 1)) := (h .fadeDuration enabled).clamp _ _
    have within := Number.clamp_within range hs.fadeDuration.finite
    have length := length enabled
    dsimp only
    rw [fade.compact_eq, Alike.lt_eq (.refl 0) length]
    cases known : Number.lt 0 (.real y) with
    | false => rfl
    | true =>
      rcases length.symm.real_eq with rfl | zero
      · have fades_real := fade.toReal_eq within.finite (within.positive (by decide +kernel))
        have rates_real : (if s.playbackRate.isZero then 1 else s.playbackRate).toReal =
            (if t.playbackRate.isZero then 1 else t.playbackRate).toReal := by
          have zeros : s.playbackRate.isZero = t.playbackRate.isZero := rate.same_eq (.refl _)
          rw [zeros]
          split
          · rfl
          · exact rate.toReal_eq hs.playbackRate.finite (hs.playbackRate.positive (by decide +kernel))
        obtain ⟨_, divided, z, rfl⟩ := Number.div_of_divisor y (rate_isDivisor ht)
        rw [Number.div_real_eq y rates_real, divided]
        dsimp only [bind, Except.bind]
        rw [Number.sub_real_eq z fades_real]
      · exact absurd ((Number.lt_iff (a := 0) rfl zero).1 known) (lt_irrefl _)

/-- A speed in its range is its only tempo factor. -/
theorem InDomain.tempoFactors_eq (h : s.InDomain) : tempoFactors s.playbackRate = .ok [s.playbackRate] := by
  have rate := h.playbackRate
  have fast : (Number.real .two).lt s.playbackRate = false := by
    rw [Bool.eq_false_iff]
    exact fun above => absurd (Number.le_trans (Number.le_of_lt above) rate.below) (by decide +kernel)
  have slow : s.playbackRate.lt (.real .half) = false := by
    rw [Bool.eq_false_iff]
    exact fun below => absurd (Number.le_trans rate.above (Number.le_of_lt below)) (by decide +kernel)
  unfold tempoFactors
  rw [rate.le_zero (by decide +kernel), fast, slow]
  rfl

theorem Agrees.tempoFilters_eq (h : s.Agrees t) (hs : s.InDomain) (ht : t.InDomain) :
    s.tempoFilters = t.tempoFilters := by
  have rate : Alike s.playbackRate t.playbackRate := h .playbackRate rfl
  unfold tempoFilters
  rw [hs.tempoFactors_eq, ht.tempoFactors_eq, rate.same_eq (.refl 1)]
  dsimp only [bind, Except.bind]
  rw [List.mapM_cons, List.mapM_cons, rate.compact_eq]

end Settings

/-! ## Graphs that agree -/

variable {s t : Settings} {c d : RenderContext}

theorem Overlay.ofSettings_eq (h : s.Agrees t) (hs : s.InDomain) (ht : t.InDomain)
    (enabled : s.image.enabled = true) : ofSettings s = ofSettings t := by
  have x : Alike s.image.x t.image.x := h .imageX enabled
  have y : Alike s.image.y t.image.y := h .imageY enabled
  have scale : Alike s.image.scale t.image.scale := h .imageScale enabled
  have opacity : Alike s.image.opacity t.image.opacity := h .imageOpacity enabled
  have range : Number.IsRange 0 100 := (Field.bounds_sound (f := .imageOpacity) rfl).range
  obtain ⟨_, _, x_s, x_t, x⟩ := x.fraction hs.imageX ht.imageX
  obtain ⟨_, _, y_s, y_t, y⟩ := y.fraction hs.imageY ht.imageY
  obtain ⟨_, _, opacity_s, opacity_t, opacity⟩ := (opacity.clamp 0 100).fraction
    (Number.clamp_within range hs.imageOpacity.finite) (Number.clamp_within range ht.imageOpacity.finite)
  unfold ofSettings
  rw [x_s, x_t, y_s, y_t, opacity_s, opacity_t, (scale.clamp _ _).compact_eq]
  dsimp only [bind, Except.bind]
  rw [x.compact_eq, y.compact_eq, opacity.compact_eq]

namespace FilterGraph

theorem imageInput?_eq (h : s.Agrees t) (contexts : c.Agrees s d) :
    imageInput? s c = imageInput? t d := by
  have switch : s.image.enabled = t.image.enabled := Value.bool.inj (h .imageEnabled rfl)
  unfold imageInput?
  rw [← switch]
  split
  · rename_i enabled
    rw [contexts.imageName enabled]
  · rfl

theorem build_eq (inputName : String) (h : s.Agrees t) (hs : s.InDomain) (ht : t.InDomain)
    (contexts : c.Agrees s d) {x y : Binary64} (hx : c.duration = .real x) (hy : d.duration = .real y) :
    build inputName s c = build inputName t d := by
  have fades : s.fadeFilters c.duration = t.fadeFilters d.duration := by
    rw [hx, hy]
    exact h.fadeFilters_eq hs ht fun enabled => hx ▸ hy ▸ contexts.duration enabled
  have image := imageInput?_eq h contexts
  unfold build
  rw [h.pictureFilters_eq hs ht, fades, h.tempoFilters_eq hs ht, ← image]
  cases named : imageInput? s c with
  | none => rfl
  | some name =>
    have enabled : s.image.enabled = true := by
      unfold imageInput? at named
      split at named
      · assumption
      · cases named
    rw [Overlay.ofSettings_eq h hs ht enabled]

end FilterGraph

/-! ## Commands that agree -/

namespace Command

/-- A command is determined by the fields that it uses, by the values of their numbers, and by what it uses
of the context; so is what the log shows of it. -/
theorem compile_eq_of_agrees (inputName outputName : String) (h : s.Agrees t) (hs : s.InDomain)
    (ht : t.InDomain) (contexts : c.Agrees s d) {x y : Binary64} (hx : c.duration = .real x)
    (hy : d.duration = .real y) :
    compile inputName outputName s c = compile inputName outputName t d := by
  have regenerate : s.regenerateMetadata = t.regenerateMetadata :=
    Value.bool.inj (h .regenerateMetadata rfl)
  have needed : needsTime s c = needsTime t d := by
    unfold needsTime
    rw [← regenerate]
    cases time : s.regenerateMetadata with
    | false => rfl
    | true => rw [contexts.timestamp time]
  have written (now : String) : timestamp s c now = timestamp t d now := by
    unfold timestamp
    rw [← regenerate]
    cases time : s.regenerateMetadata with
    | false => rfl
    | true => rw [contexts.timestamp time]
  unfold compile buildGraph renderGraph
  rw [FilterGraph.build_eq inputName h hs ht contexts hx hy, needed]
  simp only [written]

variable {x y : Binary64.Finite} {raw raw' : Raw} {hasImage hasImage' : Bool}

/-- Two renderings have the same command, whatever the names and the host, and the same log of it; they have
one, unless the time is needed and the calendar does not have it. -/
def Same (s t : Settings) (c d : RenderContext) : Prop :=
  ∀ (inputName outputName : String) (host : Host),
    (compile inputName outputName s c).run host = (compile inputName outputName t d).run host ∧
    ((needsTime s c = true → host.now.isDated = true) → ∃ arguments,
      ((compile inputName outputName s c).run host).1 = .returned arguments ∧
      ((compile inputName outputName t d).run host).1 = .returned arguments)

theorem same_of_agrees (h : s.Agrees t) (hs : s.Clean) (ht : t.InDomain) (contexts : c.Agrees s d)
    (hx : c.duration = .real (.finite x)) (hy : d.duration = .real (.finite y)) : Same s t c d := by
  intro inputName outputName host
  have same := compile_eq_of_agrees inputName outputName h hs.domain ht contexts hx hy
  refine ⟨by rw [same], fun clock => ?_⟩
  obtain ⟨_, _, g, -, -, built, -⟩ := FilterGraph.build_assembled inputName hs hx
  obtain ⟨time, run⟩ := compile_run outputName built clock
  exact ⟨_, run, same ▸ run⟩

/-- Whatever is turned off has no part in the command: settings that agree in the fields that they use have
the same command, for contexts that agree in what is used of them. -/
theorem compile_by_use (hs : Settings.sanitize raw hasImage = .ok s)
    (ht : Settings.sanitize raw' hasImage' = .ok t) (agree : s.Agrees t) (contexts : c.Agrees s d)
    (hx : c.duration = .real (.finite x)) (hy : d.duration = .real (.finite y)) : Same s t c d :=
  same_of_agrees agree (Settings.clean_of_sanitized hs) (Settings.ofDraft_inDomain ht) contexts hx hy

/-- Entries that turn nothing on, not even the metadata. -/
def plainEntries : Raw := .value (.map [("regenerate_metadata", .bool false)])

/-- The same, with values for what is turned off. -/
def idleEntries : Raw := .value (.map [("regenerate_metadata", .bool false), ("watermark_x", .number 80),
  ("watermark_size", .number 60), ("watermark_color", .text "#102030"), ("watermark_opacity", .number 10),
  ("watermark_font_family", .text "Serif"), ("watermark_font_weight", .number 300),
  ("watermark_font_style", .text "italic"), ("watermark_image_x", .number 70),
  ("watermark_image_scale", .number 1), ("watermark_image_opacity", .number 20),
  ("fade_duration", .number 1)])

/-- A source of twenty seconds, with a time for it. -/
def datedContext : RenderContext where
  duration := .real (.finite ⟨false, 5629499534213120, -48, by decide⟩)
  timestamp := "2024-01-01T00:00:00Z"

theorem idle_values_unused : ∃ s t, Settings.sanitize plainEntries false = .ok s ∧
    Settings.sanitize idleEntries true = .ok t ∧ s.text.color ≠ t.text.color ∧
    s.image.opacity ≠ t.image.opacity ∧ s.fadeDuration ≠ t.fadeDuration ∧
    imageContext.imageName ≠ datedContext.imageName ∧ Same s t imageContext datedContext := by
  obtain ⟨s, t, hs, ht, color, opacity, fade, agree, contexts⟩ : ∃ s t,
      Settings.sanitize plainEntries false = .ok s ∧ Settings.sanitize idleEntries true = .ok t ∧
      s.text.color ≠ t.text.color ∧ s.image.opacity ≠ t.image.opacity ∧
      s.fadeDuration ≠ t.fadeDuration ∧ s.Agrees t ∧ imageContext.Agrees s datedContext := by
    refine ⟨_, _, rfl, rfl, by decide +kernel, by decide +kernel, by decide +kernel, fun f used => ?_,
      nofun, nofun, nofun⟩
    cases f <;> first | rfl | cases used
  exact ⟨s, t, hs, ht, color, opacity, fade, by decide, compile_by_use hs ht agree contexts rfl rfl⟩

/-- Settings of the domain have the command of what they are sanitized to, with the image that they have. -/
theorem same_resanitized (hs : s.Clean) (hx : c.duration = .real (.finite x)) {kept : Bool}
    (image : s.image.enabled = true → kept = true) :
    ∃ t, s.resanitize kept = .ok t ∧ Same s t c c := by
  obtain ⟨t, again, domain, agree⟩ := hs.resanitize_agrees image
  exact ⟨t, again, same_of_agrees agree hs domain (.refl s c) hx hx⟩

/-- Settings that are equal, their numbers by value, have the same command. So have settings and what they
are sanitized to once more, or what is read of the document that is written of them, with the image that they
have. -/
theorem compile_by_value (sanitized : Settings.sanitize raw hasImage = .ok s)
    (hx : c.duration = .real (.finite x)) :
    (∀ raw' hasImage' t, Settings.sanitize raw' hasImage' = .ok t → s.same t = true → Same s t c c) ∧
    ∀ kept, (s.image.enabled = true → kept = true) →
      (∃ t, s.resanitize kept = .ok t ∧ Same s t c c) ∧
      ∀ options, (∀ o ∈ options, o.1 ∈ Json.Layout.layoutOptions) →
        Json.Layout.BlankIndent (((Value.map options).get? "indent").getD .null) →
        ∃ layout text t, Json.Layout.ofOptions (.map options) = .ok layout ∧ s.write layout = .ok text ∧
          Settings.read (.text text) kept = .ok t ∧ Same s t c c := by
  have clean := Settings.clean_of_sanitized sanitized
  refine ⟨fun raw' hasImage' t again same => ?_, fun kept image => ?_⟩
  · exact same_of_agrees (Settings.agrees_of_same same) clean (Settings.ofDraft_inDomain again)
      (.refl s c) hx hx
  · obtain ⟨t, again, same⟩ := same_resanitized clean hx image
    refine ⟨⟨t, again, same⟩, fun options names indent => ?_⟩
    obtain ⟨layout, asked, readable⟩ := Json.Layout.ofOptions_readable names indent
    obtain ⟨text, written, read⟩ := Settings.ofDraft_rewritten sanitized readable
    exact ⟨layout, text, t, asked, written, read kept t again, same⟩

/-- Entries with integers. -/
def integerEntries : Raw := .value (.map [("brightness", .number 0), ("saturation", .number 2),
  ("watermark_text", .text "text"), ("watermark_x", .number 50)])

/-- The same values in binary64, one of them the negative zero. -/
def realEntries : Raw := .value (.map [("brightness", .number (.real (.zero true))),
  ("saturation", .number (.decimal 20 1)), ("watermark_text", .text "text"),
  ("watermark_x", .number (.decimal 500 1))])

theorem kinds_same_command : ∃ s t, Settings.sanitize integerEntries false = .ok s ∧
    Settings.sanitize realEntries false = .ok t ∧ s ≠ t ∧ s.same t = true ∧
    Same s t imageContext imageContext ∧
    ∃ layout text u, Json.Layout.ofOptions (.map [("indent", .number 2)]) = .ok layout ∧
      t.write layout = .ok text ∧ Settings.read (.text text) true = .ok u ∧
      Same t u imageContext imageContext := by
  obtain ⟨s, t, hs, ht, differ, same, off⟩ : ∃ s t, Settings.sanitize integerEntries false = .ok s ∧
      Settings.sanitize realEntries false = .ok t ∧ s ≠ t ∧ s.same t = true ∧
      t.image.enabled = false :=
    ⟨_, _, rfl, rfl, by decide +kernel, by decide +kernel, rfl⟩
  obtain ⟨equal, -⟩ := compile_by_value hs (c := imageContext) rfl
  obtain ⟨-, stored⟩ := compile_by_value ht (c := imageContext) rfl
  obtain ⟨-, stored⟩ := stored true fun on => absurd on (Bool.eq_false_iff.1 off)
  exact ⟨s, t, hs, ht, differ, same, equal _ _ t ht same,
    stored [("indent", .number 2)] (by decide) ⟨by decide, by decide⟩⟩

end Command

end VideoExport
