import VideoExport.Proofs.Graph.WellFormed

/-!
# The order of the stages

A filter's text tells the stage that it is (`Stage.ofText?`). The video of sanitized settings has the stages
that the settings ask for, in one order and no others; its turns make up the angle of the settings, its crop
is scaled back by the numeral that it kept, and an image is laid over this same video
(`FilterGraph.build_staged`).
-/

set_option autoImplicit false

namespace VideoExport

open Number (bind_ok)

/-- What a filter is there for. -/
inductive Stage where
  | color
  | flip
  | turn (t : QuarterTurn)
  | crop
  | restore
  | grain
  | text
  | speed
  | fadeIn
  | fadeOut
  | evenSize
  deriving DecidableEq, Repr

namespace Stage

/-- The texts that filters begin with; none is the start of another. -/
def openings : List (String × Stage) := [
  ("eq=", .color), ("hflip", .flip),
  ("transpose=1", .turn .clockwise), ("transpose=2", .turn .counterClockwise),
  ("crop=", .crop), ("scale=iw/", .restore), ("noise=", .grain), ("drawtext=", .text), ("setpts=", .speed),
  ("fade=t=in:", .fadeIn), ("fade=t=out:", .fadeOut), ("scale=trunc(", .evenSize)]

/-- The stage of a filter's text. -/
def ofText? (text : String) : Option Stage :=
  (openings.find? fun o => o.1.toList.isPrefixOf text.toList).map Prod.snd

/-- The order of all stages, with the turns that there are. -/
def order (turns : List QuarterTurn) : List Stage :=
  [.color, .flip] ++ turns.map .turn ++
    [.crop, .restore, .grain, .text, .speed, .fadeIn, .fadeOut, .evenSize]

/-! ## Reading a text -/

/-- A text that is long enough to tell its stage, whatever follows. -/
def Settled (head : String) : Prop :=
  ∀ o ∈ openings, o.1.toList <+: head.toList ∨ ¬ head.toList <+: o.1.toList

instance (head : String) : Decidable (Settled head) := inferInstanceAs (Decidable (∀ _ ∈ _, _))

theorem ofText?_append {head : String} (h : Settled head) (rest : String) :
    ofText? (head ++ rest) = ofText? head := by
  unfold ofText?
  rw [← List.head?_filter, ← List.head?_filter, List.filter_congr fun o mem => Bool.eq_iff_iff.2 ?_]
  rw [List.isPrefixOf_iff_prefix, List.isPrefixOf_iff_prefix, String.toList_append]
  refine ⟨fun opens => ?_, fun opens => opens.trans (List.prefix_append _ _)⟩
  rcases h o mem with opened | other
  · exact opened
  · exact (List.prefix_or_prefix_of_prefix opens (List.prefix_append _ _)).resolve_right other

/-- A text that opens a stage. -/
structure Opens (k : Stage) (text : String) : Prop where
  settled : Settled text
  stage : ofText? text = some k

instance (k : Stage) (text : String) : Decidable (Opens k text) :=
  decidable_of_iff (Settled text ∧ ofText? text = some k) ⟨fun h => ⟨h.1, h.2⟩, fun h => ⟨h.1, h.2⟩⟩

theorem Opens.append {k : Stage} {head rest : String} (h : Opens k head) : Opens k (head ++ rest) where
  settled o mem := by
    have head_rest : head.toList <+: (head ++ rest).toList := by
      rw [String.toList_append]
      exact List.prefix_append _ _
    rcases h.settled o mem with opened | other
    · exact .inl (opened.trans head_rest)
    · exact .inr fun short => other (head_rest.trans short)
  stage := (ofText?_append h.settled rest).trans h.stage

end Stage

/-! ## The stages of filters -/

namespace VideoFilter

/-- What a filter is there for. -/
def stage : VideoFilter → Stage
  | .color .. => .color
  | .flip => .flip
  | .turn t => .turn t
  | .crop .. => .crop
  | .uncrop _ => .restore
  | .noise _ => .grain
  | .text _ => .text
  | .speed _ => .speed
  | .fadeIn _ => .fadeIn
  | .fadeOut .. => .fadeOut
  | .evenSize => .evenSize

open Stage in
theorem opens_write (f : VideoFilter) : Opens f.stage f.write := by
  cases f with
  | color b c s =>
    exact show Opens .color _ from .append (.append (.append (.append (.append (by decide +kernel)))))
  | flip => exact show Opens .flip _ by decide +kernel
  | turn t => cases t <;> decide +kernel
  | crop keep margin =>
    exact show Opens .crop _ from
      .append (.append (.append (.append (.append (.append (.append (by decide +kernel)))))))
  | uncrop keep => exact show Opens .restore _ from .append (.append (.append (by decide +kernel)))
  | noise strength => exact show Opens .grain _ from .append (.append (by decide +kernel))
  | text d => exact show Opens .text _ from .append (by decide +kernel)
  | speed rate => exact show Opens .speed _ from .append (by decide +kernel)
  | fadeIn d => exact show Opens .fadeIn _ from .append (by decide +kernel)
  | fadeOut start d => exact show Opens .fadeOut _ from .append (.append (.append (by decide +kernel)))
  | evenSize => exact show Opens .evenSize _ by decide +kernel

/-- The stages are told by the texts. -/
theorem map_ofText? (filters : List VideoFilter) :
    (filters.map write).map Stage.ofText? = (filters.map stage).map some := by
  rw [List.map_map, List.map_map]
  exact List.map_congr_left fun f _ => f.opens_write.stage

end VideoFilter

/-! ## Turns -/

namespace QuarterTurn

/-- Where a quarter turn takes a point; the first coordinate points to the right and the second down. -/
def apply : QuarterTurn → Int × Int → Int × Int
  | .clockwise, (x, y) => (-y, x)
  | .counterClockwise, (x, y) => (y, -x)

/-- Turns that together turn clockwise by an angle; none are needed for no angle. -/
structure MakeUp (turns : List QuarterTurn) (angle : Int) : Prop where
  turned : ∃ n : Nat, angle = 90 * n ∧
    ∀ p, turns.foldl (fun p t => t.apply p) p = clockwise.apply^[n] p
  none : turns = [] ↔ angle = 0

theorem makeUp_three : MakeUp [.counterClockwise] 270 := by
  refine ⟨⟨3, rfl, fun (x, y) => ?_⟩, by decide⟩
  show (y, -x) = (- -y, -x)
  rw [Int.neg_neg]

end QuarterTurn

/-! ## The stages of settings -/

namespace Settings

variable {s : Settings} {duration : Number} {filters : List VideoFilter}

/-- Whether settings ask for a stage, of a source of this length. -/
def asks (s : Settings) (duration : Number) : Stage → Bool
  | .color | .turn _ | .evenSize => true
  | .flip => s.flipHorizontal
  | .crop | .restore => Number.lt 0 s.smartCrop
  | .grain => Number.lt 0 s.filmGrain
  | .text => !s.text.content.isEmpty
  | .speed => !s.playbackRate.same 1
  | .fadeIn => s.fadeEnabled
  | .fadeOut => s.fadeEnabled && Number.lt 0 duration

theorem turnFilters_makeUp (h : s.InDomain) : ∃ turns : List QuarterTurn,
    s.turnFilters = turns.map .turn ∧ QuarterTurn.MakeUp turns s.rotation := by
  have angle := h.rotation
  unfold turnFilters
  generalize s.rotation = n at angle
  rcases List.mem_cons.1 angle with rfl | angle
  · exact ⟨[], rfl, ⟨0, rfl, fun _ => rfl⟩, by decide⟩
  rcases List.mem_cons.1 angle with rfl | angle
  · exact ⟨[.clockwise], rfl, ⟨1, rfl, fun _ => rfl⟩, by decide⟩
  rcases List.mem_cons.1 angle with rfl | angle
  · exact ⟨[.clockwise, .clockwise], rfl, ⟨2, rfl, fun _ => rfl⟩, by decide⟩
  · obtain rfl := List.mem_singleton.1 angle
    exact ⟨[.counterClockwise], rfl, QuarterTurn.makeUp_three⟩

/-- A filter that is made of a numeral, or of what else is computed for it, is of one stage. -/
theorem stage_of_bind {α : Type} {value : Except NumericError α} {filter : α → VideoFilter}
    {f : VideoFilter} {k : Stage} (stage : ∀ a, (filter a).stage = k)
    (made : (value >>= fun a => pure (filter a)) = .ok f) : f.stage = k := by
  obtain ⟨a, -, made⟩ := bind_ok made
  cases made
  exact stage a

theorem whenever_stages {condition : Bool} {make : Except NumericError VideoFilter} {k : Stage}
    (h : whenever condition make = .ok filters) (stage : ∀ f, make = .ok f → f.stage = k) :
    filters.map VideoFilter.stage = [k].filter fun _ => condition := by
  unfold whenever at h
  cases condition with
  | true =>
    obtain ⟨f, made, h⟩ := bind_ok h
    cases h
    exact congrArg (fun k => [k]) (stage f made)
  | false =>
    cases h
    rfl

/-- A crop is scaled back by the numeral that it kept. -/
theorem cropFilters_pair (h : s.InDomain) (hf : s.cropFilters = .ok filters) :
    (Number.lt 0 s.smartCrop = false ∧ filters = []) ∨ (Number.lt 0 s.smartCrop = true ∧
      ∃ keep margin, IsNumeral keep ∧ IsNumeral margin ∧ filters = [.crop keep margin, .uncrop keep]) := by
  obtain ⟨_, made, measured⟩ := cropFilters_measured h
  cases made.symm.trans hf
  rw [Number.lt_eq_not_le rfl h.smartCrop.finite]
  unfold cropFilters at hf
  split at hf
  · rename_i none
    cases hf
    exact .inl ⟨by rw [none]; rfl, rfl⟩
  · rename_i some
    obtain ⟨double, -, hf⟩ := bind_ok hf
    obtain ⟨kept, -, hf⟩ := bind_ok hf
    obtain ⟨margin, -, hf⟩ := bind_ok hf
    obtain ⟨keep, -, hf⟩ := bind_ok hf
    cases hf
    have numerals := (measured (.crop keep margin) (.head _)).1
    exact .inr ⟨by rw [Bool.eq_false_iff.2 some]; rfl, keep, margin, numerals.1, numerals.2, rfl⟩

/-- A fade in, and a fade out if the length of the source is known. -/
theorem fadeFilters_stages (h : s.InDomain) (hf : s.fadeFilters duration = .ok filters) :
    filters.map VideoFilter.stage = [Stage.fadeIn, .fadeOut].filter (s.asks duration) := by
  have long : s.fadeDuration.le 0 = false := h.fadeDuration.le_zero (by decide +kernel)
  unfold fadeFilters at hf
  rw [long, Bool.or_false] at hf
  cases enabled : s.fadeEnabled with
  | false =>
    rw [enabled] at hf
    cases hf
    simp [asks, enabled]
  | true =>
    rw [enabled] at hf
    obtain ⟨d, -, hf⟩ := bind_ok hf
    cases known : Number.lt 0 duration with
    | false =>
      rw [known] at hf
      cases hf
      simp [asks, enabled, known, VideoFilter.stage]
    | true =>
      rw [known] at hf
      obtain ⟨length, -, hf⟩ := bind_ok hf
      obtain ⟨start, -, hf⟩ := bind_ok hf
      obtain ⟨st, -, hf⟩ := bind_ok hf
      cases hf
      simp [asks, enabled, known, VideoFilter.stage]

/-- The picture in the order of its stages, with the pair of filters that crops it. -/
theorem pictureFilters_stages (h : s.InDomain) (hf : s.pictureFilters = .ok filters)
    (duration : Number) : ∃ turns crop, QuarterTurn.MakeUp turns s.rotation ∧
      s.cropFilters = .ok crop ∧ crop <:+: filters ∧
      filters.map VideoFilter.stage = [Stage.color, .flip].filter (s.asks duration) ++ turns.map .turn ++
        [Stage.crop, .restore, .grain, .text, .speed].filter (s.asks duration) := by
  obtain ⟨turns, turned, angle⟩ := turnFilters_makeUp h
  unfold pictureFilters at hf
  obtain ⟨color, hcolor, hf⟩ := bind_ok hf
  obtain ⟨crop, hcrop, hf⟩ := bind_ok hf
  obtain ⟨grain, hgrain, hf⟩ := bind_ok hf
  obtain ⟨text, htext, hf⟩ := bind_ok hf
  obtain ⟨speed, hspeed, hf⟩ := bind_ok hf
  cases hf
  have color_stage : [color.stage] = [Stage.color].filter (s.asks duration) := by
    obtain ⟨b, -, hcolor⟩ := bind_ok hcolor
    obtain ⟨c, -, hcolor⟩ := bind_ok hcolor
    obtain ⟨d, -, hcolor⟩ := bind_ok hcolor
    cases hcolor
    rfl
  have flip_stages : (if s.flipHorizontal then [VideoFilter.flip] else []).map VideoFilter.stage =
      [Stage.flip].filter (s.asks duration) := by
    unfold asks
    cases s.flipHorizontal <;> rfl
  have crop_stages : crop.map VideoFilter.stage = [Stage.crop, .restore].filter (s.asks duration) := by
    unfold asks
    obtain ⟨none, rfl⟩ | ⟨some, keep, margin, -, -, rfl⟩ := cropFilters_pair h hcrop
    · rw [none]
      rfl
    · rw [some]
      rfl
  have grain_stages : _ = [Stage.grain].filter (s.asks duration) :=
    whenever_stages hgrain fun _ => stage_of_bind fun _ => rfl
  have text_stages : _ = [Stage.text].filter (s.asks duration) :=
    whenever_stages htext fun _ => stage_of_bind fun _ => rfl
  have speed_stages : _ = [Stage.speed].filter (s.asks duration) :=
    whenever_stages hspeed fun _ => stage_of_bind fun _ => rfl
  refine ⟨turns, crop, angle, hcrop, ?_, ?_⟩
  · simp only [List.append_assoc]
    rw [← List.append_assoc, ← List.append_assoc, ← List.append_assoc]
    exact List.infix_append ..
  · show _ = ([Stage.color] ++ [Stage.flip]).filter (s.asks duration) ++ _ ++
      ([Stage.crop, .restore] ++ [Stage.grain] ++ [Stage.text] ++ [Stage.speed]).filter (s.asks duration)
    simp only [List.map_append, List.map_singleton, List.filter_append, List.append_assoc, turned,
      List.map_map, color_stage, flip_stages, crop_stages, grain_stages, text_stages, speed_stages]
    rfl

/-- All filters in the order of their stages. -/
theorem videoFilters_stages (h : s.InDomain) (hf : s.videoFilters duration = .ok filters) :
    ∃ turns crop, QuarterTurn.MakeUp turns s.rotation ∧ s.cropFilters = .ok crop ∧ crop <:+: filters ∧
      filters.map VideoFilter.stage = (Stage.order turns).filter (s.asks duration) := by
  obtain ⟨picture, hpicture, hf⟩ := bind_ok hf
  obtain ⟨fades, hfades, hf⟩ := bind_ok hf
  cases hf
  obtain ⟨turns, crop, angle, hcrop, within, picture_stages⟩ := pictureFilters_stages h hpicture duration
  have fade_stages := fadeFilters_stages h hfades
  have all_turns : (turns.map Stage.turn).filter (s.asks duration) = turns.map .turn := by
    refine List.filter_eq_self.2 fun k mem => ?_
    obtain ⟨t, -, rfl⟩ := List.mem_map.1 mem
    rfl
  refine ⟨turns, crop, angle, hcrop, (within.trans List.infix_append_left).trans List.infix_append_left, ?_⟩
  show _ = ([Stage.color, .flip] ++ turns.map Stage.turn ++ ([Stage.crop, .restore, .grain, .text, .speed] ++
    ([Stage.fadeIn, .fadeOut] ++ [Stage.evenSize]))).filter _
  simp only [List.map_append, List.filter_append, picture_stages, fade_stages, all_turns,
    List.append_assoc]
  rfl

end Settings

/-! ## The stages of a graph -/

variable {s : Settings} {context : RenderContext} {raw : Raw} {hasImage : Bool} {inputName : String}

theorem Overlay.ofContext_isSome {overlay : Option Overlay}
    (h : Overlay.ofContext s context = .ok overlay) :
    overlay.isSome = (FilterGraph.imageInput? s context).isSome := by
  unfold ofContext at h
  split at h
  · rename_i name some
    obtain ⟨o, -, h⟩ := bind_ok h
    cases h
    rw [some]
    rfl
  · rename_i none
    cases h
    rw [none]
    rfl

namespace FilterGraph

/-- There is no graph without a filter. -/
theorem Built.videoChain_ne_empty {g : FilterGraph} (h : g.Built inputName context) : g.videoChain ≠ "" := by
  intro empty
  have head := h.video
  rw [empty] at head
  cases head

/-- A graph has the stages that settings ask for, and none else, in their order. -/
structure Staged (s : Settings) (context : RenderContext) (g : FilterGraph) : Prop where
  order : ∃ (filters : List VideoFilter) (turns : List QuarterTurn),
    g.video = filters.map VideoFilter.write ∧
    filters.map VideoFilter.stage = (Stage.order turns).filter (s.asks context.duration) ∧
    QuarterTurn.MakeUp turns s.rotation ∧
    g.video.map Stage.ofText? = ((Stage.order turns).filter (s.asks context.duration)).map some
  /-- What a crop keeps is scaled back by the same numeral, right after it. -/
  crop : s.asks context.duration .crop = true → ∃ keep margin, IsNumeral keep ∧ IsNumeral margin ∧
    [s!"crop=iw*{keep}:ih*{keep}:iw*{margin}:ih*{margin}", s!"scale=iw/{keep}:ih/{keep}"] <:+: g.video
  complex : g.isComplex = (imageInput? s context).isSome
  /-- The first chain of a complex graph is the same video between two pads. -/
  base : g.isComplex = true → g.chains.head? = some ("[0:v]" ++ ",".intercalate g.video ++ "[v0]")

/-- The graph of sanitized settings is built, and has the stages that they ask for, whatever the length of
the source. -/
theorem build_staged (inputName : String) (sanitized : Settings.sanitize raw hasImage = .ok s)
    (x : Binary64) (length : context.duration = .real x) :
    ∃ g, build inputName s context = .ok g ∧ g.Staged s context := by
  have clean := Settings.clean_of_sanitized sanitized
  obtain ⟨filters, overlay, g, made, laid, built, assembled, -, -⟩ :=
    build_assembled inputName clean length
  obtain ⟨turns, crop, angle, hcrop, within, stages⟩ := Settings.videoFilters_stages clean.domain made
  refine ⟨g, built, ⟨filters, turns, assembled.video, stages, angle, ?_⟩, fun asked => ?_, ?_,
    fun complex => ?_⟩
  · rw [assembled.video, VideoFilter.map_ofText?, stages]
  · obtain ⟨none, -⟩ | ⟨-, keep, margin, hkeep, hmargin, rfl⟩ :=
      Settings.cropFilters_pair clean.domain hcrop
    · exact absurd asked (Bool.eq_false_iff.1 none)
    · exact ⟨keep, margin, hkeep, hmargin, assembled.video ▸ within.map VideoFilter.write⟩
  · rw [← Overlay.ofContext_isSome laid]
    unfold isComplex
    rw [assembled.chains]
    cases overlay <;> rfl
  · unfold isComplex at complex
    rw [assembled.chains] at complex ⊢
    cases overlay with
    | none => cases complex
    | some o => exact congrArg some (Overlay.baseChain_eq (build_built built).videoChain_ne_empty)

/-- Settings that ask for every stage, and an image. -/
def everyStage : Raw := .value (.map [("flip_h", .bool true), ("rotation", .number 180),
  ("smart_crop", .number (.decimal 1 1)), ("film_grain", .number 10), ("fade_enabled", .bool true),
  ("watermark_text", .text "text"), ("watermark_image_enabled", .bool true),
  ("playback_rate", .number (.decimal 105 2))])

/-- A length of ten seconds is enough for both fades. -/
theorem build_staged_everyStage : ∃ s g, Settings.sanitize everyStage true = .ok s ∧
    (∀ k, s.asks Command.imageContext.duration k = true) ∧ g.isComplex = true ∧
    build "input.mp4" s Command.imageContext = .ok g ∧ g.Staged s Command.imageContext := by
  obtain ⟨s, hs, asked, image⟩ : ∃ s, Settings.sanitize everyStage true = .ok s ∧
      (∀ k, s.asks Command.imageContext.duration k = true) ∧
      (imageInput? s Command.imageContext).isSome = true :=
    ⟨_, rfl, fun k => by cases k <;> first | rfl | decide +kernel, by decide +kernel⟩
  have length : Command.imageContext.duration = .real _ := rfl
  obtain ⟨g, built, staged⟩ := build_staged "input.mp4" hs _ length
  exact ⟨s, g, hs, asked, staged.complex.trans image, built, staged⟩

end FilterGraph

end VideoExport
