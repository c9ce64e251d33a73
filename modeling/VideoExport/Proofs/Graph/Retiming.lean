import VideoExport.Graph.Unchecked
import VideoExport.Proofs.Graph.Tempo

/-!
# The times of picture and sound

A graph slows the picture by one filter and the sound by the tempo factors, and by none at speed one. No
other filter changes the times (`Untimed`), so picture and sound keep the same time
(`FilterGraph.KeepsTime`), in the graph of settings whatever else they hold
(`FilterGraph.build_keepsTime`) and in that of a record that was not checked
(`FilterGraph.ofRecord_keepsTime`).
-/

set_option autoImplicit false

namespace VideoExport

open Binary64 (Finite)

variable {x : Finite}

/-! ## The filter for the speed -/

/-- The text of a filter that divides the times of a picture. -/
def DividesTimes (text : String) : Prop := "setpts=PTS/".toList <+: text.toList

instance (text : String) : Decidable (DividesTimes text) := inferInstanceAs (Decidable (_ <+: _))

/-- A text with another start than that of a filter that divides the times. -/
def StartsOther (text : String) : Prop := ¬ DividesTimes text ∧ ¬ text.toList <+: "setpts=PTS/".toList

instance (text : String) : Decidable (StartsOther text) := inferInstanceAs (Decidable (_ ∧ _))

theorem StartsOther.append {head rest : String} (h : StartsOther head) : StartsOther (head ++ rest) := by
  unfold StartsOther DividesTimes at h ⊢
  rw [String.toList_append]
  refine ⟨fun starts => ?_, fun starts => h.2 ((List.prefix_append _ _).trans starts)⟩
  obtain shorter | longer := List.prefix_or_prefix_of_prefix starts (List.prefix_append _ _)
  · exact h.1 shorter
  · exact h.2 longer

namespace VideoFilter

/-- The divisor of the times of a picture, if a filter changes them. -/
def speed? : VideoFilter → Option Numeral
  | .speed rate => some rate
  | _ => none

theorem write_speed (t : Numeral) : (VideoFilter.speed t).write = "setpts=PTS/" ++ t := rfl

theorem startsOther_write {f : VideoFilter} (h : f.speed? = none) : StartsOther f.write := by
  cases f with
  | speed t => cases h
  | text d => exact .append (by decide)
  | color b c s => exact .append (.append (.append (.append (.append (by decide)))))
  | crop k m => exact .append (.append (.append (.append (.append (.append (.append (by decide)))))))
  | uncrop k => exact .append (.append (.append (by decide)))
  | noise n => exact .append (.append (by decide))
  | fadeIn d => exact .append (by decide)
  | fadeOut s d => exact .append (.append (.append (by decide)))
  | turn t => cases t <;> decide
  | flip | evenSize => decide

/-- The filters whose text divides the times are those for the speed. -/
theorem filter_dividesTimes (filters : List VideoFilter) :
    (filters.map write).filter (DividesTimes ·) =
      (filters.filterMap speed?).map ("setpts=PTS/" ++ ·) := by
  induction filters with
  | nil => rfl
  | cons f filters ih =>
    cases speed : f.speed? with
    | none =>
      have other := (startsOther_write speed).1
      simp [speed, other, ih]
    | some t =>
      obtain rfl : f = .speed t := by cases f <;> simp_all [speed?]
      have divides : DividesTimes ("setpts=PTS/" ++ t) := by
        unfold DividesTimes
        rw [String.toList_append]
        exact List.prefix_append _ _
      simp [speed, divides, ih, write_speed]

end VideoFilter

/-- Filters that leave the times as they are. -/
def Untimed (filters : List VideoFilter) : Prop := filters.filterMap VideoFilter.speed? = []

theorem Untimed.of_make {make : Except NumericError VideoFilter} {condition : Bool}
    {filters : List VideoFilter} (hm : ∀ f, make = .ok f → f.speed? = none)
    (h : Settings.whenever condition make = .ok filters) : Untimed filters := by
  unfold Settings.whenever at h
  split at h
  · obtain ⟨f, made, h⟩ := Number.bind_ok h
    cases h
    simp [Untimed, hm f made]
  · cases h
    rfl

namespace Settings

variable {s : Settings} {filters : List VideoFilter}

theorem colorFilter_untimed {f : VideoFilter} (h : s.colorFilter = .ok f) : f.speed? = none := by
  obtain ⟨_, -, h⟩ := Number.bind_ok h
  obtain ⟨_, -, h⟩ := Number.bind_ok h
  obtain ⟨_, -, h⟩ := Number.bind_ok h
  cases h
  rfl

theorem turnFilters_untimed (s : Settings) : Untimed s.turnFilters := by
  unfold turnFilters
  split_ifs <;> rfl

theorem cropFilters_untimed (h : s.cropFilters = .ok filters) : Untimed filters := by
  unfold cropFilters at h
  split at h
  · cases h
    rfl
  · obtain ⟨_, -, h⟩ := Number.bind_ok h
    obtain ⟨_, -, h⟩ := Number.bind_ok h
    obtain ⟨_, -, h⟩ := Number.bind_ok h
    obtain ⟨_, -, h⟩ := Number.bind_ok h
    cases h
    rfl

theorem noiseFilter_untimed {f : VideoFilter} (h : s.noiseFilter = .ok f) : f.speed? = none := by
  obtain ⟨_, -, h⟩ := Number.bind_ok h
  cases h
  rfl

theorem textFilter_untimed {f : VideoFilter} (h : s.textFilter = .ok f) : f.speed? = none := by
  obtain ⟨_, -, h⟩ := Number.bind_ok h
  cases h
  rfl

theorem fadeFilters_untimed {duration : Number} (h : s.fadeFilters duration = .ok filters) :
    Untimed filters := by
  unfold fadeFilters at h
  split at h
  · cases h
    rfl
  · obtain ⟨_, -, h⟩ := Number.bind_ok h
    split at h
    · obtain ⟨_, -, h⟩ := Number.bind_ok h
      obtain ⟨_, -, h⟩ := Number.bind_ok h
      obtain ⟨_, -, h⟩ := Number.bind_ok h
      cases h
      rfl
    · cases h
      rfl

theorem flip_untimed (s : Settings) :
    Untimed (if s.flipHorizontal then [VideoFilter.flip] else []) := by
  split_ifs <;> rfl

end Settings

/-- Only the filter for the speed is left of a picture's filters if all others leave the times. -/
theorem Untimed.picture {color : VideoFilter} {flip turn crop noise text : List VideoFilter}
    (hcolor : color.speed? = none) (hflip : Untimed flip) (hturn : Untimed turn) (hcrop : Untimed crop)
    (hnoise : Untimed noise) (htext : Untimed text) (speed : List VideoFilter) :
    ([color] ++ flip ++ turn ++ crop ++ noise ++ text ++ speed).filterMap VideoFilter.speed? =
      speed.filterMap VideoFilter.speed? := by
  unfold Untimed at hflip hturn hcrop hnoise htext
  simp only [List.filterMap_append, List.filterMap_cons, List.filterMap_nil, hcolor, hflip, hturn, hcrop,
    hnoise, htext, List.nil_append]

theorem Untimed.append_speed {picture fades : List VideoFilter} {speed : List Numeral}
    (hfades : Untimed fades) (hpicture : picture.filterMap VideoFilter.speed? = speed) :
    (picture ++ fades ++ [VideoFilter.evenSize]).filterMap VideoFilter.speed? = speed := by
  unfold Untimed at hfades
  simp [hpicture, hfades, VideoFilter.speed?]

theorem same_one_iff : (Number.real (.finite x)).same 1 = true ↔ x.value = 1 := by
  rw [Number.same_iff (a := .real (.finite x)) (b := 1) rfl rfl]
  norm_num

namespace Settings

variable {s : Settings} {filters : List VideoFilter} {t : Numeral}

/-- Whatever else is in settings, of the filters of the picture only that for their speed changes the
times. -/
theorem pictureFilters_speed (rate : s.playbackRate = .real (.finite x))
    (written : (Number.real (.finite x)).compact = .ok t) (h : s.pictureFilters = .ok filters) :
    filters.filterMap VideoFilter.speed? = if x.value = 1 then [] else [t] := by
  obtain ⟨color, hcolor, h⟩ := Number.bind_ok h
  obtain ⟨crop, hcrop, h⟩ := Number.bind_ok h
  obtain ⟨noise, hnoise, h⟩ := Number.bind_ok h
  obtain ⟨text, htext, h⟩ := Number.bind_ok h
  obtain ⟨speed, made, h⟩ := Number.bind_ok h
  cases h
  rw [Untimed.picture (colorFilter_untimed hcolor) (flip_untimed s) (turnFilters_untimed s)
    (cropFilters_untimed hcrop) (.of_make (fun _ => noiseFilter_untimed) hnoise)
    (.of_make (fun _ => textFilter_untimed) htext)]
  unfold whenever speedFilter at made
  rw [rate, written] at made
  by_cases one : x.value = 1
  · rw [same_one_iff.2 one] at made
    cases made
    simp [one]
  · rw [Bool.eq_false_iff.2 (mt same_one_iff.1 one)] at made
    cases made
    simp [one, VideoFilter.speed?]

/-- The sound has no filter at speed one, and those of the factors at any other. -/
theorem tempoFilters_chain (positive : 0 < x.value) (rate : s.playbackRate = .real (.finite x)) :
    ∃ audio, s.tempoFilters = .ok audio ∧ (x.value = 1 → audio = []) ∧ (x.value ≠ 1 →
      ∃ factors, TempoChain x factors ∧
        List.Forall₂ (fun f a => Numeral.Denotes a.factor f.value) factors audio) := by
  unfold tempoFilters
  rw [rate]
  by_cases one : x.value = 1
  · exact ⟨[], if_pos (same_one_iff.2 one), fun _ => rfl, fun changed => absurd one changed⟩
  · obtain ⟨factors, split, chain⟩ := tempoFactors_chain positive
    obtain ⟨audio, written, each⟩ := mapM_denotes factors
    refine ⟨audio, ?_, fun still => absurd still one, fun _ => ⟨factors, chain, each⟩⟩
    rw [if_neg (mt same_one_iff.1 one), split]
    exact written

end Settings

/-! ## Records that were not checked -/

namespace Record

variable {r : Record} {filters : List VideoFilter} {t : Numeral}

theorem computed_ok {α : Type} {make : Except NumericError α} {a : α} (h : computed make = .ok a) :
    make = .ok a := by
  cases make with
  | error e => cases h
  | ok b =>
    cases h
    rfl

/-- A list with one filter if a condition holds, before the rest of a computation. -/
theorem optional_ok {α β : Type} {condition : Bool} {make : Except Failure β} {filter : β → VideoFilter}
    {rest : List VideoFilter → Except Failure α} {a : α}
    (h : (if condition then do rest (← pure [filter (← make)]) else do rest (← pure [])) = .ok a) :
    ∃ filters, rest filters = .ok a ∧
      (condition = false ∧ filters = [] ∨ condition = true ∧ ∃ b, make = .ok b ∧ filters = [filter b]) := by
  cases condition with
  | false => exact ⟨[], h, .inl ⟨rfl, rfl⟩⟩
  | true =>
    obtain ⟨b, made, h⟩ := Number.bind_ok h
    exact ⟨[filter b], h, .inr ⟨rfl, b, made, rfl⟩⟩

theorem colorFilter_untimed {f : VideoFilter} (h : r.colorFilter = .ok f) : f.speed? = none := by
  obtain ⟨_, -, h⟩ := Number.bind_ok h
  obtain ⟨_, -, h⟩ := Number.bind_ok h
  obtain ⟨_, -, h⟩ := Number.bind_ok h
  cases h
  rfl

theorem textFilter_untimed {f : VideoFilter} (h : r.textFilter = .ok f) : f.speed? = none := by
  obtain ⟨_, -, h⟩ := Number.bind_ok h
  obtain ⟨_, -, h⟩ := Number.bind_ok h
  obtain ⟨_, -, h⟩ := Number.bind_ok h
  dsimp only at h
  have drawn {shape : Settings → Except NumericError Drawtext}
      (h : (do
        (r .textOpacity).checkComparison "<" 100
        let d ← computed (shape r.unchecked)
        return VideoFilter.text { d with size := ← r.shown .textSize }) = .ok f) : f.speed? = none := by
    obtain ⟨_, -, h⟩ := Number.bind_ok h
    obtain ⟨_, -, h⟩ := Number.bind_ok h
    obtain ⟨_, -, h⟩ := Number.bind_ok h
    cases h
    rfl
  split at h
  · obtain ⟨_, -, h⟩ := Number.bind_ok h
    exact drawn h
  · exact drawn h

theorem changesSpeed_iff (rate : r .playbackRate = .number (.real (.finite x))) :
    r.changesSpeed = true ↔ x.value ≠ 1 := by
  unfold changesSpeed
  rw [rate]
  simp only [Value.asNumber?, Bool.not_eq_true', ne_eq, ← same_one_iff, Bool.not_eq_true]

/-- Whatever else a record holds, of the filters of the picture only that for its speed changes the
times. -/
theorem pictureFilters_speed (rate : r .playbackRate = .number (.real (.finite x)))
    (written : (Number.real (.finite x)).compact = .ok t) (h : r.pictureFilters = .ok filters) :
    filters.filterMap VideoFilter.speed? = if x.value = 1 then [] else [t] := by
  obtain ⟨color, hcolor, h⟩ := Number.bind_ok h
  obtain ⟨_, -, h⟩ := Number.bind_ok h
  obtain ⟨crop, hcrop, h⟩ := Number.bind_ok h
  obtain ⟨_, -, h⟩ := Number.bind_ok h
  obtain ⟨noise, hnoise, h⟩ := Number.bind_ok h
  obtain ⟨text, h, htext⟩ := optional_ok h
  obtain ⟨speed, h, hspeed⟩ := optional_ok h
  cases h
  have htext : Untimed text := by
    obtain ⟨-, rfl⟩ | ⟨-, f, made, rfl⟩ := htext
    · rfl
    · simp [Untimed, textFilter_untimed made]
  rw [Untimed.picture (colorFilter_untimed hcolor) (Settings.flip_untimed _)
    (Settings.turnFilters_untimed _) (Settings.cropFilters_untimed (computed_ok hcrop))
    (.of_make (fun _ => Settings.noiseFilter_untimed) (computed_ok hnoise)) htext]
  obtain ⟨still, rfl⟩ | ⟨changed, shown, made, rfl⟩ := hspeed
  · rw [if_pos (by_contra fun other => by simp [(changesSpeed_iff rate).2 other] at still)]
    rfl
  · rw [if_neg ((changesSpeed_iff rate).1 changed)]
    have shown : r.shown .playbackRate = .ok t := by
      unfold Record.shown Value.shown
      rw [rate]
      simp only [Value.asNumber?, written]
      rfl
    cases made.symm.trans shown
    rfl

theorem fadeFilters_untimed {duration : Value} (h : r.fadeFilters duration = .ok filters) :
    Untimed filters := by
  have made (h : computed (r.unchecked.fadeFilters (duration.asNumber?.getD 0)) = .ok filters) :
      Untimed filters := Settings.fadeFilters_untimed (computed_ok h)
  unfold fadeFilters at h
  dsimp only at h
  split at h
  · obtain ⟨_, -, h⟩ := Number.bind_ok h
    split at h
    · obtain ⟨_, -, h⟩ := Number.bind_ok h
      split at h
      · obtain ⟨_, -, h⟩ := Number.bind_ok h
        exact made h
      · exact made h
    · exact made h
  · exact made h

theorem tempoFilters_ok {audio : List TempoFilter} (h : r.tempoFilters = .ok audio) :
    r.unchecked.tempoFilters = .ok audio := by
  unfold tempoFilters at h
  dsimp only at h
  split at h
  · obtain ⟨_, -, h⟩ := Number.bind_ok h
    exact computed_ok h
  · exact computed_ok h

end Record

/-! ## Graphs -/

/-- A graph whose picture and sound keep the same time at a speed: no filter changes it at speed one, and
else one filter divides the times of the picture by the speed, and the filters of the sound have factors
whose product is the speed. -/
structure FilterGraph.KeepsTime (x : Finite) (g : FilterGraph) : Prop where
  picture : (∀ f ∈ g.video, ¬ DividesTimes f) ↔ x.value = 1
  sound : g.audio = [] ↔ x.value = 1
  divisor : x.value ≠ 1 → ∃ t : Numeral, g.video.filter (DividesTimes ·) = ["setpts=PTS/" ++ t] ∧
    t.Denotes x.value
  factors : x.value ≠ 1 → ∃ factors, TempoChain x factors ∧
    List.Forall₂ (fun f text => ∃ t : Numeral, text = "atempo=" ++ t ∧ t.Denotes f.value) factors g.audio

namespace FilterGraph

variable {inputName : String} {context : RenderContext} {g : FilterGraph}

/-- A graph keeps the same time if the only filter of the picture that changes it is one for the speed, and
the sound has the filters for that speed. -/
theorem KeepsTime.of_filters {s : Settings} {video : List VideoFilter} {audio : List TempoFilter}
    {t : Numeral} (positive : 0 < x.value) (rate : s.playbackRate = .real (.finite x))
    (denotes : t.Denotes x.value)
    (picture : video.filterMap VideoFilter.speed? = if x.value = 1 then [] else [t])
    (made : s.tempoFilters = .ok audio) (hvideo : g.video = video.map VideoFilter.write)
    (haudio : g.audio = audio.map TempoFilter.write) : g.KeepsTime x := by
  obtain ⟨_, filters, still, changed⟩ := Settings.tempoFilters_chain positive rate
  cases made.symm.trans filters
  have dividing : g.video.filter (DividesTimes ·) =
      if x.value = 1 then [] else ["setpts=PTS/" ++ t] := by
    rw [hvideo, VideoFilter.filter_dividesTimes, picture]
    split_ifs <;> rfl
  constructor
  case picture =>
    have none : (∀ f ∈ g.video, ¬ DividesTimes f) ↔ g.video.filter (DividesTimes ·) = [] := by
      simp [List.filter_eq_nil_iff]
    rw [none, dividing]
    simp
  case sound =>
    rw [haudio, List.map_eq_nil_iff]
    refine ⟨fun none => by_contra fun other => ?_, still⟩
    obtain ⟨factors, chain, each⟩ := changed other
    subst none
    cases each
    exact chain.any rfl
  case divisor => exact fun other => ⟨t, by rw [dividing, if_neg other], denotes⟩
  case factors =>
    intro other
    obtain ⟨factors, chain, each⟩ := changed other
    refine ⟨factors, chain, ?_⟩
    rw [haudio, List.forall₂_map_right_iff]
    exact each.imp fun f a denotes => ⟨a.factor, rfl, denotes⟩

/-- A graph of settings keeps the same time, whatever else they hold. -/
theorem build_keepsTime {s : Settings} (positive : 0 < x.value)
    (rate : s.playbackRate = .real (.finite x)) (h : build inputName s context = .ok g) :
    g.KeepsTime x := by
  obtain ⟨picture, hpicture, h⟩ := Number.bind_ok h
  obtain ⟨fades, hfades, h⟩ := Number.bind_ok h
  obtain ⟨tempo, htempo, h⟩ := Number.bind_ok h
  obtain ⟨t, written, denotes⟩ := Number.compact_denotes x
  have video := Untimed.append_speed (Settings.fadeFilters_untimed hfades)
    (Settings.pictureFilters_speed rate written hpicture)
  have keeps {g} := KeepsTime.of_filters (g := g) positive rate denotes video htempo
  dsimp only at h
  split at h
  · obtain ⟨overlay, -, h⟩ := Number.bind_ok h
    cases h
    exact keeps rfl rfl
  · cases h
    exact keeps rfl rfl

/-- So does the graph of a record that was not checked. -/
theorem ofRecord_keepsTime {r : Record} {duration : Value} (positive : 0 < x.value)
    (rate : r .playbackRate = .number (.real (.finite x)))
    (h : ofRecord inputName r duration context = .ok g) : g.KeepsTime x := by
  obtain ⟨picture, hpicture, h⟩ := Number.bind_ok h
  obtain ⟨fades, hfades, h⟩ := Number.bind_ok h
  obtain ⟨tempo, htempo, h⟩ := Number.bind_ok h
  obtain ⟨t, written, denotes⟩ := Number.compact_denotes x
  have own : r.unchecked.playbackRate = .real (.finite x) := by
    simp [Record.unchecked, Record.number, rate, Value.asNumber?]
  have video := Untimed.append_speed (Record.fadeFilters_untimed hfades)
    (Record.pictureFilters_speed rate written hpicture)
  have keeps {g} := KeepsTime.of_filters (g := g) positive own denotes video
    (Record.tempoFilters_ok htempo)
  dsimp only at h
  split at h
  · obtain ⟨overlay, -, h⟩ := Number.bind_ok h
    cases h
    exact keeps rfl rfl
  · cases h
    exact keeps rfl rfl

/-- Picture and sound keep the same time at any positive speed: the factors of the speed can always be
given, and every graph of settings or of an unchecked record with that speed keeps the time. -/
theorem retimed_alike (positive : 0 < x.value) :
    (∃ factors, tempoFactors (.real (.finite x)) = .ok (factors.map fun f => .real (.finite f)) ∧
      TempoChain x factors) ∧
    (∀ s : Settings, s.playbackRate = .real (.finite x) →
      (∃ audio, s.tempoFilters = .ok audio) ∧ (∃ speed, s.speedFilter = .ok speed) ∧
      ∀ inputName context g, build inputName s context = .ok g → g.KeepsTime x) ∧
    (∀ r : Record, r .playbackRate = .number (.real (.finite x)) →
      ∀ inputName duration context g, ofRecord inputName r duration context = .ok g → g.KeepsTime x) := by
  refine ⟨tempoFactors_chain positive, fun s rate => ⟨?_, ?_, fun _ _ _ => build_keepsTime positive rate⟩,
    fun r rate _ _ _ _ => ofRecord_keepsTime positive rate⟩
  · obtain ⟨audio, made, -⟩ := Settings.tempoFilters_chain positive rate
    exact ⟨audio, made⟩
  · obtain ⟨t, written, -⟩ := Number.compact_denotes x
    refine ⟨.speed t, ?_⟩
    unfold Settings.speedFilter
    rw [rate, written]
    rfl

/-- Five as a double. -/
def five : Finite := ⟨false, 5 * 2 ^ 50, -50, by decide, by decide⟩

theorem five_retimed : 0 < five.value ∧ ∃ g,
    build "input.mp4" { Settings.default with playbackRate := .real (.finite five) } {} = .ok g ∧
      g.KeepsTime five := by
  have positive : 0 < five.value := by decide +kernel
  have made : (build "input.mp4" { Settings.default with playbackRate := .real (.finite five) } {}).isOk =
      true := by decide +kernel
  cases built : build "input.mp4" { Settings.default with playbackRate := .real (.finite five) } {} with
  | ok g => exact ⟨positive, g, rfl, ((retimed_alike positive).2.1 _ rfl).2.2 _ _ _ built⟩
  | error e =>
    rw [built] at made
    cases made

end FilterGraph

end VideoExport
