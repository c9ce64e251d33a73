import VideoExport.Proofs.Command
import VideoExport.Proofs.Graph.Chains

/-!
# Commands that are well-formed

A command is read as switches with their values and, last, an output (`Command.switches`). For settings that
were sanitized and any names it has one graph, and this is read as the filters and chains that are meant,
whatever the text of the watermark is (`Command.compile_wellFormed`).
-/

set_option autoImplicit false

namespace VideoExport

/-! ## The chains that are meant -/

namespace Overlay

/-- The filters that prepare the image. -/
def imageFilters (o : Overlay) : List String :=
  ["format=rgba", s!"colorchannelmixer=aa={o.opacity}", s!"scale=iw*{o.scale}:ih*{o.scale}"]

/-- The filter that lays the image over the video. -/
def joinFilters (o : Overlay) : List String := [s!"overlay=x=W*{o.x}-w/2:y=H*{o.y}-h/2:format=auto"]

/-- The texts of the chains that lay the image over a video. -/
def chainTexts (o : Overlay) (video : String) : List String :=
  [baseChain video, o.imageChain, o.joinChain]

/-- The overlay of a rendering, if it has an image. -/
def ofContext (s : Settings) (context : RenderContext) : Except NumericError (Option Overlay) :=
  match FilterGraph.imageInput? s context with
  | some _ => return some (← ofSettings s)
  | none => return none

end Overlay

/-- The text of a chain of filters. -/
def chainText (filters : List VideoFilter) : String := ",".intercalate (filters.map VideoFilter.write)

/-- The chains for filters of the video: three with labelled pads if there is an overlay. -/
def chainsFor (filters : List VideoFilter) : Option Overlay → List Chain
  | none => [⟨[], filters.map VideoFilter.write, []⟩]
  | some o => [⟨["0:v"], filters.map VideoFilter.write, ["v0"]⟩, ⟨["1:v"], o.imageFilters, ["wm"]⟩,
      ⟨["v0", "wm"], o.joinFilters, ["v"]⟩]

/-- The input whose pad a label names. -/
def padInput? (label : String) : Option Nat :=
  match label.toList.splitOn ':' with
  | [digits, _] => some (Instant.digitsValue digits)
  | _ => none

/-! ## Reading a command -/

namespace Command

/-- The switches of a command with their values; the output has no switch. -/
def switches : List String → List (String × String)
  | name :: value :: rest => (name, value) :: switches rest
  | _ => []

/-- The values that a switch is given. -/
def values (name : String) (arguments : List String) : List String :=
  ((switches arguments).filter fun p => p.1 == name).map Prod.snd

/-- Whether a switch is given a graph. -/
def isGraphSwitch (name : String) : Bool := name == "-vf" || name == "-filter_complex"

/-- The graphs of a command, with their switches. -/
def graphs (arguments : List String) : List (String × String) :=
  (switches arguments).filter fun p => isGraphSwitch p.1

/-- What a command is to say, for a graph that is to be read as `chains`. -/
structure WellFormed (g : FilterGraph) (chains : List Chain) (outputName : String)
    (arguments : List String) : Prop where
  /-- There is one graph. Its text is split into what it was joined from, and is read as its chains. -/
  graph : ∃ text, graphs arguments = [(if g.isComplex then "-filter_complex" else "-vf", text)] ∧
    splitOutside (if g.isComplex then ';' else ',') text = (if g.isComplex then g.chains else g.video) ∧
    readGraph text = some chains
  defined : chains.flatMap Chain.defined = if g.isComplex then ["v0", "wm", "v"] else []
  consumed : chains.flatMap Chain.consumed = if g.isComplex then ["0:v", "1:v", "v0", "wm"] else []
  inputs : values "-i" arguments = g.inputs
  /-- Pads of inputs are those of inputs that there are. -/
  pads : ∀ label ∈ chains.flatMap Chain.consumed, ∀ k ∈ padInput? label,
    k < (values "-i" arguments).length
  maps : values "-map" arguments =
    if "v" ∈ chains.flatMap Chain.defined then ["[v]", "0:a?"] else []
  output : arguments.getLast? = some outputName

/-- Switches and values as they are written. -/
def spread (l : List (String × String)) : List String := l.flatMap fun p => [p.1, p.2]

theorem switches_spread (l : List (String × String)) (rest : List String) :
    switches (spread l ++ rest) = l ++ switches rest := by
  induction l with
  | nil => rfl
  | cons p l ih => exact congrArg (p :: ·) ih

/-- The switches for the sound, the metadata and the encoding. -/
def otherSwitches : List String :=
  ["-af", "-map_metadata", "-metadata", "-preset", "-pix_fmt", "-movflags"]

variable {g : FilterGraph} {inputName outputName : String} {time : Option String}

/-- A command has switches for its inputs, for its video, and others. -/
theorem switches_ofGraph (g : FilterGraph) (time : Option String) (outputName : String)
    {video : List (String × String)} (hv : videoArguments g = spread video) :
    ∃ others, switches (ofGraph g time outputName) = g.inputs.map ("-i", ·) ++ (video ++ others) ∧
      ∀ p ∈ others, p.1 ∈ otherSwitches := by
  have inputs : (g.inputs.flatMap fun name => ["-i", name]) = spread (g.inputs.map ("-i", ·)) := by
    unfold spread
    rw [List.flatMap_map]
  obtain ⟨audio, ha, audio_names⟩ : ∃ audio, audioArguments g = spread audio ∧
      ∀ p ∈ audio, p.1 ∈ otherSwitches := by
    unfold audioArguments
    split
    · exact ⟨[], rfl, nofun⟩
    · exact ⟨[("-af", g.audioChain)], rfl, by simp [otherSwitches]⟩
  obtain ⟨metadata, hm, metadata_names⟩ : ∃ metadata, ofGraph g time outputName =
      (g.inputs.flatMap fun name => ["-i", name]) ++ videoArguments g ++ audioArguments g ++
        spread metadata ++ encodingArguments ++ [outputName] ∧ ∀ p ∈ metadata, p.1 ∈ otherSwitches := by
    cases time with
    | none => exact ⟨[], rfl, nofun⟩
    | some t =>
      exact ⟨[("-map_metadata", "-1"), ("-metadata", s!"creation_time={t}"),
        ("-metadata", s!"comment={metadataComment}")], rfl, by simp [otherSwitches]⟩
  have encoding : encodingArguments =
      spread [("-preset", "ultrafast"), ("-pix_fmt", "yuv420p"), ("-movflags", "+faststart")] := rfl
  refine ⟨audio ++ (metadata ++ [("-preset", "ultrafast"), ("-pix_fmt", "yuv420p"),
    ("-movflags", "+faststart")]), ?_, ?_⟩
  · rw [hm, inputs, hv, ha, encoding]
    simp only [List.append_assoc, switches_spread]
    rfl
  · refine List.forall_mem_append.2 ⟨audio_names, List.forall_mem_append.2 ⟨metadata_names, ?_⟩⟩
    simp [otherSwitches]

/-- Which switches pass a test that those for the sound, the metadata and the encoding fail. -/
theorem filter_switches (time : Option String) (outputName : String) {video : List (String × String)}
    (hv : videoArguments g = spread video) {test : String → Bool}
    (fails : otherSwitches.all (fun name => !test name) = true) :
    (switches (ofGraph g time outputName)).filter (fun p => test p.1) =
      (if test "-i" then g.inputs.map ("-i", ·) else []) ++ video.filter fun p => test p.1 := by
  obtain ⟨others, hs, names⟩ := switches_ofGraph g time outputName hv
  have none : (others.filter fun p => test p.1) = [] := by
    refine List.filter_eq_nil_iff.2 fun p hp => ?_
    simpa using List.all_eq_true.1 fails p.1 (names p hp)
  have inputs : ((g.inputs.map ("-i", ·)).filter fun p => test p.1) =
      if test "-i" then g.inputs.map ("-i", ·) else [] := by
    cases ht : test "-i" with
    | false => exact List.filter_eq_nil_iff.2 (by simp [ht])
    | true => exact List.filter_eq_self.2 (by simp [ht])
  rw [hs, List.filter_append, List.filter_append, none, List.append_nil, inputs]

theorem getLast?_ofGraph (g : FilterGraph) (time : Option String) (outputName : String) :
    (ofGraph g time outputName).getLast? = some outputName := List.getLast?_concat ..

end Command

/-! ## Graphs -/

section
variable {filters : List VideoFilter} {overlay : Option Overlay}

open IsUnmarked in
theorem Overlay.Numeric.sealed {o : Overlay} (h : o.Numeric) :
    ∀ filter ∈ o.imageFilters ++ o.joinFilters, Sealed graphMarks filter.toList := by
  refine List.forall_mem_cons.2 ⟨(of_all (by decide)).sealed, List.forall_mem_cons.2
    ⟨IsUnmarked.sealed ?_, List.forall_mem_cons.2 ⟨IsUnmarked.sealed ?_, List.forall_mem_cons.2
    ⟨IsUnmarked.sealed ?_, nofun⟩⟩⟩⟩
  · exact (of_all (by decide)).append (of_numeral h.opacity)
  · exact (((of_all (by decide)).append (of_numeral h.scale)).append (of_all (by decide))).append
      (of_numeral h.scale)
  · exact ((((of_all (by decide)).append (of_numeral h.x)).append (of_all (by decide))).append
      (of_numeral h.y)).append (of_all (by decide))

open IsUnmarked in
theorem chainsFor_readable (overlay : Option Overlay) (hf : ∀ f ∈ filters, f.Numeric)
    (ho : ∀ o ∈ overlay, o.Numeric) (nonempty : chainText filters ≠ "") :
    ∀ c ∈ chainsFor filters overlay, c.Readable := by
  have video : ∀ text ∈ filters.map VideoFilter.write, Sealed graphMarks text.toList := by
    intro text mem
    obtain ⟨f, hm, rfl⟩ := List.mem_map.1 mem
    exact VideoFilter.sealed_write (hf f hm)
  have joined : [','].intercalate ((filters.map VideoFilter.write).map String.toList) ≠ [] := by
    unfold chainText at nonempty
    rw [Ne, ← String.toList_eq_nil_iff, String.toList_intercalate] at nonempty
    exact nonempty
  cases overlay with
  | none => exact List.forall_mem_singleton.2 ⟨nofun, video, nofun, joined⟩
  | some o =>
    have own := (ho o rfl).sealed
    refine List.forall_mem_cons.2 ⟨⟨?_, video, ?_, joined⟩, List.forall_mem_cons.2
      ⟨⟨?_, fun f hf => own f (List.mem_append_left _ hf), ?_, ?_⟩, List.forall_mem_singleton.2
      ⟨?_, fun f hf => own f (List.mem_append_right _ hf), ?_, ?_⟩⟩⟩
    · exact List.forall_mem_singleton.2 (of_all (by decide))
    · exact List.forall_mem_singleton.2 (of_all (by decide))
    · exact List.forall_mem_singleton.2 (of_all (by decide))
    · exact List.forall_mem_singleton.2 (of_all (by decide))
    · simp [Overlay.imageFilters]
    · exact List.forall_mem_cons.2 ⟨of_all (by decide), List.forall_mem_singleton.2 (of_all (by decide))⟩
    · exact List.forall_mem_singleton.2 (of_all (by decide))
    · simp [Overlay.joinFilters, toString]

variable {chain : String}

theorem Overlay.baseChain_eq (nonempty : chain ≠ "") : baseChain chain = "[0:v]" ++ chain ++ "[v0]" := by
  unfold baseChain
  rw [if_neg (by simpa using nonempty)]

theorem baseChain_toList (nonempty : chain ≠ "") : (Overlay.baseChain chain).toList =
    writeLabels ["0:v"] ++ (chain.toList ++ writeLabels ["v0"]) := by
  rw [Overlay.baseChain_eq nonempty, String.toList_append, String.toList_append, List.append_assoc]
  rfl

theorem imageChain_toList (o : Overlay) : o.imageChain.toList =
    writeLabels ["1:v"] ++ ([','].intercalate (o.imageFilters.map String.toList) ++ writeLabels ["wm"]) := by
  unfold Overlay.imageChain Overlay.imageFilters writeLabels
  simp only [List.map_cons, List.map_nil, toString, List.intercalate_cons_cons,
    List.intercalate_singleton, String.toList_append, List.append_assoc, List.flatMap_cons,
    List.flatMap_nil]
  simp

theorem joinChain_toList (o : Overlay) : o.joinChain.toList =
    writeLabels ["v0", "wm"] ++ ([','].intercalate (o.joinFilters.map String.toList) ++
      writeLabels ["v"]) := by
  unfold Overlay.joinChain Overlay.joinFilters writeLabels
  simp only [List.map_cons, List.map_nil, toString, List.intercalate_singleton, String.toList_append,
    List.append_assoc, List.flatMap_cons, List.flatMap_nil]
  simp

theorem chainText_toList (filters : List VideoFilter) : (chainText filters).toList =
    [','].intercalate ((filters.map VideoFilter.write).map String.toList) := String.toList_intercalate

/-- The texts of the chains if there is an overlay. -/
theorem chainTexts_written (nonempty : chainText filters ≠ "") (o : Overlay) :
    (o.chainTexts (chainText filters)).map String.toList =
      (chainsFor filters (some o)).map Chain.write := by
  unfold Overlay.chainTexts
  rw [List.map_cons, List.map_cons, List.map_cons, baseChain_toList nonempty, chainText_toList,
    imageChain_toList, joinChain_toList]
  rfl

/-- The text of a simple graph is split into its filters. -/
theorem simple_read (hf : ∀ f ∈ filters, f.Numeric) (nonempty : chainText filters ≠ "") :
    splitOutside ',' (chainText filters) = filters.map VideoFilter.write ∧
      readGraph (chainText filters) = some (chainsFor filters none) := by
  have readable := chainsFor_readable none hf nofun nonempty
  have video := (readable _ (.head _)).filters
  constructor
  · refine splitOutside_intercalate (by decide) (fun none => nonempty ?_) ?_
    · unfold chainText
      rw [none]
      rfl
    · exact fun text mem => (video text mem).mono (by simp [graphMarks])
  · have written : [chainText filters].map String.toList =
        (chainsFor filters none).map Chain.write := by
      rw [List.map_singleton, chainText_toList]
      exact congrArg ([·]) (List.append_nil _).symm
    rw [← readGraph_intercalate written (List.cons_ne_nil _ _) readable, String.intercalate_singleton]

/-- The text of a graph with an overlay is split into its three chains. -/
theorem overlay_read {o : Overlay} (hf : ∀ f ∈ filters, f.Numeric) (ho : o.Numeric)
    (nonempty : chainText filters ≠ "") :
    splitOutside ';' (";".intercalate (o.chainTexts (chainText filters))) =
        o.chainTexts (chainText filters) ∧
      readGraph (";".intercalate (o.chainTexts (chainText filters))) =
        some (chainsFor filters (some o)) := by
  have readable := chainsFor_readable (some o) hf (by rintro _ ⟨⟩; exact ho) nonempty
  have written := chainTexts_written nonempty o
  exact ⟨splitOutside_intercalate (by decide) (List.cons_ne_nil _ _) (texts_sealed written readable),
    readGraph_intercalate written (List.cons_ne_nil _ _) readable⟩

/-- A graph that was put together from filters and, if there is one, an overlay. -/
structure FilterGraph.Assembled (filters : List VideoFilter) (overlay : Option Overlay)
    (g : FilterGraph) : Prop where
  video : g.video = filters.map VideoFilter.write
  chains : g.chains = overlay.elim [] (·.chainTexts g.videoChain)
  output : g.videoOutput = overlay.map fun _ => "[v]"
  /-- The image is an input of its own. -/
  inputs : g.inputs.length = overlay.toList.length + 1

end

variable {inputName outputName : String} {s : Settings} {context : RenderContext} {g : FilterGraph}
  {x : Binary64.Finite} {raw : Raw} {hasImage : Bool}

theorem videoFilters_numeric (h : s.Clean) (y : Binary64) :
    ∃ picture fades, s.pictureFilters = .ok picture ∧ s.fadeFilters (.real y) = .ok fades ∧
      ∀ f ∈ picture ++ fades ++ [VideoFilter.evenSize], f.Numeric := by
  obtain ⟨d, -, numeric, -, picture, hp, before, after, rfl, hb, ha⟩ := Settings.pictureFilters_numeric h
  obtain ⟨fades, hf, measured⟩ := Settings.fadeFilters_numeric h.domain y
  have text : ∀ f ∈ (if s.text.content.isEmpty then [] else [VideoFilter.text d]), f.Numeric := by
    split
    · exact nofun
    · exact List.forall_mem_singleton.2 numeric
  refine ⟨_, fades, hp, hf, List.forall_mem_append.2 ⟨List.forall_mem_append.2
    ⟨List.forall_mem_append.2 ⟨List.forall_mem_append.2 ⟨fun f hf => (hb f hf).1, text⟩,
      fun f hf => (ha f hf).1⟩, fun f hf => (measured f hf).1⟩, List.forall_mem_singleton.2 trivial⟩⟩

theorem FilterGraph.build_assembled (inputName : String) (h : s.Clean) {y : Binary64}
    (length : context.duration = .real y) :
    ∃ filters overlay g, s.videoFilters context.duration = .ok filters ∧
      Overlay.ofContext s context = .ok overlay ∧ build inputName s context = .ok g ∧
      g.Assembled filters overlay ∧ (∀ f ∈ filters, f.Numeric) ∧ ∀ o ∈ overlay, o.Numeric := by
  obtain ⟨picture, fades, hp, hf, numeric⟩ := videoFilters_numeric h y
  obtain ⟨tempo, ht, -⟩ := Settings.tempoFilters_numeric h.domain
  obtain ⟨o, ho, measured⟩ := Overlay.ofSettings_numeric h.domain
  have filters : s.videoFilters context.duration =
      .ok (picture ++ fades ++ [VideoFilter.evenSize]) := by
    unfold Settings.videoFilters
    rw [length, hp, hf]
    rfl
  unfold Overlay.ofContext build
  rw [length, hp, hf, ht, ho]
  cases imageInput? s context with
  | none => exact ⟨_, none, _, length ▸ filters, rfl, rfl, ⟨rfl, rfl, rfl, rfl⟩, numeric, nofun⟩
  | some name =>
    refine ⟨_, some o, _, length ▸ filters, rfl, rfl, ⟨rfl, rfl, rfl, rfl⟩, numeric, ?_⟩
    rintro _ ⟨⟩
    exact measured

namespace Command

variable {filters : List VideoFilter} {overlay : Option Overlay} {time : Option String} {host : Host}

/-- The switches that a graph is given by. -/
theorem videoArguments_assembled (assembled : g.Assembled filters overlay)
    (nonempty : g.videoChain ≠ "") : videoArguments g = spread (overlay.elim [("-vf", g.videoChain)]
      fun _ => [("-filter_complex", g.complexText), ("-map", "[v]"), ("-map", "0:a?")]) := by
  have chains := assembled.chains
  have output := assembled.output
  unfold videoArguments FilterGraph.isComplex
  cases overlay with
  | none =>
    have video : g.video.isEmpty = false := by
      cases hv : g.video with
      | nil => exact absurd (congrArg (",".intercalate ·) hv) nonempty
      | cons f rest => rfl
    rw [chains, video]
    rfl
  | some o =>
    rw [chains, output]
    rfl

/-- What the switches say. -/
theorem values_assembled (time : Option String) (outputName : String)
    (assembled : g.Assembled filters overlay) (nonempty : g.videoChain ≠ "") :
    graphs (ofGraph g time outputName) = overlay.elim [("-vf", g.videoChain)]
      (fun _ => [("-filter_complex", g.complexText)]) ∧
    values "-i" (ofGraph g time outputName) = g.inputs ∧
    values "-map" (ofGraph g time outputName) = overlay.elim [] fun _ => ["[v]", "0:a?"] := by
  have video := videoArguments_assembled assembled nonempty
  have graph := filter_switches time outputName video
    (show otherSwitches.all (fun name => !isGraphSwitch name) = true by decide)
  have input := filter_switches time outputName video
    (show otherSwitches.all (fun name => !(name == "-i")) = true by decide)
  have map := filter_switches time outputName video
    (show otherSwitches.all (fun name => !(name == "-map")) = true by decide)
  unfold graphs values
  rw [graph, input, map]
  have names : (g.inputs.map ("-i", ·)).map Prod.snd = g.inputs := by simp
  cases overlay with
  | none => exact ⟨rfl, (List.append_nil _).symm ▸ names, rfl⟩
  | some o => exact ⟨rfl, (List.append_nil _).symm ▸ names, rfl⟩

theorem wellFormed_ofGraph (assembled : g.Assembled filters overlay) (hf : ∀ f ∈ filters, f.Numeric)
    (ho : ∀ o ∈ overlay, o.Numeric) (nonempty : g.videoChain ≠ "") :
    WellFormed g (chainsFor filters overlay) outputName (ofGraph g time outputName) := by
  obtain ⟨graph, inputs, maps⟩ := values_assembled time outputName assembled nonempty
  have chain : g.videoChain = chainText filters :=
    congrArg (",".intercalate ·) assembled.video
  have chains := assembled.chains
  have count := assembled.inputs
  rw [chain] at nonempty chains
  have complex : g.isComplex = overlay.isSome := by
    unfold FilterGraph.isComplex
    rw [chains]
    cases overlay <;> rfl
  cases overlay with
  | none =>
    obtain ⟨pieces, read⟩ := simple_read hf nonempty
    refine ⟨⟨g.videoChain, ?_, ?_, ?_⟩, ?_, ?_, inputs, nofun, maps, getLast?_ofGraph ..⟩
    · rw [graph, complex]
      rfl
    · rw [complex, assembled.video, chain]
      exact pieces
    · rw [chain, read]
    · rw [complex]
      rfl
    · rw [complex]
      rfl
  | some o =>
    obtain ⟨pieces, read⟩ := overlay_read hf (ho o rfl) nonempty
    have text : g.complexText = ";".intercalate (o.chainTexts (chainText filters)) :=
      congrArg (";".intercalate ·) chains
    refine ⟨⟨g.complexText, ?_, ?_, ?_⟩, ?_, ?_, inputs, ?_, maps, getLast?_ofGraph ..⟩
    · rw [graph, complex]
      rfl
    · rw [complex, chains, text]
      exact pieces
    · rw [text, read]
    · rw [complex]
      rfl
    · rw [complex]
      rfl
    · rw [inputs, count]
      show ∀ label ∈ ["0:v", "1:v", "v0", "wm"], ∀ k ∈ padInput? label, k < 2
      decide

/-- A command is compiled if there is a graph and, where the time is needed, the calendar has it. -/
theorem compile_run (outputName : String) (built : FilterGraph.build inputName s context = .ok g)
    (clock : needsTime s context = true → host.now.isDated = true) : ∃ time,
      ((compile inputName outputName s context).run host).1 = .returned (ofGraph g time outputName) := by
  have now : ∃ now, (if needsTime s context then host.currentTime else .ok "") = .ok now := by
    split
    · rename_i needed
      exact ⟨_, if_pos (clock needed)⟩
    · exact ⟨"", rfl⟩
  obtain ⟨now, hnow⟩ := now
  have graph : (buildGraph inputName s context).run host =
      (.returned g, ((showGraph g).run host).2) := by
    unfold buildGraph
    rw [built]
    rfl
  have same : ((showGraph g).run host).2.currentTime = host.currentTime := rfl
  refine ⟨timestamp s context now, ?_⟩
  unfold compile renderGraph
  rw [Action.run_bind, graph]
  dsimp only
  rw [Action.run_bind, Action.run_get]
  dsimp only
  rw [Action.run_bind, same, hnow]
  rfl

/-- The command for settings that were sanitized is compiled and well-formed, for any text, any names and any
finite length of the source; only a clock beyond the calendar could keep it from being compiled. -/
theorem compile_wellFormed (inputName outputName : String) (host : Host)
    (sanitized : Settings.sanitize raw hasImage = .ok s)
    (length : context.duration = .real (.finite x))
    (clock : needsTime s context = true → host.now.isDated = true) :
    ∃ filters overlay g arguments, s.videoFilters context.duration = .ok filters ∧
      Overlay.ofContext s context = .ok overlay ∧ FilterGraph.build inputName s context = .ok g ∧
      g.Assembled filters overlay ∧
      ((compile inputName outputName s context).run host).1 = .returned arguments ∧
      WellFormed g (chainsFor filters overlay) outputName arguments := by
  obtain ⟨filters, overlay, g, made, laid, built, assembled, hf, ho⟩ :=
    FilterGraph.build_assembled inputName (Settings.clean_of_sanitized sanitized) length
  obtain ⟨time, run⟩ := compile_run outputName built clock
  have nonempty : g.videoChain ≠ "" := by
    intro empty
    have head := (FilterGraph.build_built built).video
    rw [empty] at head
    cases head
  exact ⟨filters, overlay, g, _, made, laid, built, assembled, run,
    wellFormed_ofGraph assembled hf ho nonempty⟩

/-- An input with marks of all kinds in its text, and an image. -/
def markedEntries : Raw := .value (.map [("watermark_text", .text "a,b;[v]=c:\\'\n"),
  ("watermark_image_enabled", .bool true)])

/-- A source of ten seconds, with an image for it. -/
def imageContext : RenderContext where
  duration := .real (.finite ⟨false, 5629499534213120, -49, by decide⟩)
  imageName := some "wm.png"

theorem wellFormed_of_markedEntries : ∃ s g chains arguments,
    Settings.sanitize markedEntries true = .ok s ∧
    ((compile "input.mp4" "output.mp4" s imageContext).run {}).1 = .returned arguments ∧
    chains.length = 3 ∧ WellFormed g chains "output.mp4" arguments := by
  obtain ⟨s, hs, enabled⟩ : ∃ s, Settings.sanitize markedEntries true = .ok s ∧
      s.image.enabled = true := ⟨_, rfl, rfl⟩
  obtain ⟨filters, overlay, g, arguments, -, laid, -, -, run, wellFormed⟩ :=
    compile_wellFormed "input.mp4" "output.mp4" {} hs (show imageContext.duration = _ from rfl)
      fun _ => by decide
  refine ⟨s, g, _, arguments, hs, run, ?_, wellFormed⟩
  have image : FilterGraph.imageInput? s imageContext = some "wm.png" := by
    unfold FilterGraph.imageInput?
    rw [enabled]
    rfl
  unfold Overlay.ofContext at laid
  rw [image] at laid
  cases overlay with
  | none =>
    obtain ⟨o, -, laid⟩ := Number.bind_ok laid
    cases laid
  | some o => rfl

end Command

end VideoExport
