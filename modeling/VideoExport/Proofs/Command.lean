import VideoExport.Command
import VideoExport.Proofs.Evolution
import VideoExport.Proofs.Progress

/-!
# The arguments of a command

A command names its inputs and its output. All other arguments are switches, filters and metadata, which
do not begin as the names of entries do (`Command.compile_arguments`). What follows `-i` are the inputs, in
order (`Command.compile_inputs`).
-/

set_option autoImplicit false

namespace VideoExport

open Number (bind_ok)

variable {inputName outputName : String} {s : Settings} {context : RenderContext} {g : FilterGraph}

/-- The letters with which the names of entries begin. -/
def entryLetters : List Char := ['i', 'o', 'w']

/-- A text that does not begin as the names of entries do. -/
def IsBare (text : String) : Prop := ∀ c ∈ text.toList.head?, c ∉ entryLetters

theorem isBare_of_head {text : String} {c : Char} (h : text.toList.head? = some c)
    (hc : c ∉ entryLetters) : IsBare text := by
  intro d hd
  rw [h] at hd
  exact Option.some.inj hd ▸ hc

theorem head?_append {a b : String} {c : Char} (h : a.toList.head? = some c) :
    (a ++ b).toList.head? = some c := by
  rw [String.toList_append, List.head?_append, h]
  rfl

theorem head?_intercalate {separator first : String} {rest : List String} {c : Char}
    (h : first.toList.head? = some c) :
    (separator.intercalate (first :: rest)).toList.head? = some c := by
  cases rest with
  | nil => rwa [String.intercalate_singleton]
  | cons second rest =>
    rw [String.intercalate_cons_cons]
    exact head?_append (head?_append h)

namespace FilterGraph

/-- What is known of a graph that was built: its inputs, and with what its texts begin. -/
structure Built (inputName : String) (context : RenderContext) (g : FilterGraph) : Prop where
  inputs : ∀ name ∈ g.inputs, name = inputName ∨ context.imageName = some name
  video : g.videoChain.toList.head? = some 'e'
  audio : g.audio ≠ [] → g.audioChain.toList.head? = some 'a'
  complex : g.chains ≠ [] → g.complexText.toList.head? = some '['
  output : g.videoOutput = none ∨ g.videoOutput = some "[v]"

/-- The filters of a picture begin with its colours. -/
theorem pictureFilters_head {filters : List VideoFilter} (h : s.pictureFilters = .ok filters) :
    ∃ b c d rest, filters = .color b c d :: rest := by
  unfold Settings.pictureFilters at h
  obtain ⟨color, hcolor, h⟩ := bind_ok h
  obtain ⟨_, -, h⟩ := bind_ok h
  obtain ⟨_, -, h⟩ := bind_ok h
  obtain ⟨_, -, h⟩ := bind_ok h
  obtain ⟨_, -, h⟩ := bind_ok h
  unfold Settings.colorFilter at hcolor
  obtain ⟨b, -, hcolor⟩ := bind_ok hcolor
  obtain ⟨c, -, hcolor⟩ := bind_ok hcolor
  obtain ⟨d, -, hcolor⟩ := bind_ok hcolor
  cases hcolor
  cases h
  exact ⟨b, c, d, _, rfl⟩

/-- The inputs of a graph are the source and the image, if there is one that the settings use. -/
theorem build_inputs (h : build inputName s context = .ok g) :
    g.inputs = inputName :: (imageInput? s context).toList := by
  unfold build at h
  obtain ⟨picture, -, h⟩ := bind_ok h
  obtain ⟨fades, -, h⟩ := bind_ok h
  obtain ⟨tempo, -, h⟩ := bind_ok h
  cases hi : imageInput? s context with
  | some name =>
    rw [hi] at h
    obtain ⟨o, -, h⟩ := bind_ok h
    cases h
    rfl
  | none =>
    rw [hi] at h
    cases h
    rfl

theorem imageInput?_some {name : String} (h : imageInput? s context = some name) :
    context.imageName = some name := by
  unfold imageInput? at h
  split at h
  · exact (Option.filter_eq_some_iff.1 h).1
  · cases h

theorem build_built (h : build inputName s context = .ok g) : g.Built inputName context := by
  have inputs : ∀ name ∈ g.inputs, name = inputName ∨ context.imageName = some name := by
    rw [build_inputs h]
    intro name hn
    rcases List.mem_cons.1 hn with rfl | hn
    · exact .inl rfl
    · exact .inr (imageInput?_some (Option.mem_toList.1 hn))
  unfold build at h
  obtain ⟨picture, hpicture, h⟩ := bind_ok h
  obtain ⟨fades, -, h⟩ := bind_ok h
  obtain ⟨tempo, -, h⟩ := bind_ok h
  obtain ⟨b, c, d, rest, rfl⟩ := pictureFilters_head hpicture
  have color : (VideoFilter.color b c d).write.toList.head? = some 'e' :=
    head?_append (head?_append (head?_append (head?_append (head?_append rfl))))
  have sound : tempo.map TempoFilter.write ≠ [] →
      (",".intercalate (tempo.map TempoFilter.write)).toList.head? = some 'a' := by
    cases tempo with
    | nil => exact fun h => absurd rfl h
    | cons first others =>
      have written : first.write.toList.head? = some 'a' := head?_append rfl
      exact fun _ => head?_intercalate written
  split at h
  · rename_i name hi
    obtain ⟨o, -, h⟩ := bind_ok h
    cases h
    refine ⟨inputs, head?_intercalate color, sound, fun _ => ?_, .inr rfl⟩
    exact head?_intercalate (head?_append (head?_append rfl))
  · cases h
    exact ⟨inputs, head?_intercalate color, sound, fun h => absurd rfl h, .inl rfl⟩

end FilterGraph

namespace Command

/-- The arguments of a command between its inputs and its output. -/
def otherArguments (g : FilterGraph) (timestamp : Option String) : List String :=
  videoArguments g ++ audioArguments g
    ++ (match timestamp with
      | some t => metadataArguments t
      | none => [])
    ++ encodingArguments

theorem ofGraph_eq (g : FilterGraph) (timestamp : Option String) (outputName : String) :
    ofGraph g timestamp outputName =
      (g.inputs.flatMap fun name => ["-i", name]) ++ (otherArguments g timestamp ++ [outputName]) := by
  cases timestamp <;> simp [ofGraph, otherArguments]

/-- An argument that does not begin as names of entries do, and announces no input. -/
structure IsInert (text : String) : Prop where
  bare : IsBare text
  notInput : text ≠ "-i"

theorem IsInert.value {text : String} {c : Char} (h : text.toList.head? = some c)
    (hc : c ∉ '-' :: entryLetters) : IsInert text := by
  refine ⟨isBare_of_head h fun hm => hc (.tail _ hm), ?_⟩
  rintro rfl
  cases h
  exact hc (.head _)

theorem IsInert.switch {text : String} (h : text.toList.head? = some '-') (ne : text ≠ "-i") :
    IsInert text := ⟨isBare_of_head h (by decide), ne⟩

theorem videoArguments_inert (built : g.Built inputName context) :
    ∀ a ∈ videoArguments g, IsInert a := by
  intro a ha
  unfold videoArguments at ha
  split at ha
  · rename_i complex
    have chains : g.chains ≠ [] := by simpa [FilterGraph.isComplex] using complex
    simp only [List.cons_append, List.nil_append, List.mem_cons, List.not_mem_nil, or_false] at ha
    rcases ha with rfl | rfl | rfl | rfl | rfl | rfl
    · exact .switch rfl (by decide)
    · exact .value (built.complex chains) (by decide)
    · exact .switch rfl (by decide)
    · rcases built.output with h | h <;> rw [h]
      · exact ⟨fun _ => nofun, by decide⟩
      · exact .value rfl (by decide)
    · exact .switch rfl (by decide)
    · exact .value rfl (by decide)
  · split at ha
    · exact absurd ha List.not_mem_nil
    · simp only [List.mem_cons, List.not_mem_nil, or_false] at ha
      rcases ha with rfl | rfl
      · exact .switch rfl (by decide)
      · exact .value built.video (by decide)

theorem audioArguments_inert (built : g.Built inputName context) :
    ∀ a ∈ audioArguments g, IsInert a := by
  intro a ha
  unfold audioArguments at ha
  split at ha
  · exact absurd ha List.not_mem_nil
  · rename_i heard
    simp only [List.mem_cons, List.not_mem_nil, or_false] at ha
    rcases ha with rfl | rfl
    · exact .switch rfl (by decide)
    · exact .value (built.audio (by simpa using heard)) (by decide)

theorem metadataArguments_inert (time : String) : ∀ a ∈ metadataArguments time, IsInert a := by
  intro a ha
  simp only [metadataArguments, List.mem_cons, List.not_mem_nil, or_false] at ha
  rcases ha with rfl | rfl | rfl | rfl | rfl | rfl
  · exact .switch rfl (by decide)
  · exact .switch rfl (by decide)
  · exact .switch rfl (by decide)
  · exact .value (head?_append rfl) (by decide)
  · exact .switch rfl (by decide)
  · exact .value (head?_append rfl) (by decide)

theorem encodingArguments_inert : ∀ a ∈ encodingArguments, IsInert a := by
  intro a ha
  simp only [encodingArguments, List.mem_cons, List.not_mem_nil, or_false] at ha
  rcases ha with rfl | rfl | rfl | rfl | rfl | rfl
  · exact .switch rfl (by decide)
  · exact .value rfl (by decide)
  · exact .switch rfl (by decide)
  · exact .value rfl (by decide)
  · exact .switch rfl (by decide)
  · exact .value rfl (by decide)

/-- Between the inputs and the output no argument begins as names of entries do, or announces an input. -/
theorem otherArguments_inert (built : g.Built inputName context) (timestamp : Option String) :
    ∀ a ∈ otherArguments g timestamp, IsInert a := by
  intro a ha
  unfold otherArguments at ha
  simp only [List.mem_append] at ha
  rcases ha with ((ha | ha) | ha) | ha
  · exact videoArguments_inert built a ha
  · exact audioArguments_inert built a ha
  · cases timestamp with
    | none => exact absurd ha List.not_mem_nil
    | some time => exact metadataArguments_inert time a ha
  · exact encodingArguments_inert a ha

/-- An argument of a command names an input, the image or the output, or it does not begin as names of
entries do. -/
theorem ofGraph_arguments (built : g.Built inputName context) (timestamp : Option String) :
    ∀ a ∈ ofGraph g timestamp outputName,
      a = inputName ∨ a = outputName ∨ context.imageName = some a ∨ IsBare a := by
  intro a ha
  rw [ofGraph_eq] at ha
  simp only [List.mem_append, List.mem_flatMap, List.mem_cons, List.not_mem_nil, or_false] at ha
  rcases ha with ⟨name, hn, rfl | rfl⟩ | ha | rfl
  · exact .inr (.inr (.inr (isBare_of_head rfl (by decide))))
  · exact (built.inputs a hn).imp id fun h => .inr (.inl h)
  · exact .inr (.inr (.inr (otherArguments_inert built timestamp a ha).bare))
  · exact .inr (.inl rfl)

/-! ## The inputs of a command -/

/-- The arguments that stand right after one that is `name`. -/
def following (name : String) : List String → List String
  | a :: b :: rest =>
    if a = name then b :: following name (b :: rest) else following name (b :: rest)
  | _ => []

theorem following_cons_of_ne {name a : String} (h : a ≠ name) (rest : List String) :
    following name (a :: rest) = following name rest := by
  cases rest with
  | nil => rfl
  | cons b rest => exact if_neg h

theorem following_of_forall_ne {name : String} :
    ∀ {arguments : List String}, (∀ a ∈ arguments, a ≠ name) → following name arguments = []
  | [], _ => rfl
  | a :: rest, h => by
    rw [following_cons_of_ne (h a (.head _))]
    exact following_of_forall_ne fun b hb => h b (.tail _ hb)

/-- What follows a switch, in arguments that begin with the switch before each of some values. -/
theorem following_flatMap {name : String} {rest : List String} (hrest : ∀ a ∈ rest, a ≠ name) :
    ∀ {values : List String}, (∀ a ∈ values, a ≠ name) →
      following name ((values.flatMap fun a => [name, a]) ++ rest) = values
  | [], _ => following_of_forall_ne hrest
  | a :: values, h => by
    show following name (name :: a :: ((values.flatMap fun a => [name, a]) ++ rest)) = _
    rw [following, if_pos rfl, following_cons_of_ne (h a (.head _)),
      following_flatMap hrest fun b hb => h b (.tail _ hb)]

/-- A command that was compiled is that of a graph of the settings. -/
theorem compile_eq {h h' : Host} {arguments : List String}
    (ran : (compile inputName outputName s context).run h = (.returned arguments, h')) :
    ∃ g now, FilterGraph.build inputName s context = .ok g ∧
      arguments = ofGraph g (timestamp s context now) outputName := by
  obtain ⟨g, _, hg, ran⟩ := Action.bind_returned ran
  obtain ⟨g', _, built, hg⟩ := Action.bind_returned hg
  obtain ⟨_, _, -, hg⟩ := Action.bind_returned hg
  cases hg
  obtain ⟨_, _, -, ran⟩ := Action.bind_returned ran
  obtain ⟨now, _, -, ran⟩ := Action.bind_returned ran
  obtain ⟨_, _, -, ran⟩ := Action.bind_returned ran
  cases ran
  exact ⟨g, now, Action.ofNumeric_returned built, rfl⟩

/-- Compiling a command shows the graph and the arguments in the log. -/
theorem follows_compile_of {E : Evolution Host}
    (logged : ∀ source ∈ ["GraphBuilder", "CliBuilder"], ∀ message,
      (Host.log .debug source message).Follows E) :
    (compile inputName outputName s context).Follows E := by
  refine .bind (.bind (.ofNumeric _) fun _ => .bind (logged _ (.head _) _) fun _ => .pure _)
    fun _ => .bind .get fun _ => .bind (.ofExcept _) fun _ =>
      .bind (logged _ (.tail _ (.head _)) _) fun _ => .pure _

/-- The last argument of a command is the name of its output. -/
theorem compile_getLast {h h' : Host} {arguments : List String}
    (ran : (compile inputName outputName s context).run h = (.returned arguments, h')) :
    arguments.getLast? = some outputName := by
  obtain ⟨g, now, -, rfl⟩ := compile_eq ran
  unfold ofGraph
  rw [List.getLast?_append]
  rfl

theorem compile_arguments {h h' : Host} {arguments : List String}
    (ran : (compile inputName outputName s context).run h = (.returned arguments, h')) :
    ∀ a ∈ arguments, a = inputName ∨ a = outputName ∨ context.imageName = some a ∨ IsBare a := by
  obtain ⟨g, now, built, rfl⟩ := compile_eq ran
  exact ofGraph_arguments (FilterGraph.build_built built) _

/-- What follows `-i` in a command are the source and the image, if there is one that the settings use. -/
theorem compile_inputs {h h' : Host} {arguments : List String}
    (ran : (compile inputName outputName s context).run h = (.returned arguments, h'))
    (input : inputName ≠ "-i") (output : outputName ≠ "-i")
    (image : ∀ name, context.imageName = some name → name ≠ "-i") :
    following "-i" arguments = inputName :: (FilterGraph.imageInput? s context).toList := by
  obtain ⟨g, now, built, rfl⟩ := compile_eq ran
  rw [ofGraph_eq, ← FilterGraph.build_inputs built]
  refine following_flatMap (List.forall_mem_append.2 ⟨fun a ha => ?_, ?_⟩) fun a ha => ?_
  · exact (otherArguments_inert (FilterGraph.build_built built) _ a ha).notInput
  · exact List.forall_mem_singleton.2 output
  · rcases (FilterGraph.build_built built).inputs a ha with rfl | h
    · exact input
    · exact image a h

end Command

end VideoExport
