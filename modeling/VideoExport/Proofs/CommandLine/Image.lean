import VideoExport.Proofs.CommandLine.Session
import VideoExport.Proofs.Exporter.Settings
import VideoExport.Proofs.Graph.Stages
import VideoExport.Proofs.Job.Staged
import VideoExport.Proofs.Settings.Reading

/-!
# The image that is given on the command line

To attach an image turns the image watermark on (`Exporter.attachImage_enabled`), and to replace the settings
afterwards turns it to what the new ones say. What `prepare` leaves on follows from this order (`prepare_alone`,
`prepare_with_settings`), and it decides the command of every job (`image_given`): `Exporter.Starts.composition`
relates the settings of the session to the settings of the job, and `Job.Executes.image` the settings of the job
to the inputs and the graph of its command.
-/

set_option autoImplicit false

namespace VideoExport

open Number (bind_ok)

/-! ## Commands with an image -/

variable {s : Settings} {context : RenderContext} {inputName outputName : String} {g : FilterGraph}

/-- A graph is assembled with an overlay just if an image is used. -/
theorem FilterGraph.assembled_of_build (built : build inputName s context = .ok g) :
    ∃ filters overlay, overlay.isSome = (imageInput? s context).isSome ∧ g.Assembled filters overlay := by
  unfold build at built
  obtain ⟨picture, hp, built⟩ := bind_ok built
  obtain ⟨fades, hf, built⟩ := bind_ok built
  obtain ⟨tempo, ht, built⟩ := bind_ok built
  split at built
  · rename_i name image
    obtain ⟨o, -, built⟩ := bind_ok built
    cases built
    exact ⟨_, some o, by rw [image]; rfl, ⟨rfl, rfl, rfl, rfl⟩⟩
  · rename_i image
    cases built
    exact ⟨_, none, by rw [image]; rfl, ⟨rfl, rfl, rfl, rfl⟩⟩

/-- What a compiled command takes as its inputs, and how its graph is given. -/
theorem Command.compile_image {arguments : List String} {h h' : Host}
    (compiled : (compile inputName outputName s context).run h = (.returned arguments, h')) :
    values "-i" arguments = inputName :: (FilterGraph.imageInput? s context).toList ∧
      (graphs arguments).map Prod.fst =
        [if (FilterGraph.imageInput? s context).isSome then "-filter_complex" else "-vf"] := by
  obtain ⟨g, time, built, rfl⟩ := compile_eq compiled
  obtain ⟨filters, overlay, image, assembled⟩ := FilterGraph.assembled_of_build built
  have nonempty := (FilterGraph.build_built built).videoChain_ne_empty
  obtain ⟨graph, inputs, -⟩ := values_assembled (timestamp s context time) outputName assembled nonempty
  refine ⟨inputs.trans (FilterGraph.build_inputs built), ?_⟩
  rw [graph, ← image]
  cases overlay <;> rfl

namespace Job

variable {σ κ : Type} {e : Engine σ} {probe : DurationProbe κ} {r : JobRequest} {j k : Job σ κ}

/-- The command of a run has an image just if its settings use one and one is attached. -/
theorem Executes.image {arguments : List String} (h : Executes e probe r s j arguments k) :
    Command.values "-i" arguments = (namesOf r s).staged ∧ (Command.graphs arguments).map Prod.fst =
      [if (imageOf r s).isSome then "-filter_complex" else "-vf"] := by
  obtain ⟨d, b, -, led⟩ := h
  obtain ⟨_, _, -, led⟩ := Action.bind_returned led
  obtain ⟨_, _, -, led⟩ := Action.bind_returned led
  obtain ⟨arguments', _, staged, led⟩ := Action.bind_returned led
  obtain ⟨_, _, -, led⟩ := Action.bind_returned led
  cases led
  obtain ⟨_, _, -, staged⟩ := Action.bind_returned staged
  obtain ⟨_, _, -, staged⟩ := Action.bind_returned staged
  obtain ⟨_, _, -, staged⟩ := Action.bind_returned staged
  obtain ⟨_, _, -, staged⟩ := Action.bind_returned staged
  obtain ⟨_, compiled, -⟩ := host_eq staged
  obtain ⟨inputs, graph⟩ := Command.compile_image compiled
  rw [imageInput?_namesOf rfl] at inputs graph
  have named : (namesOf r s).image.isSome = (imageOf r s).isSome := by
    rcases stagings_cases (r := r) (s := s) with ⟨none, unnamed, -⟩ | ⟨m, name, some, named, -⟩
    · rw [none, unnamed]
      rfl
    · rw [some, named]
      rfl
  exact ⟨inputs, named ▸ graph⟩

end Job

/-- A change that switches the image on has it on, if there is one. -/
theorem Settings.imageEnabled_of_change {t : Settings} {on hasImage : Bool}
    (h : change s.record [("watermark_image_enabled", .bool on)] hasImage = .ok t) :
    t.image.enabled = (hasImage && on) := by
  have switched : (Draft.ofEntries (merged s.record [("watermark_image_enabled", .bool on)])).switch
      .imageEnabled false = on := rfl
  obtain ⟨_, -, h⟩ := bind_ok h
  cases updated : update s.record [("watermark_image_enabled", .bool on)] hasImage <;>
    rw [updated] at h <;> cases h
  obtain ⟨-, -, enabled⟩ := ofDraft_others updated
  rw [enabled, switched]

namespace Exporter

variable {σ κ : Type} {e : Engine σ} {x : Exporter σ κ} {op : Operation κ} {r : JobRequest}
  {j k : Job σ (Desk κ)} {probe : DurationProbe (Desk κ)}

/-- Every job that an operation starts has what is attached to the exporter. -/
theorem Starts.attachments (starts : Starts e x op r j) : r.attachments = x.attachments := by
  cases starts with
  | exportFile requested => exact (requestFor_settings requested).2
  | runBatch => rfl

/-- What a client asks for to export videos. -/
def Operation.IsTask : Operation κ → Prop
  | .exportFile .. | .enqueue _ | .runBatch _ | .close => True
  | _ => False

/-- Exports leave the settings and the attached files as they are. -/
theorem keepsSettings_afterAll (e : Engine σ) {ops : List (Operation κ)} (tasks : ∀ op ∈ ops, op.IsTask)
    (x : Exporter σ κ) : keepsSettings x (afterAll e x ops) := by
  induction ops generalizing x with
  | nil => exact keepsSettings.refl x
  | cons op ops ih =>
    have task := tasks op (.head _)
    have step : (op.run e).Follows keepsSettings := by
      refine op.keepsSettings_run e ?_
      cases op <;> exact task
    exact keepsSettings.trans (step.of_run rfl) (ih (fun op mem => tasks op (.tail _ mem)) _)

/-- Two inputs and one graph that joins their chains, if an image is laid over the video; otherwise one input
and one chain. -/
def IsComposition (on : Prop) (arguments : List String) : Prop :=
  (on → ∃ input image, Command.values "-i" arguments = [input, image] ∧
    (Command.graphs arguments).map Prod.fst = ["-filter_complex"]) ∧
  (¬ on → ∃ input, Command.values "-i" arguments = [input] ∧
    (Command.graphs arguments).map Prod.fst = ["-vf"])

/-- With an image attached, the command of every job has it just if the exporter's settings have it on. -/
theorem Starts.composition {arguments : List String} (h : x.Settled)
    (attached : x.attachments.image.isSome = true) (starts : Starts e x op r j)
    (sanitized : Settings.sanitize r.settings r.attachments.image.isSome = .ok s)
    (executes : Job.Executes e probe r s j arguments k) :
    IsComposition (x.settings.image.enabled = true) arguments := by
  obtain rfl := Except.ok.inj ((starts.settings h).symm.trans sanitized)
  obtain ⟨inputs, graph⟩ := executes.image
  obtain ⟨m, attached⟩ := Option.isSome_iff_exists.1 attached
  have used : Job.imageOf r x.settings = if x.settings.image.enabled then some m else none := by
    unfold Job.imageOf
    rw [starts.attachments, attached]
  unfold JobNames.staged at inputs
  rcases Job.stagings_cases (r := r) (s := x.settings) with
    ⟨none, unnamed, -⟩ | ⟨n, name, some, named, -⟩
  · rw [none] at graph used
    rw [unnamed] at inputs
    refine ⟨fun on => ?_, fun _ => ⟨_, inputs, graph⟩⟩
    rw [if_pos on] at used
    cases used
  · rw [some] at graph used
    rw [named] at inputs
    refine ⟨fun _ => ⟨_, _, inputs, graph⟩, fun off => ?_⟩
    rw [if_neg off] at used
    cases used

/-- To attach an image turns it on. -/
theorem attachImage_enabled {m : MediaFile} {o : Outcome Unit} {y : Exporter σ κ}
    (ran : (attachImage (some m)).run x = (o, y)) : o = .returned () ∧ y.Settled ∧
      y.host = x.host ∧ y.attachments.image = some m ∧ y.settings.image.enabled = true := by
  obtain ⟨_, again, returned, rfl⟩ := attachImage_run ran
  refine ⟨returned, again, rfl, rfl, ?_⟩
  obtain ⟨_, _, ⟨⟩, ran⟩ := Action.bind_total ran ⟨_, _, rfl⟩
  rcases update_cases ran with ⟨f, raised, -⟩ | ⟨s, changed, -, same⟩
  · cases returned.symm.trans raised
  · cases same
    exact Settings.imageEnabled_of_change changed

end Exporter

namespace CommandLine

variable {o : Options} {host host' : Host} {c : Config} {image file text : String}

/-- The exporter of a configuration, before it is prepared. -/
def unpreparedSession (host : Host) (c : Config) : Session :=
  Exporter.ofConfig host { setup := .ofConfig c } c ()

/-- What the last entry says that spells the switch of the image watermark; nothing, or null, turns it
off. -/
def TurnsImageOn (text : String) : Prop :=
  ∃ entries e, (Source.text text).Holds (.map entries) ∧
    (entriesFor entries .imageEnabled).getLast? = some e ∧ e.2.isTruthy = true

/-- Once the image is attached and the font, the settings are what is left to prepare. -/
theorem prepare_image (given_image : given o.image = some image) (x : Session) :
    ∃ y, y.Settled ∧ y.host = x.host ∧ y.attachments.image = some (.ofString image) ∧
      y.settings.image.enabled = true ∧ (prepare o).run x =
        (match given o.settings with
          | some path => (do
            let document ← (Host.readText (Path.ofString path).toString .utf8 : Action Host String)
            let settings ← Action.ofExcept (Settings.read (.text document) (← Exporter.hasImage))
            Exporter.setSettings (.record settings.record) : Action Session Unit)
          | none => pure ()).run y := by
  rcases ran : (Exporter.attachImage (some (.ofString image))).run x with ⟨outcome, y⟩
  obtain ⟨rfl, settled, host, attached, enabled⟩ := Exporter.attachImage_enabled ran
  unfold prepare
  rw [given_image]
  dsimp only
  rw [Action.run_bind_of_returned ran]
  cases given o.font with
  | none => exact ⟨y, settled, host, attached, enabled, rfl⟩
  | some font =>
    exact ⟨{ y with attachments := { y.attachments with font := some (.ofString font) } },
      settled, host, attached, enabled, rfl⟩

/-- A switch whose default is off is on just if something is given for it that counts as true. -/
theorem Draft.switch_iff {d : Draft} {f : Field} :
    d.switch f false = true ↔ ∃ v, d.value? f = some v ∧ v.isTruthy = true := by
  unfold Draft.switch
  cases d.value? f with
  | none => simp
  | some v => cases v <;> simp [Value.isTruthy]

/-- The switch of the settings that are read of a document is what the document says. -/
theorem read_switch (shallow : ¬ (Source.text text).Overnested) :
    ∃ s, Settings.read (.text text) true = .ok s ∧ s.resanitize true = .ok s ∧
      (s.image.enabled = true ↔ TurnsImageOn text) := by
  by_cases holds : ∃ v, (Source.text text).Holds v
  · obtain ⟨v, holds⟩ := holds
    obtain ⟨s, sanitized, read⟩ := Settings.read_document holds shallow true
    refine ⟨s, read, Settings.ofDraft_again sanitized, ?_⟩
    obtain ⟨-, -, enabled⟩ := Settings.ofDraft_others sanitized
    rw [enabled, Bool.true_and]
    show (Draft.ofValue v).switch .imageEnabled false = true ↔ _
    rw [Draft.switch_iff]
    constructor
    · rintro ⟨_, found, truthy⟩
      cases v with
      | map entries =>
        rw [Draft.ofValue, Draft.value?_ofEntries] at found
        obtain ⟨e, last, rfl⟩ := Option.map_eq_some_iff.1 found
        exact ⟨entries, e, holds, last, truthy⟩
      | _ => cases found
    · rintro ⟨entries, e, document, last, truthy⟩
      obtain rfl : v = .map entries :=
        Except.ok.inj ((holds.value shallow).symm.trans (document.value shallow))
      refine ⟨e.2, ?_, truthy⟩
      rw [Draft.ofValue, Draft.value?_ofEntries, last]
      rfl
  · refine ⟨.default, Settings.read_null (Source.value_null (not_exists.1 holds) shallow) true,
      Settings.default_settled true, ⟨fun on => absurd on Bool.false_ne_true, ?_⟩⟩
    rintro ⟨entries, -, document, -⟩
    exact absurd ⟨_, document⟩ holds

/-- Without settings, the image that is given is on. -/
theorem prepare_alone (given_image : given o.image = some image) (none : given o.settings = none)
    (host : Host) (c : Config) : ∃ y, (prepare o).run (unpreparedSession host c) = (.returned (), y) ∧
      y.Settled ∧ y.attachments.image = some (.ofString image) ∧ y.settings.image.enabled = true := by
  obtain ⟨y, settled, -, attached, enabled, run⟩ := prepare_image given_image (unpreparedSession host c)
  rw [none] at run
  exact ⟨y, run, settled, attached, enabled⟩

/-- With settings, the image that is given is attached, and on just if their document says so. -/
theorem prepare_with_settings (given_image : given o.image = some image)
    (given_file : given o.settings = some file) (c : Config)
    (read : (Host.readText (Path.ofString file).toString .utf8).run host = (.returned text, host'))
    (shallow : ¬ (Source.text text).Overnested) :
    ∃ y, (prepare o).run (unpreparedSession host c) = (.returned (), y) ∧
      y.Settled ∧ y.attachments.image = some (.ofString image) ∧
      (y.settings.image.enabled = true ↔ TurnsImageOn text) := by
  obtain ⟨y, settled, same, attached, -, run⟩ := prepare_image given_image (unpreparedSession host c)
  obtain ⟨s, document, again, switch⟩ := read_switch shallow
  have file_read : ((Host.readText (Path.ofString file).toString .utf8 : Action Host String) :
      Action Session String).run y = (.returned text, { y with host := host' }) := by
    have read : (Host.readText (Path.ofString file).toString .utf8).run y.host = (.returned text, host') :=
      same ▸ read
    exact congrArg (fun p : Outcome String × Host => (p.1, { y with host := p.2 })) read
  have image : y.attachments.image.isSome = true := by rw [attached]; rfl
  have asked (h : Host) : (Exporter.hasImage : Action Session Bool).run { y with host := h } =
      (.returned true, { y with host := h }) := image ▸ rfl
  refine ⟨{ y with host := host', settings := s }, ?_, ?_, attached, switch⟩
  · rw [given_file] at run
    rw [run]
    dsimp only
    rw [Action.run_bind_of_returned file_read, Action.run_bind_of_returned (asked _), document,
      Action.run_bind_of_returned (Action.run_ofExcept_ok _ s)]
    unfold Exporter.setSettings
    rw [Action.run_bind_of_returned (asked _),
      show Settings.sanitize (.record s.record) true = .ok s from again]
    rfl
  · show s.resanitize y.attachments.image.isSome = .ok s
    rw [image, again]

/-- A session with an image, of which every job of the exports that follow has the image just if `on`. -/
structure HasImage (y : Session) (image : String) (on : Prop) : Prop where
  attached : y.attachments.image = some (.ofString image)
  enabled : y.settings.image.enabled = true ↔ on
  jobs : ∀ (ops : List (Exporter.Operation Unit)), (∀ op ∈ ops, op.IsTask) → ∀ op r j k s probe arguments,
    Exporter.Starts LocalEngine.engine (Exporter.afterAll LocalEngine.engine y ops) op r j →
      Settings.sanitize r.settings r.attachments.image.isSome = .ok s →
      Job.Executes LocalEngine.engine probe r s j arguments k → Exporter.IsComposition on arguments

/-- The exports that follow keep what is attached and the settings, so each of their jobs has them. -/
theorem hasImage_of_settled {y : Session} {on : Prop} (settled : y.Settled)
    (attached : y.attachments.image = some (.ofString image))
    (enabled : y.settings.image.enabled = true ↔ on) : HasImage y image on := by
  refine ⟨attached, enabled, fun ops tasks op r j k s probe arguments starts sanitized executes => ?_⟩
  obtain ⟨settings, attachments⟩ := Prod.mk.inj (Exporter.keepsSettings_afterAll LocalEngine.engine tasks y)
  have later := Exporter.settled_afterAll (e := LocalEngine.engine) settled ops
  have still : (Exporter.afterAll LocalEngine.engine y ops).attachments.image.isSome = true := by
    rw [attachments, attached]
    rfl
  have composition := starts.composition later still sanitized executes
  rwa [settings, propext enabled] at composition

/-- An image that is given without settings is laid over every video. Where settings are given too, they are
those of their document, and the image is laid over the videos just if the document turns it on: attached
first, it is turned off again by a document that does not mention it. -/
theorem image_given (given_image : given o.image = some image) (host : Host) (c : Config) :
    (given o.settings = none → ∃ y, (prepare o).run (unpreparedSession host c) = (.returned (), y) ∧
      HasImage y image True) ∧
    ∀ file text host', given o.settings = some file →
      (Host.readText (Path.ofString file).toString .utf8).run host = (.returned text, host') →
      ¬ (Source.text text).Overnested →
      ∃ y, (prepare o).run (unpreparedSession host c) = (.returned (), y) ∧
        HasImage y image (TurnsImageOn text) := by
  refine ⟨fun none => ?_, fun file text host' given_file read shallow => ?_⟩
  · obtain ⟨y, run, settled, attached, enabled⟩ := prepare_alone given_image none host c
    exact ⟨y, run, hasImage_of_settled settled attached (iff_true_intro enabled)⟩
  · obtain ⟨y, run, settled, attached, enabled⟩ :=
      prepare_with_settings given_image given_file c read shallow
    exact ⟨y, run, hasImage_of_settled settled attached enabled⟩

/-- The image and the settings that a command line names. -/
def logoOptions : Options := { image := some "wm.png", settings := some "s.json" }

/-- A host with a document of settings. -/
def documentHost (document : String) : Host := ((Host.writeFile "s.json" document.toUTF8).run {}).2

/-- The document is what is read of the file. -/
theorem documentHost_read (document : String) (decoded : ((Host.readText (Path.ofString "s.json").toString
    .utf8).run (documentHost document)).1.returned? = some document) : ∃ host',
      (Host.readText (Path.ofString "s.json").toString .utf8).run (documentHost document) =
        (.returned document, host') :=
  ⟨_, Prod.ext (Outcome.returned?_eq_some.1 decoded) rfl⟩

/-- A document that turns the image on. -/
def turnedOn : String := "\x7b\"watermarkImageEnabled\": true\x7d"

theorem image_given_turned_on : ∃ y,
    (prepare logoOptions).run (unpreparedSession (documentHost turnedOn) {}) = (.returned (), y) ∧
      HasImage y "wm.png" (TurnsImageOn turnedOn) ∧ y.settings.image.enabled = true := by
  have entry : Json.readDocument turnedOn.toList = .ok (.map [("watermarkImageEnabled", .bool true)]) := by
    simp [turnedOn, Json.readDocument, Json.readValue, Json.readEntries, Json.readText, Json.skipSpace,
      Json.isSpace, Json.nestingLimit, Json.word?, Json.afterWord?, Value.setEntry, bind, Except.bind, pure,
      Except.pure]
  obtain ⟨document, shallow⟩ := Source.holds_of_read entry
  obtain ⟨host', read⟩ := documentHost_read turnedOn (by decide +kernel)
  have named : given logoOptions.image = some "wm.png" := rfl
  obtain ⟨-, with_settings⟩ := image_given named (documentHost turnedOn) {}
  obtain ⟨y, run, image⟩ := with_settings "s.json" turnedOn host' rfl read shallow
  exact ⟨y, run, image, image.enabled.2 ⟨_, _, document, rfl, rfl⟩⟩

/-- A document that mentions nothing. -/
def unmentioning : String := "\x7b\x7d"

/-- With the empty document, which does not mention the image, the image that was given is attached but
turned off; it is on without the document. -/
theorem unmentioned_turned_off : ∃ host' y z,
    (Host.readText (Path.ofString "s.json").toString .utf8).run (documentHost unmentioning) =
      (.returned unmentioning, host') ∧
    (Source.text unmentioning).Holds (.map []) ∧ ¬ (Source.text unmentioning).Overnested ∧
    (prepare logoOptions).run (unpreparedSession (documentHost unmentioning) {}) = (.returned (), y) ∧
    y.attachments.image = some (.ofString "wm.png") ∧ y.settings.image.enabled = false ∧
    (prepare { logoOptions with settings := none }).run
      (unpreparedSession (documentHost unmentioning) {}) = (.returned (), z) ∧
    z.settings.image.enabled = true := by
  have empty : Json.readDocument unmentioning.toList = .ok (.map []) := by
    simp [unmentioning, Json.readDocument, Json.readValue, Json.skipSpace, Json.isSpace,
      Json.nestingLimit, bind, Except.bind, pure, Except.pure]
  obtain ⟨document, shallow⟩ := Source.holds_of_read empty
  obtain ⟨host', read⟩ := documentHost_read unmentioning (by decide +kernel)
  have named : given logoOptions.image = some "wm.png" := rfl
  have named_alone : given { logoOptions with settings := none }.image = some "wm.png" := rfl
  have given_file : given logoOptions.settings = some "s.json" := rfl
  obtain ⟨y, run, -, attached, enabled⟩ := prepare_with_settings named given_file {} read shallow
  obtain ⟨z, alone, -, -, on⟩ := prepare_alone named_alone rfl (documentHost unmentioning) {}
  refine ⟨host', y, z, read, document, shallow, run, attached, ?_, alone, on⟩
  rw [Bool.eq_false_iff, ne_eq, enabled]
  rintro ⟨entries, e, other, last, -⟩
  cases Except.ok.inj ((document.value shallow).symm.trans (other.value shallow))
  cases last

end CommandLine

end VideoExport
