import VideoExport.Engine.Local
import VideoExport.Proofs.Engine.Conduct
import VideoExport.Proofs.Host

/-!
# What the local engine reaches

The local engine works on files only where it loads, resets, writes or deletes, and where a program that
comes to its end writes its output. All else that it does leaves records of its own in the journal
(`Host.asides`), changes the rest of the host, and the number of the program that is running.
`Lenient E`: the evolution `E` takes in as much; then it is followed by whatever the engine does besides
its work on files. So is one that takes in all that keeps the files (`Sheltered E`).
-/

set_option autoImplicit false

namespace VideoExport

namespace LocalEngine

/-- What happens to the host does not concern the engine. -/
theorem engine_host {α : Type} {x : Action Host α} {w w' : World LocalEngine} {o : Outcome α}
    (ran : (liftM x : Action (World LocalEngine) α).run w = (o, w')) :
    w'.engine = w.engine ∧ x.run w.host = (o, w'.host) := by
  obtain ⟨h, hx, rfl⟩ := Action.zoom_eq ran
  exact ⟨rfl, hx⟩

/-- A record of the engine, or of the probe that it asks. -/
def IsOwnRecord (entry : Journal.Entry) : Prop :=
  ∃ level source message, source ∈ [logSource, MediaProbe.logSource] ∧
    entry = .record ⟨level, .part source, message⟩

end LocalEngine

/-- The files stay as they are, and what is new in the journal are records of a local engine. -/
def Host.asides : Evolution Host where
  Holds h h' := h'.files = h.files ∧
    ∃ new, h'.journal = h.journal ++ new ∧ ∀ entry ∈ new, LocalEngine.IsOwnRecord entry
  refl h := ⟨rfl, [], (List.append_nil _).symm, fun _ none => absurd none List.not_mem_nil⟩
  trans := by
    rintro h h' h'' ⟨files, new, journal, own⟩ ⟨files', new', journal', own'⟩
    refine ⟨files'.trans files, new ++ new', ?_, List.forall_mem_append.2 ⟨own, own'⟩⟩
    rw [journal', journal, List.append_assoc]

namespace Host

/-- What touches neither the files nor the journal. -/
theorem asides_of_same {h h' : Host} (files : h'.files = h.files) (journal : h'.journal = h.journal) :
    asides h h' :=
  ⟨files, [], by rw [journal, List.append_nil], fun _ none => absurd none List.not_mem_nil⟩

theorem asides_log {level : Level} {source message : String}
    (own : source ∈ [LocalEngine.logSource, MediaProbe.logSource]) :
    (log level source message).Follows asides :=
  .modify fun _ => ⟨rfl, _, rfl, List.forall_mem_singleton.2 ⟨level, source, message, own, rfl⟩⟩

end Host

namespace LocalEngine

/-- An evolution of the world that takes in asides of the host, and changes of the number of the program
that is running. -/
structure Lenient (E : Evolution (World LocalEngine)) : Prop where
  host : ∀ (w : World LocalEngine) (h : Host), Host.asides w.host h → E w { w with host := h }
  process : ∀ (w : World LocalEngine) (number : Option Nat),
    E w { w with engine := { w.engine with process := number } }

/-- An evolution of the world that takes in all changes of the host which keep its files, and of the
number of the program that is running. -/
structure Sheltered (E : Evolution (World LocalEngine)) : Prop where
  host : ∀ (w : World LocalEngine) (h : Host), h.files = w.host.files → E w { w with host := h }
  process : ∀ (w : World LocalEngine) (number : Option Nat),
    E w { w with engine := { w.engine with process := number } }

theorem Sheltered.lenient {E : Evolution (World LocalEngine)} (hE : Sheltered E) : Lenient E where
  host w h aside := hE.host w h aside.1
  process := hE.process

/-- An evolution of the host that takes in asides, whatever happens to the engine. -/
theorem lenient_on {F : Evolution Host} (asides : ∀ h h', Host.asides h h' → F h h') :
    Lenient (F.on World.host) where
  host _ _ := asides _ _
  process w _ := F.refl w.host

/-- Finding the path of an entry changes nothing. -/
theorem still_entryPath (name : String) : (entryPath name).Follows .still := by
  refine .bind .get fun w => ?_
  split
  · exact .raise _
  · exact .ite (.pure _) (.raise _)

/-- Preparing a directory does to the host what making one does. -/
theorem follows_prepareDirectory {F : Evolution Host}
    (made : ∀ p, (Host.ensureDirectory p).Follows F) (temporary : Host.makeTemporary.Follows F) :
    prepareDirectory.Follows (F.on World.host) := by
  have onHost {α : Type} {x : Action Host α} (hx : x.Follows F) :
      (liftM x : Action (World LocalEngine) α).Follows (F.on World.host) := .zoom hx fun _ _ h => h
  have updated (f : LocalEngine → LocalEngine) : (update f).Follows (F.on World.host) :=
    .modify fun w => F.refl w.host
  refine .bind .get fun w => ?_
  split
  · exact .bind (updated _) fun _ => .bind (onHost (made _)) fun _ => updated _
  · exact .bind (onHost temporary) fun _ => updated _

/-- At its end a program writes the file that its last argument names in its directory, or nothing. -/
theorem writeOutput_cases (p : Host.Process) (w : World LocalEngine) : writeOutput p w = w ∨
    ∃ name content files, p.command.getLast? = some name ∧
      w.host.files.write ((Path.ofString p.directory).child name).toString content = .ok files ∧
      writeOutput p w = { w with host := { w.host with files } } := by
  unfold writeOutput
  split
  · rename_i size name _ last
    dsimp only
    split
    · rename_i files written
      exact .inr ⟨name, _, files, last, written, rfl⟩
    · exact .inl rfl
  · exact .inl rfl

theorem writeOutput_engine (p : Host.Process) (w : World LocalEngine) :
    (writeOutput p w).engine = w.engine := by
  rcases writeOutput_cases p w with same | ⟨_, _, _, -, -, wrote⟩
  · rw [same]
  · rw [wrote]

namespace Lenient

variable {α : Type} {E : Evolution (World LocalEngine)}

section
variable (hE : Lenient E)
include hE

theorem onHost {x : Action Host α} (hx : x.Follows Host.asides) :
    (liftM x : Action (World LocalEngine) α).Follows E := .zoom hx fun w h => hE.host w h

theorem log (level : Level) (message : String) : (log level message).Follows E :=
  hE.onHost (Host.asides_log (by decide))

theorem read (name : String) : (read name).Follows E :=
  .bind (still_entryPath name).of_still fun _ => hE.onHost (Host.still_ask _ _).of_still

theorem hasEntry (name : String) : (hasEntry name).Follows E :=
  .bind (still_entryPath name).of_still fun _ => hE.onHost (Host.still_pathExists _).of_still

theorem load (prepared : prepareDirectory.Follows E) (loaded : ∀ w : World LocalEngine,
    E w { w with engine := { w.engine with loaded := true } }) : load.Follows E :=
  .bind .get fun _ => .ite (.pure _) <| .bind (.read _) fun _ => .bind (hE.log _ _) fun _ =>
    .bind (hE.onHost (Host.follows_runVersion _ _ fun _ _ _ => Host.asides_of_same rfl rfl)) fun _ =>
      .bind prepared fun _ => .modify loaded

/-! ## Programs -/

theorem inputDuration (arguments : List String) : (inputDuration arguments).Follows E := by
  refine .bind .get fun w => ?_
  split
  · exact .pure _
  · refine .ite ?_ (.pure _)
    split
    · exact .raise _
    · exact .bind (still_entryPath _).of_still fun _ => .bind (hE.onHost
        (MediaProbe.follows_duration _ _ (fun _ _ => Host.asides_log (by decide)) fun _ _ _ =>
          Host.asides_of_same rfl rfl)) fun _ => .pure _

theorem execute (arguments : List String) : (execute arguments).Follows E := by
  have started (command : List String) (directory : String) :
      (Host.start command directory).Follows Host.asides :=
    .bind .get fun _ => .bind (.modify fun _ => Host.asides_of_same rfl rfl) fun _ => .ite (.raise _)
      (.bind (.modify fun _ => Host.asides_of_same rfl rfl) fun _ => .pure _)
  exact .bind (.read _) fun _ => .bind (hE.log _ _) fun _ => .bind (hE.inputDuration _) fun _ =>
    .bind .get fun _ => .bind (hE.onHost (started _ _)) fun _ =>
      .bind (.modify fun w => hE.process w _) fun _ => .pure _

theorem forgetProcess (w : World LocalEngine) : E w (forgetProcess w) := hE.process w none

theorem killProcess (number : Nat) (w : World LocalEngine) : E w (killProcess number w) :=
  E.trans (hE.host w (w.host.markKilled number) (Host.asides_of_same rfl rfl)) (hE.process _ none)

omit hE in
theorem logEvents {close : World LocalEngine → World LocalEngine} (hc : ∀ w, E w (close w))
    (lines : List String) : (∀ m ∈ logEvents close lines, ∀ w, E w (m.before w)) ∧
      ∀ m ∈ LocalEngine.logEvents close lines, ∀ w, E w (m.close w) :=
  ⟨List.forall_mem_map.2 fun _ _ => E.refl, List.forall_mem_map.2 fun _ _ => hc⟩

theorem conclude (p : Host.Process) (lines : List String) : (conclude p lines).Follows E :=
  .bind (.modify hE.forgetProcess) fun _ => .ite (hE.log _ _) (.bind (hE.log _ _) fun _ => .raise _)

/-- The execution of what is left of a program, whose output is written as `E` has it. -/
theorem transcript {p : Host.Process} {d : Number} (written : ∀ w, E w (writeOutput p w)) (r : Reading)
    (steps : List ProcessStep) : (transcript p d r steps).Follows E := by
  induction steps generalizing r with
  | nil =>
    obtain ⟨before, close⟩ := logEvents hE.forgetProcess r.waiting
    rw [LocalEngine.transcript]
    exact .after ⟨before, close, hE.conclude _ _⟩ written
  | cons step rest later =>
    cases step with
    | hang =>
      rw [LocalEngine.transcript]
      exact ⟨List.forall_mem_nil _, List.forall_mem_nil _, .stall⟩
    | error line =>
      rw [LocalEngine.transcript]
      exact later _
    | output line =>
      obtain ⟨before, close⟩ := logEvents (hE.killProcess p.number) r.waiting
      rw [LocalEngine.transcript]
      split
      · exact ⟨before, close, .bind (.modify (hE.killProcess _)) fun _ => .raise _⟩
      · exact (later _).prepend (List.forall_mem_append.2 ⟨before, List.forall_mem_map.2 fun _ _ => E.refl⟩)
          (List.forall_mem_append.2 ⟨close, List.forall_mem_map.2 fun _ _ => hE.killProcess _⟩)

/-- An execution that was started is that of a program whose command ends with the arguments. -/
theorem started {arguments : List String} {x : Execution (World LocalEngine) EngineEvent}
    (hx : engine.Starts arguments x)
    (written : ∀ p : Host.Process, (∃ first, p.command = first ++ "pipe:1" :: arguments) →
      ∀ w, E w (writeOutput p w)) : x.Follows E := by
  obtain ⟨w, w', ran⟩ := hx
  obtain ⟨program, _, -, ran⟩ := Action.bind_returned ran
  obtain ⟨_, _, -, ran⟩ := Action.bind_returned ran
  obtain ⟨d, _, -, ran⟩ := Action.bind_returned ran
  obtain ⟨_, _, -, ran⟩ := Action.bind_returned ran
  obtain ⟨p, v, hp, ran⟩ := Action.bind_returned ran
  obtain ⟨_, _, -, ran⟩ := Action.bind_returned ran
  cases ran
  refine hE.transcript (written p
    ⟨[program, "-y", "-hide_banner", "-nostdin", "-progress"], ?_⟩) _ _
  exact (Host.start_returned (engine_host hp).2).1

/-- An engine that is neither loaded nor reset changes the world by `E`, if work on files does. -/
theorem of_made (written : ∀ name content, (write name content).Follows E)
    (deleted : ∀ name, (delete name).Follows E) (output : ∀ p w, E w (writeOutput p w))
    {c : EngineStep LocalEngine} (made : Made engine c) (other : c.act ≠ .load ∧ c.act ≠ .reset) :
    E c.before c.after := by
  have follows : engine.Follows (fun act => act ≠ .load ∧ act ≠ .reset) E := {
    load := fun h => absurd rfl h.1
    reset := fun h => absurd rfl h.2
    write := fun _ => written _ _
    read := fun _ => hE.read _
    delete := fun _ => deleted _
    execute := fun _ => hE.execute _
    started := fun ran _ => hE.started ⟨_, _, ran⟩ fun p _ => output p }
  refine follows.of_made ?_ made other
  rintro _ _ _ - (rfl | rfl | rfl) - <;> exact ⟨nofun, nofun⟩

end

end Lenient

end LocalEngine

end VideoExport
