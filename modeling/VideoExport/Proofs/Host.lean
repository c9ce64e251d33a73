import VideoExport.Media.Probe
import VideoExport.Proofs.Ends
import VideoExport.Proofs.Engine.Recording

/-!
# Work on the host

Work that leaves the files of the host as they are (`Host.keepsFiles`), and with them whatever a
`HostFrame` speaks of (`Action.Follows.of_files`). All work on files ends (`Host.responds_ask`,
`Host.responds_change` and what is put together from them).
-/

set_option autoImplicit false

namespace VideoExport

namespace Host

/-- The files stay as they are. -/
def keepsFiles : Evolution Host := .same fun h => h.files

theorem follows_log (level : Level) (source message : String) :
    (log level source message).Follows keepsFiles := .modify fun _ => rfl

/-- A question changes nothing. -/
theorem still_ask {α : Type} (path : String) (question : FileTree → Except FileFault α) :
    (ask path question).Follows .still := by
  intro h
  show ((ask path question) h).2 = h
  unfold ask
  split
  · rfl
  · split <;> rfl

theorem follows_ask {α : Type} (path : String) (question : FileTree → Except FileFault α) :
    (ask path question).Follows keepsFiles :=
  (still_ask path question).of_still

theorem follows_readFile (path : String) : (readFile path).Follows keepsFiles := follows_ask _ _

/-- Looking whether something is there changes nothing. -/
theorem still_pathExists (path : String) : (pathExists path).Follows .still := by
  intro h
  show ((pathExists path) h).2 = h
  unfold pathExists
  split
  · rfl
  · split <;> rfl

theorem follows_download {E : Evolution Host} (url : String) (limit : Number)
    (asked : ∀ (h : Host) web requests, E h { h with web, requests }) :
    (download url limit).Follows E := by
  refine .bind .get fun h => .bind (.modify fun h' => asked h' _ _) fun _ => ?_
  split
  · exact .raise _
  · exact .ite (.raise _) (.pure _)

/-- However a run of a program ends, that changes nothing. -/
theorem still_endRun (command : List String) (limit : Option Number) :
    ∀ run : ProgramRun, (endRun command limit run).Follows .still
  | .prints _ => .pure _
  | .missing | .fails _ | .overtime => .raise _
  | .hangs => .stall

theorem follows_runVersion {E : Evolution Host} (command : List String) (limit : Option Number)
    (asked : ∀ (h : Host) versions calls, E h { h with versions, calls }) :
    (runVersion command limit).Follows E :=
  .bind .get fun _ => .bind (.modify fun h => asked h _ _) fun _ => (still_endRun _ _ _).of_still

/-- A program that was started runs the command, and behaves as the next script says. -/
theorem start_returned {h h' : Host} {command : List String} {directory : String} {p : Process}
    (ran : (start command directory).run h = (.returned p, h')) :
    p.command = command ∧ p.script = (nextOf h.processes {}).1 := by
  obtain ⟨_, _, ⟨⟩, ran⟩ := Action.bind_returned ran
  generalize nextOf h.processes {} = next at ran
  obtain ⟨_, _, -, ran⟩ := Action.bind_returned ran
  split at ran
  · cases ran
  · obtain ⟨_, _, -, ran⟩ := Action.bind_returned ran
    cases ran
    exact ⟨rfl, rfl⟩

/-! ## Work that ends -/

theorem responds_log (level : Level) (source message : String) :
    (log level source message).Responds := fun _ => nofun

theorem responds_ask {α : Type} (path : String) (question : FileTree → Except FileFault α) :
    (ask path question).Responds := by
  intro h
  show ((ask path question) h).1 ≠ _
  unfold ask
  split
  · exact nofun
  · split <;> exact nofun

theorem responds_change (path : String) (f : FileTree → Except FileFault FileTree) :
    (change path f).Responds := by
  intro h
  show ((change path f) h).1 ≠ _
  unfold change
  split
  · exact nofun
  · split <;> exact nofun

theorem responds_readFile (path : String) : (readFile path).Responds := responds_ask _ _

theorem responds_writeFile (path : String) (content : ByteArray) :
    (writeFile path content).Responds := responds_change _ _

theorem responds_pathExists (path : String) : (pathExists path).Responds := by
  intro h
  show ((pathExists path) h).1 ≠ _
  unfold pathExists
  split
  · exact nofun
  · split <;> exact nofun

theorem responds_download (url : String) (limit : Number) : (download url limit).Responds := by
  rw [Action.responds_iff]
  refine .get_bind fun h _ => .bind (.modify fun _ => id) fun _ => ?_
  split
  · exact .raise _
  · exact .ite (.raise _) (.pure _)

/-- Directories are made from the outermost one that is missing: the names of a path run out. -/
theorem responds_makeDirectories :
    ∀ (fuel : Nat) (p : Path), (makeDirectories p fuel).Responds
  | 0, _ => fun _ => nofun
  | fuel + 1, p => by
    have made : (change p.toString (·.makeDirectory p.toString)).Ends fun _ => True :=
      Action.responds_iff.1 (responds_change _ _)
    have accepted (f : Failure) : (do
        let h ← Action.get
        if f.isSystem && h.files.isDirectory p.toString then pure () else Action.raise f :
        Action Host Unit).Ends fun _ => True :=
      .get_bind fun _ _ => .ite (.pure _) (.raise _)
    have above : (makeDirectories p.parent fuel).Ends fun _ => True :=
      Action.responds_iff.1 (responds_makeDirectories fuel p.parent)
    rw [Action.responds_iff]
    refine .bind made.attempt fun o => ?_
    split
    · exact .pure _
    · refine .ite (.raise _) (.bind above fun _ => .bind made.attempt fun o => ?_)
      split
      · exact .pure _
      · exact accepted _
    · exact accepted _

theorem responds_ensureDirectory (p : Path) : (ensureDirectory p).Responds :=
  responds_makeDirectories _ _

end Host

/-- Asking for the length of a video starts the probe's program and leaves records of the probe. -/
theorem MediaProbe.follows_duration {E : Evolution Host} (p : MediaProbe) (path : String)
    (log : ∀ level message, (Host.log level logSource message).Follows E)
    (asked : ∀ (h : Host) probes calls, E h { h with probes, calls }) :
    (p.duration path).Follows E := by
  have answered (command : List String) : (Host.runProbe command p.limit).Follows E :=
    .bind .get fun _ => .bind (.modify fun h => asked h _ _) fun _ =>
      (Host.still_endRun _ _ _).of_still
  have measured : (p.ask path).Follows E :=
    .bind (.read _) fun _ => .bind (answered _) fun _ => .ofExcept _
  refine .bind (Host.still_pathExists path).of_still fun _ => .ite (.pure _)
    (.bind measured.attempt fun o => ?_)
  split
  · exact .bind (log _ _) fun _ => .pure _
  · exact .ite (.bind (log _ _) fun _ => .pure _) (.pure _)

theorem Action.Follows.of_files {α : Type} {x : Action Host α} (S : HostFrame)
    (h : x.Follows Host.keepsFiles) : x.Follows S.toEvolution := fun s => S.of_files (h s)

end VideoExport
