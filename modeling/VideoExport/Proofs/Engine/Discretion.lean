import VideoExport.Job.Run
import VideoExport.Proofs.Engine.Reach
import VideoExport.Proofs.Host.Outlet

/-!
# Discretion

A job shows in the log each state to which it goes (`Host.stateLog`). Whoever takes part in a job but
leaves no record under its name is discreet: what the log shows of its states stays as it is
(`Host.discreetly`). The engine in memory and the local engine are discreet, whatever they are asked for
(`MemoryEngine.discreet`, `LocalEngine.discreet`): the one does nothing to the host, the other has
records of its own.
-/

set_option autoImplicit false

namespace VideoExport

/-! ## The log of states -/

/-- The message of an entry that shows a change of a job's state. -/
def Journal.Entry.stateMessage? : Journal.Entry → Option String
  | .record r => if r.level = .debug ∧ r.source = .part Job.logSource then some r.message else none
  | _ => none

/-- A record of someone else, or of another level, shows no state. -/
theorem Journal.Entry.stateMessage?_other {level : Level} {source message : String}
    (other : level ≠ .debug ∨ source ≠ Job.logSource) :
    Journal.Entry.stateMessage? (.record ⟨level, .part source, message⟩) = none :=
  if_neg fun ⟨debug, own⟩ => other.elim (absurd debug) (absurd (LogSource.part.inj own))

/-- What the log shows of the changes of jobs' states, in order. -/
def Host.stateLog (h : Host) : List String := h.journal.filterMap Journal.Entry.stateMessage?

namespace Host

/-- What the log shows of the states of jobs stays as it is. -/
def discreetly : Evolution Host := .same stateLog

theorem discreet_log {level : Level} {source : String} (message : String)
    (other : level ≠ .debug ∨ source ≠ Job.logSource) :
    (log level source message).Follows discreetly := by
  refine .modify fun h => ?_
  show (h.journal ++ [_]).filterMap _ = h.stateLog
  rw [List.filterMap_append, List.filterMap_cons_none (Journal.Entry.stateMessage?_other other),
    List.filterMap_nil, List.append_nil]
  rfl

theorem discreetly_of_journal {h h' : Host} (same : h'.journal = h.journal) : discreetly h h' :=
  congrArg (List.filterMap Journal.Entry.stateMessage?) same

/-- The records of a local engine show no state. -/
theorem discreetly_of_asides {h h' : Host} (aside : asides h h') : discreetly h h' := by
  obtain ⟨-, new, journal, own⟩ := aside
  have silent : new.filterMap Journal.Entry.stateMessage? = [] := by
    refine List.filterMap_eq_nil_iff.2 fun entry mem => ?_
    obtain ⟨level, source, message, listed, rfl⟩ := own entry mem
    exact Journal.Entry.stateMessage?_other (.inr (ne_of_mem_of_not_mem listed (by decide)))
  show h'.journal.filterMap _ = h.stateLog
  rw [journal, List.filterMap_append, silent, List.append_nil]
  rfl

theorem discreetly_of_onlyFiles {h h' : Host} (only : onlyFiles h h') : discreetly h h' :=
  discreetly_of_journal (only ▸ rfl)

theorem discreet_change (path : String) (f : FileTree → Except FileFault FileTree) :
    (change path f).Follows discreetly := follows_change.mono fun _ _ => discreetly_of_onlyFiles

theorem discreet_ensureDirectory (p : Path) : (ensureDirectory p).Follows discreetly :=
  (follows_makeDirectories _ p).mono fun _ _ => discreetly_of_onlyFiles

theorem discreet_makeTemporary : makeTemporary.Follows discreetly :=
  .bind .get fun _ => .bind (.modify fun _ => rfl) fun _ => .bind (discreet_change _ _) fun _ => .pure _

end Host

/-! ## Engines -/

variable {σ : Type}

/-- Whatever it is asked for, an engine leaves no record under the name of a job. -/
def Engine.Discreet (e : Engine σ) : Prop :=
  e.Follows (fun _ => True) (Host.discreetly.on World.host)

/-- A step of a discreet engine shows nothing. -/
theorem Engine.Discreet.of_made {e : Engine σ} (discreet : e.Discreet) {c : EngineStep σ}
    (made : Made e c) : c.after.host.stateLog = c.before.host.stateLog :=
  Engine.Follows.of_made discreet (fun _ _ => id) made trivial

theorem MemoryEngine.discreet : MemoryEngine.engine.Discreet :=
  still_engine.mono fun _ _ same => congrArg Host.stateLog same

/-! ## The local engine -/

namespace LocalEngine

theorem discreet_lenient : Lenient (Host.discreetly.on World.host) :=
  lenient_on fun _ _ => Host.discreetly_of_asides

theorem discreet_host {α : Type} {x : Action Host α} (h : x.Follows Host.discreetly) :
    (liftM x : Action (World LocalEngine) α).Follows (Host.discreetly.on World.host) :=
  .zoom h fun _ _ h => h

theorem discreet_change (name : String) (f : String → FileTree → Except FileFault FileTree) :
    (entryPath name >>= fun path => (liftM (Host.change path (f path)) :
      Action (World LocalEngine) Unit)).Follows (Host.discreetly.on World.host) :=
  .bind (still_entryPath name).of_still fun _ => discreet_host (Host.discreet_change _ _)

theorem discreet_reset : reset.Follows (Host.discreetly.on World.host) := by
  have updated (f : LocalEngine → LocalEngine) :
      (update f).Follows (Host.discreetly.on World.host) := .modify fun _ => rfl
  have killed (number : Nat) : (Action.modify (killProcess number)).Follows
      (Host.discreetly.on World.host) := .modify (discreet_lenient.killProcess number)
  have removed (p : Path) : (Host.removeTree p).Follows Host.discreetly := .modify fun _ => rfl
  refine .bind .get fun w => ?_
  dsimp only
  cases w.engine.directory with
  | none =>
    split
    · exact .bind (discreet_lenient.log _ _) fun _ => .bind (killed _) fun _ => updated _
    · exact updated _
  | some directory =>
    have dropped := Action.Follows.ite (c := w.engine.ownsDirectory = true)
      (.bind (discreet_host (removed directory)) fun _ =>
        updated fun e => { e with directory := none, loaded := false })
      (updated fun e => { e with directory := none, loaded := false })
    split
    · exact .bind (discreet_lenient.log _ _) fun _ => .bind (killed _) fun _ => dropped
    · exact dropped

theorem discreet_writeOutput (p : Host.Process) (w : World LocalEngine) :
    Host.discreetly w.host (writeOutput p w).host := by
  rcases writeOutput_cases p w with same | ⟨_, _, _, -, -, wrote⟩
  · rw [same]
    exact Host.discreetly.refl w.host
  · rw [wrote]
    exact Host.discreetly_of_journal rfl

theorem discreet : engine.Discreet where
  load _ := discreet_lenient.load
    (follows_prepareDirectory Host.discreet_ensureDirectory Host.discreet_makeTemporary) fun _ => rfl
  reset _ := discreet_reset
  write {name content} _ := discreet_change name fun path files => files.write path content
  read _ := discreet_lenient.read _
  delete {name} _ := discreet_change name fun path files => files.unlink path
  execute _ := discreet_lenient.execute _
  started ran _ := discreet_lenient.started ⟨_, _, ran⟩ fun p _ => discreet_writeOutput p

end LocalEngine

end VideoExport
