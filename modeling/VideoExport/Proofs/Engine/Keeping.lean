import VideoExport.Proofs.Engine.Entries
import VideoExport.Proofs.Host.Found

/-!
# Files beside the working directory

The local engine changes files of its directory only, under the names that it is asked for, and removes
the directory only if that is a temporary one of its own (`Housed`). So a file that is found at a path stays
as it is whatever the engine does (`Keeping.step`), if the path does not pass a temporary directory and the
file has another name than those that the engine is asked for (`Aloof`).
-/

set_option autoImplicit false

namespace VideoExport.LocalEngine

open FileTree (step goal trail)

/-- The engine works in the directory that it was asked for, or in a temporary one, and only that is its
own. -/
structure Housed (e : LocalEngine) : Prop where
  owned : e.ownsDirectory = true → e.requestedDirectory = none
  directory : ∀ D, e.directory = some D → D.Plain ∧
    (e.requestedDirectory = none → ∃ n, D = .ofString (Host.temporaryName n))

/-- The engine is housed, and a file is found at a path. -/
structure Keeping (path : String) (f : StoredFile) (w : World LocalEngine) : Prop where
  housed : Housed w.engine
  found : w.host.file? path = some f

/-- An entry of a directory has another name than what a path leads to. -/
structure Aloof (path name : String) : Prop where
  entry : Path.IsEntry name
  other : (goal path).getLast? ≠ some name

variable {path name : String} {f : StoredFile} {D : Path} {w w' : World LocalEngine}

/-! ## The engine's directory -/

theorem housed_new (setup : LocalSetup) : Housed { setup } := ⟨nofun, nofun⟩

/-- A directory that was chosen for an engine houses it. -/
theorem Chosen.housed {e : LocalEngine} {text : String} {owns loaded : Bool} (h : Chosen e text owns) :
    Housed { e with directory := some (.ofString text), ownsDirectory := owns, loaded } := by
  have plain : (Path.ofString text).Plain := Path.plain_ofString text
  cases h with
  | asked asked =>
    refine ⟨nofun, ?_⟩
    rintro _ ⟨⟩
    exact ⟨plain, fun none => nomatch asked.symm.trans none⟩
  | temporary n none =>
    refine ⟨fun _ => none, ?_⟩
    rintro _ ⟨⟩
    exact ⟨plain, fun _ => ⟨n, rfl⟩⟩

theorem housed_load (housed : Housed w.engine) : Housed (load.run w).2.engine := by
  rcases ran : load.run w with ⟨o, v⟩
  show Housed v.engine
  cases load_ends ran with
  | already _ left => rwa [left]
  | refused _ _ _ left => rwa [left]
  | unmade fails left =>
    rw [left]
    refine ⟨housed.owned, ?_⟩
    rintro _ ⟨⟩
    exact ⟨Path.plain_ofString _, fun none => nomatch fails.asked.symm.trans none⟩
  | done _ _ left chosen =>
    rw [left]
    exact chosen.housed

/-! ## Work on the host -/

theorem Keeping.of_host {h : Host} (kept : Keeping path f w)
    (held : (Host.keepsFound path).toEvolution w.host h) : Keeping path f { w with host := h } :=
  ⟨kept.housed, held f kept.found⟩

theorem sheltered_keeping : Sheltered (.keeping (Keeping path f)) where
  host _ _ files kept := kept.of_host ((Host.keepsFound path).of_files files)
  process _ _ kept := ⟨⟨kept.housed.owned, kept.housed.directory⟩, kept.found⟩

/-- The place of an entry is not that of the file. -/
theorem Aloof.goal_child (aloof : Aloof path name) (plain : D.Plain) :
    goal (D.child name).toString ≠ goal path := by
  intro same
  refine aloof.other ?_
  rw [← same, FileTree.goal_child plain aloof.entry.toIsName, FileTree.step_entry aloof.entry,
    List.getLast?_concat]

/-- Work on an entry keeps a file of another name. -/
theorem Aloof.access {x : String → Action Host Unit} (aloof : Aloof path name)
    (work : ∀ other, goal other ≠ goal path → (x other).Follows (Host.keepsFound path).toEvolution) :
    (entryPath name >>= fun p => (liftM (x p) : Action (World LocalEngine) Unit)).Follows
      (.keeping (Keeping path f)) := by
  intro w kept
  cases hd : w.engine.directory with
  | none =>
    have refused := entryPath_run w name
    rw [hd] at refused
    rwa [Action.run_bind_of_raised refused]
  | some D =>
    rw [onEntry_run x hd aloof.entry.toIsName]
    exact kept.of_host (work _ (aloof.goal_child (kept.housed.directory D hd).1) _)

theorem keeping_load : load.Follows (.keeping (Keeping path f)) := by
  have aside : Lenient ((Host.keepsFound path).toEvolution.on World.host) :=
    lenient_on fun _ _ aside => (Host.keepsFound path).of_files aside.1
  have loaded : load.Follows ((Host.keepsFound path).toEvolution.on World.host) :=
    aside.load (follows_prepareDirectory Host.keepsFound_ensureDirectory Host.keepsFound_makeTemporary)
      fun w => (Host.keepsFound path).refl w.host
  exact fun w kept => ⟨housed_load kept.housed, loaded w f kept.found⟩

/-- Only a temporary directory is removed. -/
theorem keeping_reset (lasting : Host.Lasting path) : reset.Follows (.keeping (Keeping path f)) := by
  intro w kept
  have gone : (update fun e => { e with directory := none, loaded := false }).Follows
      (.keeping (Keeping path f)) := .modify fun _ kept => ⟨⟨kept.housed.owned, nofun⟩, kept.found⟩
  have killed (number : Nat) : (Action.modify (killProcess number)).Follows (.keeping (Keeping path f)) :=
    .modify (sheltered_keeping.lenient.killProcess number)
  have dropped : ∀ D, w.engine.directory = some D →
      (if w.engine.ownsDirectory = true then
        (Host.removeTree D : Action (World LocalEngine) Unit) >>= fun _ =>
          update fun e => { e with directory := none, loaded := false }
      else update fun e => { e with directory := none, loaded := false }).Follows
        (.keeping (Keeping path f)) := by
    intro D hd
    split
    · rename_i owns
      obtain ⟨n, rfl⟩ := (kept.housed.directory D hd).2 (kept.housed.owned owns)
      exact .bind (.zoom (Host.keepsFound_removeTemporary lasting n) fun _ _ held kept =>
        kept.of_host held) fun _ => gone
    · exact gone
  unfold reset
  rw [Action.run_bind_of_returned (Action.run_get w)]
  dsimp only
  cases hd : w.engine.directory with
  | none =>
    split
    · exact (Action.Follows.bind (sheltered_keeping.lenient.log _ _) fun _ =>
        .bind (killed _) fun _ => gone) w kept
    · exact gone w kept
  | some D =>
    split
    · exact (Action.Follows.bind (sheltered_keeping.lenient.log _ _) fun _ => .bind (killed _) fun _ =>
        dropped D hd) w kept
    · exact dropped D hd w kept

/-- The output of a program is written under the last of its arguments. -/
theorem keeping_writeOutput {arguments : List String} {p : Host.Process}
    (pipe : Aloof path "pipe:1") (aloof : ∀ name, arguments.getLast? = some name → Aloof path name)
    (command : ∃ first, p.command = first ++ "pipe:1" :: arguments) (kept : Keeping path f w) :
    Keeping path f (writeOutput p w) := by
  obtain ⟨first, command⟩ := command
  rcases writeOutput_cases p w with same | ⟨name, content, files, last, made, wrote⟩
  · rwa [same]
  · have other : Aloof path name := by
      rw [command, List.getLast?_append_of_ne_nil _ (List.cons_ne_nil _ _), List.getLast?_cons] at last
      cases ha : arguments.getLast? with
      | none =>
        rw [ha] at last
        cases last
        exact pipe
      | some name' =>
        rw [ha] at last
        cases last
        exact aloof _ ha
    have apart := other.goal_child (Path.plain_ofString p.directory)
    rw [FileTree.write_eq] at made
    rw [wrote]
    exact kept.of_host fun g found => Host.file?_eq_some.2 (FileTree.file_edit
      (FileTree.spares_overwrite _) apart (Host.file?_eq_some.1 found) made)

/-! ## All that the engine does -/

theorem sheltered_housed : Sheltered (.keeping fun w => Housed w.engine) where
  host _ _ _ := id
  process _ _ housed := ⟨housed.owned, housed.directory⟩

theorem housed_reset : reset.Follows (.keeping fun w => Housed w.engine) := by
  intro w housed
  unfold reset
  rw [Action.run_bind_of_returned (Action.run_get w)]
  cases w.engine.process <;> cases w.engine.directory <;> cases w.engine.ownsDirectory <;>
    exact ⟨housed.owned, nofun⟩

/-- Whatever the engine does, it is housed. -/
theorem housed_engine (P : EngineAct → Prop) :
    engine.Follows P (.keeping fun w => Housed w.engine) where
  load _ := fun _ => housed_load
  reset _ := housed_reset
  write _ := .bind (still_entryPath _).of_still fun _ => .zoom (.any _) fun _ _ _ => id
  read _ := sheltered_housed.lenient.read _
  delete _ := .bind (still_entryPath _).of_still fun _ => .zoom (.any _) fun _ _ _ => id
  execute _ := sheltered_housed.lenient.execute _
  started ran _ := sheltered_housed.lenient.started ⟨_, _, ran⟩ fun p _ w housed =>
    show Housed (writeOutput p w).engine from (writeOutput_engine p w).symm ▸ housed

/-- Whatever the engine does for entries of other names, the file stays. -/
theorem keeping_engine {P : EngineAct → Prop} (lasting : Host.Lasting path) (pipe : Aloof path "pipe:1")
    (aloof : ∀ act, P act → act = .reset ∨ ∀ name, act.Touches name → Aloof path name) :
    engine.Follows P (.keeping (Keeping path f)) where
  load _ := keeping_load
  reset _ := keeping_reset lasting
  write hp := ((aloof _ hp).resolve_left nofun _ rfl).access fun _ apart =>
    Host.keepsFound_writeFile _ apart
  read _ := sheltered_keeping.lenient.read _
  delete hp := ((aloof _ hp).resolve_left nofun _ rfl).access fun _ apart => Host.keepsFound_unlink apart
  execute _ := sheltered_keeping.lenient.execute _
  started ran hp := sheltered_keeping.lenient.started ⟨_, _, ran⟩ fun _ command _ =>
    keeping_writeOutput pipe ((aloof _ (hp _ (.inl rfl))).resolve_left nofun) command

end VideoExport.LocalEngine
