import VideoExport.Proofs.Engine.Loading
import VideoExport.Proofs.Host.Place

/-!
# Entries of the working directory

Which names the local engine accepts for the entries of its directory, and where the files of the
accepted ones are. A name is accepted if it can be a component of a path (`isEntryName_iff`); then each
access acts at one place, to which the name leads from that of the directory (`acts_at`). That is a place
of its own in the directory for every accepted name but the double dot, which is accepted although it
leads out of the directory (`entries_in_directory`).
-/

set_option autoImplicit false

namespace VideoExport.LocalEngine

open FileTree (step goal trail)

/-- The names of entries are those that a path can have. -/
theorem isEntryName_iff {name : String} : isEntryName name = true ↔ Path.IsName name := by
  unfold isEntryName
  rw [Bool.and_eq_true, decide_eq_true_eq]
  constructor
  · rintro ⟨filled, same⟩
    have parts : (Path.ofString name).parts.getLastD "" = name := same
    rcases List.eq_nil_or_concat (Path.ofString name).parts with empty | ⟨first, last, split⟩
    · rw [empty] at parts
      subst parts
      cases filled
    · rw [split, List.concat_eq_append, List.getLastD_concat] at parts
      subst parts
      exact Path.isName_of_ofString (by rw [split]; simp)
  · intro named
    rw [Path.ofString_name named]
    exact ⟨by simpa using named.nonempty, rfl⟩

/-! ## Where an access acts -/

/-- In a world whose engine has the directory `D`, `x` changes nothing but what stands at a place. How it
ends, and what it makes of the place, depends only on what stands there and on the way to `D`. -/
structure ActsAt {α : Type} (D : Path) (place : List String) (x : Action (World LocalEngine) α) :
    Prop where
  engine : x.Follows (.same World.engine)
  host : x.Follows (Host.onlyFiles.on World.host)
  elsewhere : ∀ w, w.engine.directory = some D → ∀ p, p ≠ place →
    (x.run w).2.host.files.lookup p = w.host.files.lookup p
  depends : ∀ w w', w.engine.directory = some D → w'.engine.directory = some D →
    (∀ p, p ∈ trail D.toString ∨ p = place → w.host.files.lookup p = w'.host.files.lookup p) →
      (x.run w).1 = (x.run w').1 ∧
        (x.run w).2.host.files.lookup place = (x.run w').2.host.files.lookup place

theorem Access.actsAt {α : Type} {x : String → Action Host α} (access : Access x) (path : String) :
    Host.ActsAt (x path) (trail path) (goal path) := by
  cases access with
  | write content => exact Host.actsAt_writeFile path content
  | read => exact Host.actsAt_readFile path
  | delete => exact Host.actsAt_unlink path
  | look => exact Host.actsAt_pathExists path

variable {D : Path} {name : String} {w : World LocalEngine}

theorem entryPath_named (directory : w.engine.directory = some D) (named : Path.IsName name) :
    (entryPath name).run w = (.returned (D.child name).toString, w) := by
  rw [entryPath_run, directory]
  exact if_pos (isEntryName_iff.2 named)

/-- Work on an entry is work on the host at its path. -/
theorem onEntry_run {α : Type} (x : String → Action Host α) (directory : w.engine.directory = some D)
    (named : Path.IsName name) :
    (entryPath name >>= fun path => (liftM (x path) : Action (World LocalEngine) α)).run w =
      (((x (D.child name).toString).run w.host).1,
        { w with host := ((x (D.child name).toString).run w.host).2 }) := by
  rw [Action.run_bind_of_returned (entryPath_named directory named)]
  rfl

/-- Every access to an accepted name acts where the name leads from the directory. -/
theorem acts_at (plain : D.Plain) (named : Path.IsName name) :
    EachAccess name (ActsAt D (step (goal D.toString) name)) := by
  refine eachAccess_of fun {α x} access => ?_
  have acts := access.actsAt (D.child name).toString
  rw [FileTree.goal_child plain named] at acts
  refine ⟨.bind (still_entryPath name).of_still fun _ => .zoom (.any _) fun _ _ _ => rfl,
    .bind (still_entryPath name).of_still fun path => .zoom (access.actsAt path).only fun _ _ h => h,
    fun w directory p other => ?_, fun w w' directory directory' same => ?_⟩
  · rw [onEntry_run x directory named]
    exact acts.elsewhere w.host p other
  · rw [onEntry_run x directory named, onEntry_run x directory' named]
    refine acts.depends w.host w'.host (fun p mem => same p ?_) (same _ (.inr rfl))
    exact (FileTree.mem_trail_child plain named).1 mem

/-- Every access to another name is refused, and nothing changes. -/
theorem access_invalid (directory : w.engine.directory = some D) (unnamed : ¬ Path.IsName name) :
    EachAccess name fun x => x.run w = (.raised (.invalidName name), w) := by
  refine eachAccess_of fun {α x} access => ?_
  have path := entryPath_run w name
  rw [directory] at path
  dsimp only at path
  rw [if_neg (mt isEntryName_iff.1 unnamed)] at path
  exact Action.run_bind_of_raised path

/-- A loaded engine accepts the names that a component of a path can have, and refuses all others
before anything is done. An access to an accepted name acts at one place. For every such name but the
double dot this is a place of its own directly below that of the directory; the double dot leads to the
place above the directory. -/
theorem entries_in_directory {setup : LocalSetup} {steps : List (EngineStep LocalEngine)}
    (life : Lived setup steps w) (loaded : w.engine.loaded = true) :
    ∃ D, w.engine.directory = some D ∧
      (∀ name, ¬ Path.IsName name →
        EachAccess name fun x => x.run w = (.raised (.invalidName name), w)) ∧
      (∀ name, Path.IsName name → EachAccess name (ActsAt D (step (goal D.toString) name))) ∧
      (∀ name, Path.IsEntry name → step (goal D.toString) name = goal D.toString ++ [name]) ∧
      (∀ name name', Path.IsEntry name → Path.IsEntry name' → name ≠ name' →
        step (goal D.toString) name ≠ step (goal D.toString) name') ∧
      Path.IsName ".." ∧ step (goal D.toString) ".." = (goal D.toString).dropLast := by
  obtain ⟨-, text, directory⟩ := life.standing.of_loaded loaded
  refine ⟨_, directory, fun name => access_invalid directory,
    fun name => acts_at (Path.plain_ofString text), fun name entry => FileTree.step_entry entry,
    fun name name' entry entry' other same => other ?_, ⟨by decide, by decide, by decide⟩, rfl⟩
  rw [FileTree.step_entry entry, FileTree.step_entry entry'] at same
  exact List.singleton_inj.1 (List.append_cancel_left same)

/-! ## The double dot -/

/-- An engine that is asked to work in a directory below another. -/
def nested : World LocalEngine where
  host := {}
  engine := { setup := { directory := some "out/work" } }

/-- Its load. -/
def nestedLoad : EngineStep LocalEngine := stepOf .load load nested

theorem nestedLoad_lived : Lived { directory := some "out/work" } [nestedLoad] nestedLoad.after :=
  @Lived.step _ [] nestedLoad (.start nested.host) (.load nested)

/-- A name without a directory, and a double dot with one. -/
theorem nested_entries : Lived { directory := some "out/work" } [nestedLoad] nestedLoad.after ∧
    nestedLoad.after.engine.loaded = true ∧
    ((read "a/b").run nestedLoad.after).1 = .raised (.invalidName "a/b") ∧
    ∃ D, nestedLoad.after.engine.directory = some D ∧
      step (goal D.toString) "a" = goal D.toString ++ ["a"] := by
  obtain ⟨D, directory, refused, -, inside, -⟩ := entries_in_directory nestedLoad_lived rfl
  obtain ⟨-, reading, -⟩ := refused "a/b" fun named => named.plain (by decide)
  exact ⟨nestedLoad_lived, rfl, congrArg Prod.fst reading, D, directory,
    inside "a" ⟨⟨by decide, by decide, by decide⟩, by decide⟩⟩

/-- The double dot is no name of an entry, but is found to exist. -/
theorem parent_accepted : Lived { directory := some "out/work" } [nestedLoad] nestedLoad.after ∧
    nestedLoad.after.engine.loaded = true ∧
    goal (Path.ofString "out/work").toString = ["out", "work"] ∧
    step ["out", "work"] ".." = ["out"] ∧
    ((hasEntry "..").run nestedLoad.after).1 = .returned true :=
  ⟨nestedLoad_lived, rfl, rfl, rfl, rfl⟩

end VideoExport.LocalEngine
