import VideoExport.Proofs.Engine.Loading
import VideoExport.Proofs.Host.Directories

/-!
# Temporary directories

An engine that was not asked to work in some directory makes a temporary one at each load, and removes it
when it is reset. `Tidy made w`: where the engine is in the world `w`, and which of the temporary
directories at the places `made` are left. Every step keeps that so (`Tidy.step`): of all
temporary directories that were made only the one is left in which the engine works
(`temporaries_tidied`). A directory that was asked for is never the engine's own, and no reset touches it.
-/

set_option autoImplicit false

namespace VideoExport.LocalEngine

open FileTree (goal)
open Host (temporaryName)

variable {w w' : World LocalEngine} {o : Outcome Unit} {c : EngineStep LocalEngine} {n : Nat}
  {p : List String}

/-! ## Where an engine works -/

/-- How the engine is set up, its directory, whether that is its own, and whether it is loaded. -/
def lodging (e : LocalEngine) : LocalSetup × Option Path × Bool × Bool :=
  (e.setup, e.directory, e.ownsDirectory, e.loaded)

/-- The engine works in a temporary directory of its own. -/
structure LodgesIn (e : LocalEngine) (n : Nat) : Prop where
  directory : e.directory = some (.ofString (temporaryName n))
  owns : e.ownsDirectory = true
  loaded : e.loaded = true

/-- The engine is loaded, without having been asked to work in some directory, and its directory is at a
place. -/
structure Occupies (e : LocalEngine) (p : List String) : Prop where
  loaded : e.loaded = true
  free : e.requestedDirectory = none
  directory : ∃ D, e.directory = some D ∧ p = goal D.toString

theorem LodgesIn.occupies_iff {e : LocalEngine} (lodges : LodgesIn e n)
    (free : e.requestedDirectory = none) : Occupies e p ↔ p = [temporaryName n] := by
  constructor
  · rintro ⟨-, -, D, some, rfl⟩
    cases lodges.directory.symm.trans some
    exact Host.goal_temporary n
  · rintro rfl
    exact ⟨lodges.loaded, free, _, lodges.directory, (Host.goal_temporary n).symm⟩

/-- A step makes a temporary directory at a place where nothing was. -/
structure MakesTemporary (c : EngineStep LocalEngine) (p : List String) : Prop where
  counted : ∃ n, c.before.host.temporaries < n ∧ n ≤ c.after.host.temporaries ∧ p = [temporaryName n]
  absent : c.before.host.files.lookup p = none
  made : c.after.host.files.lookup p = some .directory

/-! ## What steps change -/

/-- The engine stays where it is, and so do all temporary directories. -/
def residing : Evolution (World LocalEngine) :=
  .and (.same fun w => w.engine.lodging) (Host.keepsTemporaries.toEvolution.on World.host)

theorem sheltered_residing : Sheltered residing where
  host _ _ files := ⟨rfl, Host.keepsTemporaries.of_files files⟩
  process w _ := ⟨rfl, Host.keepsTemporaries.refl w.host⟩

/-- An engine that is neither loaded nor reset resides where it is. -/
theorem residing_of_made (made : Made engine c) (other : c.act ≠ .load ∧ c.act ≠ .reset) :
    residing c.before c.after := by
  have onEntry {name : String} {x : String → Action Host Unit}
      (kept : ∀ path, (x path).Follows Host.keepsTemporaries.toEvolution) :
      (entryPath name >>= fun path => (liftM (x path) : Action (World LocalEngine) Unit)).Follows
        residing :=
    .bind (still_entryPath name).of_still fun path => .zoom (kept path) fun _ _ held => ⟨rfl, held⟩
  refine sheltered_residing.lenient.of_made (fun name content => ?_) (fun name => ?_) (fun p w => ?_)
    made other
  · exact onEntry fun path => Host.keepsTemporaries_writeFile path content
  · exact onEntry Host.keepsTemporaries_unlink
  · rcases writeOutput_cases p w with same | ⟨_, _, _, -, written, wrote⟩
    · rw [same]
      exact residing.refl w
    · rw [wrote]
      exact ⟨rfl, fun n => FileTree.sameDirectories_write written _⟩

theorem not_makesTemporary (same : residing c.before c.after) : ¬ MakesTemporary c p := by
  intro makes
  obtain ⟨n, -, -, rfl⟩ := makes.counted
  have there := (same.2 n).1 makes.made
  rw [makes.absent] at there
  cases there

/-- The directory that is prepared for an engine which was asked for none is a temporary one. -/
theorem prepareDirectory_free (free : w.engine.requestedDirectory = none)
    (ran : prepareDirectory.run w = (o, w')) :
    (o ≠ .returned () ∧ w'.engine = w.engine ∧ w'.host.files = w.host.files) ∨
    (o = .returned () ∧ w'.host.temporaries = w.host.temporaries + 1 ∧ w'.engine =
        { w.engine with
          directory := some (.ofString (temporaryName w'.host.temporaries))
          ownsDirectory := true } ∧
      w.host.files.makeDirectory (temporaryName w'.host.temporaries) = .ok w'.host.files) := by
  unfold prepareDirectory at ran
  rw [Action.run_bind_of_returned (Action.run_get w), free] at ran
  rcases Action.bind_eq ran with ⟨path, v, made, ran⟩ | ⟨f, made, rfl⟩ | ⟨made, rfl⟩ <;>
    obtain ⟨engine, made⟩ := engine_host made <;>
    obtain ⟨counted, ⟨he, files⟩ | ⟨fails, files⟩⟩ := Host.makeTemporary_cases made
  · cases he
    cases ran
    exact .inr ⟨rfl, counted, congrArg (fun e : LocalEngine => { e with
      directory := some (.ofString (temporaryName v.host.temporaries)), ownsDirectory := true }) engine,
      files⟩
  · exact absurd rfl (fails _)
  · cases he
  · exact .inl ⟨nofun, engine, files⟩
  · cases he
  · exact .inl ⟨nofun, engine, files⟩

/-- A load of an engine that was asked for no directory makes a temporary one to work in, or changes no
file. -/
theorem load_free (free : w.engine.requestedDirectory = none) (unloaded : w.engine.loaded = false)
    (ran : load.run w = (o, w')) :
    (w'.engine = w.engine ∧ w'.host.files = w.host.files) ∨
    ∃ n, w.host.temporaries < n ∧ n ≤ w'.host.temporaries ∧ w'.engine.setup = w.engine.setup ∧
      LodgesIn w'.engine n ∧ w.host.files.makeDirectory (temporaryName n) = .ok w'.host.files := by
  obtain ⟨-, -, same⟩ | ⟨-, v, kept, ran⟩ := load_checks unloaded ran
  · obtain ⟨engine, files, -⟩ := idle_iff.1 same
    exact .inl ⟨engine, files⟩
  obtain ⟨engine, files, count⟩ := idle_iff.1 kept
  rcases Action.bind_eq ran with ⟨⟨⟩, u, prepared, ran⟩ | ⟨f, prepared, rfl⟩ | ⟨prepared, rfl⟩ <;>
    obtain ⟨fails, engine', files'⟩ | ⟨ended, counted, lodged, made⟩ :=
      prepareDirectory_free (engine ▸ free) prepared
  · exact absurd rfl fails
  · cases ran
    rw [files] at made
    rw [engine] at lodged
    have setup : u.engine.setup = w.engine.setup := by rw [lodged]
    have directory : u.engine.directory = some (.ofString (temporaryName u.host.temporaries)) := by
      rw [lodged]
    have owns : u.engine.ownsDirectory = true := by rw [lodged]
    exact .inr ⟨u.host.temporaries, by omega, Nat.le_refl _, setup, ⟨directory, owns, rfl⟩, made⟩
  · exact .inl ⟨engine'.trans engine, files'.trans files⟩
  · cases ended
  · exact .inl ⟨engine'.trans engine, files'.trans files⟩
  · cases ended

theorem prepareDirectory_asked {text : String} (asked : w.engine.requestedDirectory = some text)
    (ran : prepareDirectory.run w = (o, w')) : w'.host.temporaries = w.host.temporaries := by
  have made (path : Path) : (liftM (Host.ensureDirectory path) : Action (World LocalEngine) Unit).Follows
      (.same fun w => w.host.temporaries) :=
    .zoom (Host.follows_makeDirectories _ path) fun w h (only : h = { w.host with files := h.files }) =>
      show h.temporaries = w.host.temporaries by rw [only]
  unfold prepareDirectory at ran
  rw [Action.run_bind_of_returned (Action.run_get w), asked] at ran
  refine Action.Follows.of_run (E := .same fun w => w.host.temporaries) ?_ ran
  exact .bind (.modify fun _ => rfl) fun _ => .bind (made _) fun _ => .modify fun _ => rfl

/-- A load of an engine that was asked to work in some directory makes no temporary one, and lets the engine
own none. -/
theorem load_asked (asked : w.engine.requestedDirectory ≠ none) (ran : load.run w = (o, w')) :
    w'.host.temporaries = w.host.temporaries ∧ w'.engine.setup = w.engine.setup ∧
      (w.engine.ownsDirectory = false → w'.engine.ownsDirectory = false) := by
  refine ⟨?_, ?_⟩
  · cases loaded : w.engine.loaded with
    | true =>
      unfold load at ran
      rw [Action.run_bind_of_returned (Action.run_get w), if_pos loaded] at ran
      cases ran
      rfl
    | false =>
      obtain ⟨-, -, same⟩ | ⟨-, v, kept, ran⟩ := load_checks loaded ran
      · exact (idle_iff.1 same).2.2
      obtain ⟨engine, -, count⟩ := idle_iff.1 kept
      obtain ⟨text, asked⟩ := Option.ne_none_iff_exists'.1 asked
      rw [← engine] at asked
      rw [← count]
      rcases Action.bind_eq ran with ⟨_, u, prepared, ran⟩ | ⟨_, prepared, -⟩ | ⟨prepared, -⟩
      · cases ran
        exact (prepareDirectory_asked asked prepared : u.host.temporaries = _)
      · exact prepareDirectory_asked asked prepared
      · exact prepareDirectory_asked asked prepared
  · cases load_ends ran with
    | already _ left => exact ⟨by rw [left], fun leased => by rw [left, leased]⟩
    | refused _ _ _ left => exact ⟨by rw [left], fun leased => by rw [left, leased]⟩
    | unmade _ left => exact ⟨by rw [left], fun leased => by rw [left, leased]⟩
    | done _ _ left chosen =>
      rw [left]
      cases chosen with
      | asked _ => exact ⟨rfl, fun _ => rfl⟩
      | temporary n free => exact absurd free asked

/-! ## What is left of the temporary directories -/

/-- Where the engine is, and which of the directories that were made are left: none or, while the engine
lodges in one, that one. An engine that was asked to work in some directory makes none. -/
inductive Tidy (made : List String → Prop) (w : World LocalEngine) : Prop
  | asked (asked : w.engine.requestedDirectory ≠ none) (leased : w.engine.ownsDirectory = false)
    (unmade : ∀ m, ¬ made [temporaryName m]) : Tidy made w
  | nowhere (free : w.engine.requestedDirectory = none) (left : w.engine.directory = none)
    (unloaded : w.engine.loaded = false)
    (gone : ∀ m, made [temporaryName m] →
      w.host.files.lookup [temporaryName m] ≠ some .directory) : Tidy made w
  | temporary {n : Nat} (free : w.engine.requestedDirectory = none) (lodges : LodgesIn w.engine n)
    (stands : w.host.files.isDirectory (Path.ofString (temporaryName n)).toString = true)
    (left : ∀ m, made [temporaryName m] ∧ w.host.files.lookup [temporaryName m] = some .directory ↔
      [temporaryName m] = [temporaryName n]) : Tidy made w

/-- A reset leaves all files of an engine that does not own its directory. -/
theorem filesLeft_leased (leased : w.engine.ownsDirectory = false) : filesLeft w = w.host.files := by
  rw [filesLeft, leased]
  split <;> rfl

/-- A reset of an engine that lodges in a temporary directory leaves nothing of that, and all else. -/
theorem LodgesIn.emptied (lodges : LodgesIn w.engine n)
    (stands : w.host.files.isDirectory (Path.ofString (temporaryName n)).toString = true) :
    (∀ p, [temporaryName n] <+: p → (filesLeft w).lookup p = none) ∧
      ∀ p, ¬ [temporaryName n] <+: p → (filesLeft w).lookup p = w.host.files.lookup p := by
  have removed := FileTree.lookup_removeDirectory stands (by rw [Host.goal_temporary]; nofun)
  rw [Host.goal_temporary] at removed
  rw [filesLeft, lodges.directory, lodges.owns]
  exact removed

namespace Tidy

variable {made : List String → Prop}

theorem of_residing (h : Tidy made w) (same : residing w w') : Tidy made w' := by
  obtain ⟨lodged, standing⟩ := same
  have lodged : w'.engine.lodging = w.engine.lodging := lodged
  simp only [lodging, Prod.mk.injEq] at lodged
  obtain ⟨setup, directory, owns, loaded⟩ := lodged
  have requested : w'.engine.requestedDirectory = w.engine.requestedDirectory := by
    rw [requestedDirectory, setup, requestedDirectory]
  cases h with
  | asked asked leased unmade => exact .asked (requested ▸ asked) (owns.trans leased) unmade
  | nowhere free left unloaded gone =>
    exact .nowhere (requested.trans free) (directory.trans left) (loaded.trans unloaded)
      fun m hm there => gone m hm ((standing m).1 there)
  | @temporary n free lodges stands left =>
    refine .temporary (requested.trans free)
      ⟨directory.trans lodges.directory, owns.trans lodges.owns, loaded.trans lodges.loaded⟩
      (Host.isDirectory_temporary (standing n).2 stands) fun m => ?_
    rw [standing m]
    exact left m

/-- A step by which the engine resides where it is makes no directory. -/
theorem step_of_residing (h : Tidy made c.before) (same : residing c.before c.after) :
    Tidy (fun p => made p ∨ MakesTemporary c p) c.after := by
  have unmade : (fun p => made p ∨ MakesTemporary c p) = made :=
    funext fun p => propext (or_iff_left (not_makesTemporary same))
  rw [unmade]
  exact h.of_residing same

theorem step_load (h : Tidy made c.before) (ran : load.run c.before = (o, c.after)) :
    Tidy (fun p => made p ∨ MakesTemporary c p) c.after := by
  cases h with
  | asked asked leased unmade =>
    obtain ⟨count, setup, owns⟩ := load_asked asked ran
    refine .asked ?_ (owns leased) fun m => ?_
    · rwa [requestedDirectory, setup]
    · rintro (made | ⟨⟨n, more, less, -⟩, -, -⟩)
      · exact unmade m made
      · omega
  | temporary free lodges stands left =>
    unfold load at ran
    rw [Action.run_bind_of_returned (Action.run_get _), if_pos lodges.loaded] at ran
    obtain ⟨-, same⟩ := Prod.mk.inj ran
    exact (Tidy.temporary free lodges stands left).step_of_residing (same ▸ residing.refl _)
  | nowhere free left unloaded gone =>
    obtain ⟨engine, files⟩ | ⟨n, more, less, setup, lodges, made⟩ := load_free free unloaded ran
    · exact (Tidy.nowhere free left unloaded gone).step_of_residing
        ⟨congrArg lodging engine, Host.keepsTemporaries.of_files files⟩
    rw [← Host.toString_temporary] at made
    have stands := FileTree.isDirectory_of_makeDirectory made
    obtain ⟨absent, there, rest⟩ := FileTree.lookup_makeDirectory made
    rw [Host.goal_temporary] at absent there rest
    refine .temporary ?_ lodges stands fun m => ?_
    · rwa [requestedDirectory, setup]
    constructor
    · rintro ⟨earlier | ⟨-, none, -⟩, now⟩ <;> by_contra other <;> rw [rest _ other] at now
      · exact gone m earlier now
      · cases none.symm.trans now
    · intro here
      rw [here]
      exact ⟨.inr ⟨⟨n, more, less, rfl⟩, absent, there⟩, there⟩

theorem step_reset (h : Tidy made c.before) (ran : reset.run c.before = (o, c.after)) :
    Tidy (fun p => made p ∨ MakesTemporary c p) c.after := by
  obtain ⟨w', ran', engine, files⟩ := reset_run c.before
  cases ran'.symm.trans ran
  cases h with
  | asked asked leased unmade =>
    have kept : c.after.host.files = c.before.host.files := files.trans (filesLeft_leased leased)
    refine .asked ?_ ?_ fun m => ?_
    · rwa [engine]
    · rw [engine, leased]
    · rintro (made | ⟨-, none, there⟩)
      · exact unmade m made
      · rw [kept, none] at there
        cases there
  | nowhere free left unloaded gone =>
    have kept : c.after.host.files = c.before.host.files := by rw [files, filesLeft, left]
    refine (Tidy.nowhere free left unloaded gone).step_of_residing
      ⟨?_, Host.keepsTemporaries.of_files kept⟩
    show c.after.engine.lodging = c.before.engine.lodging
    rw [engine, lodging, ← left, ← unloaded, lodging]
  | @temporary n free lodges stands left =>
    obtain ⟨gone, rest⟩ := lodges.emptied stands
    rw [← files] at gone rest
    refine .nowhere ?_ ?_ ?_ fun m => ?_
    · rw [engine]
      exact free
    · rw [engine]
    · rw [engine]
    intro earlier there
    have outside : ¬ [temporaryName n] <+: [temporaryName m] := by
      intro below
      rw [gone _ below] at there
      cases there
    rw [rest _ outside] at there
    obtain made | ⟨-, none, -⟩ := earlier
    · exact outside ((left m).1 ⟨made, there⟩ ▸ List.prefix_refl _)
    · cases none.symm.trans there

/-- Every step keeps an engine tidy. -/
theorem step (h : Tidy made c.before) (step : Made engine c) :
    Tidy (fun p => made p ∨ MakesTemporary c p) c.after := by
  have other : c.act ≠ .load ∧ c.act ≠ .reset → residing c.before c.after := residing_of_made step
  cases step with
  | load w => exact h.step_load rfl
  | reset w => exact h.step_reset rfl
  | _ => exact h.step_of_residing (other ⟨nofun, nofun⟩)

theorem run {steps : List (EngineStep LocalEngine)} (h : Tidy made w)
    (linked : Linked engine Host.keepsTemporaries w steps w') :
    Tidy (fun p => made p ∨ ∃ c ∈ steps, MakesTemporary c p) w' := by
  induction linked generalizing made with
  | nil same host =>
    have none : (fun p => made p ∨ ∃ c ∈ ([] : List (EngineStep LocalEngine)), MakesTemporary c p) = made :=
      funext fun p => propext (or_iff_left (by simp))
    rw [none]
    exact h.of_residing ⟨congrArg lodging same, host⟩
  | @cons w w' c rest same host made' _ ih =>
    have h := ih ((h.of_residing ⟨congrArg lodging same, host⟩).step made')
    simpa only [List.exists_mem_cons_iff, or_assoc] using h

end Tidy

theorem tidy_start (setup : LocalSetup) (h : Host) :
    Tidy (fun _ => False) (⟨h, { setup }⟩ : World LocalEngine) := by
  by_cases free : ({ setup } : LocalEngine).requestedDirectory = none
  · exact .nowhere free rfl rfl nofun
  · exact .asked free rfl nofun

/-- The directories that are left are those in which the engine works. -/
theorem Tidy.left_iff {made : List String → Prop} (h : Tidy made w)
    (named : ∀ p, made p → ∃ m, p = [temporaryName m]) (p : List String) :
    made p ∧ w.host.files.lookup p = some .directory ↔ Occupies w.engine p := by
  cases h with
  | asked asked _ unmade =>
    refine iff_of_false (fun h => ?_) fun h => asked h.free
    obtain ⟨m, rfl⟩ := named p h.1
    exact unmade m h.1
  | nowhere _ _ unloaded gone =>
    refine iff_of_false (fun h => ?_) fun h => by cases unloaded.symm.trans h.loaded
    obtain ⟨m, rfl⟩ := named p h.1
    exact gone m h.1 h.2
  | @temporary n free lodges _ left =>
    rw [lodges.occupies_iff free]
    constructor
    · intro h
      obtain ⟨m, rfl⟩ := named p h.1
      exact (left m).1 h
    · rintro rfl
      exact (left n).2 rfl

/-- A reset leaves all files of an engine that was asked to work in some directory, and nothing of the
directory in which another works. -/
theorem Tidy.reset_leaves {made : List String → Prop} (h : Tidy made w) :
    (w.engine.requestedDirectory ≠ none → filesLeft w = w.host.files) ∧
    ∀ p, Occupies w.engine p → (∀ q, p <+: q → (filesLeft w).lookup q = none) ∧
      ∀ q, ¬ p <+: q → (filesLeft w).lookup q = w.host.files.lookup q := by
  cases h with
  | asked asked leased _ =>
    exact ⟨fun _ => filesLeft_leased leased, fun p h => absurd h.free asked⟩
  | nowhere free _ unloaded _ =>
    exact ⟨fun asked => absurd free asked, fun p h => by cases unloaded.symm.trans h.loaded⟩
  | temporary free lodges stands _ =>
    refine ⟨fun asked => absurd free asked, fun p h => ?_⟩
    rw [(lodges.occupies_iff free).1 h]
    exact lodges.emptied stands

theorem setup_of_made (made : Made engine c) : c.after.engine.setup = c.before.engine.setup := by
  obtain ⟨-, ends⟩ | ⟨-, stands⟩ | ⟨-, -, stands⟩ := step_cases made
  · generalize c.result = o at ends
    cases ends with
    | already _ left | refused _ _ _ left | unmade _ left | done _ _ left _ => rw [left]
  · exact congrArg Prod.fst stands
  · exact congrArg Prod.fst stands

/-- While nothing else makes or removes temporary directories: of all those that an engine made, the one in
which it works is left, if it is loaded and was asked for no other, and else none. A reset leaves nothing of
that, and all other files; all files, if the engine was asked to work in some directory. -/
theorem temporaries_tidied {setup : LocalSetup} {h : Host} {steps : List (EngineStep LocalEngine)}
    (life : Linked engine Host.keepsTemporaries ⟨h, { setup }⟩ steps w) :
    w.engine.setup = setup ∧
    (∀ p, (∃ c ∈ steps, MakesTemporary c p) ∧ w.host.files.lookup p = some .directory ↔
      Occupies w.engine p) ∧
    (∃ w', reset.run w = (.returned (), w') ∧
      (w.engine.requestedDirectory ≠ none → w'.host.files = w.host.files) ∧
      ∀ p, Occupies w.engine p → (∀ q, p <+: q → w'.host.files.lookup q = none) ∧
        ∀ q, ¬ p <+: q → w'.host.files.lookup q = w.host.files.lookup q) ∧
    ∀ name, ((hasEntry name).run w).2 = w := by
  have tidy := (tidy_start setup h).run life
  simp only [false_or] at tidy
  obtain ⟨w', ran, -, files⟩ := reset_run w
  have looks (name : String) : (hasEntry name).Follows .still :=
    .bind (still_entryPath name) fun _ => .zoom (Host.still_pathExists _) fun w h
      (same : h = w.host) => show World.mk h w.engine = w by rw [same]
  refine ⟨?_, tidy.left_iff fun p made => ?_, ⟨w', ran, ?_⟩, fun name => looks name w⟩
  · exact life.invariant (P := fun w => w.engine.setup = setup)
      (fun _ _ same _ => (congrArg LocalEngine.setup same).trans)
      (fun _ _ made => (setup_of_made made).trans) rfl
  · obtain ⟨c, -, ⟨n, -, -, here⟩, -, -⟩ := made
    exact ⟨n, here⟩
  · rw [files]
    exact tidy.reset_leaves

/-! ## An engine that is loaded twice -/

/-- An engine that was asked for no directory, on a host without files, is loaded. -/
def firstStay : EngineStep LocalEngine := stepOf .load load ⟨{}, { setup := {} }⟩

/-- Then it is reset. -/
def departure : EngineStep LocalEngine := stepOf .reset reset firstStay.after

/-- And it is loaded again. -/
def secondStay : EngineStep LocalEngine := stepOf .load load departure.after

theorem stays_linked : Linked engine Host.keepsTemporaries ⟨{}, { setup := {} }⟩
    [firstStay, departure, secondStay] secondStay.after :=
  .cons rfl (Host.keepsTemporaries.refl _) (.load _) <|
    .cons rfl (Host.keepsTemporaries.refl _) (.reset _) <|
      .cons rfl (Host.keepsTemporaries.refl _) (.load _) (.nil rfl (Host.keepsTemporaries.refl _))

/-- Both loads make a temporary directory, and that of the second is left. -/
theorem second_stay_left :
    MakesTemporary firstStay [temporaryName 1] ∧ MakesTemporary secondStay [temporaryName 2] ∧
    ∀ p, (∃ c ∈ [firstStay, departure, secondStay], MakesTemporary c p) ∧
      secondStay.after.host.files.lookup p = some .directory ↔ p = [temporaryName 2] := by
  have lodges : LodgesIn secondStay.after.engine 2 := ⟨rfl, rfl, rfl⟩
  obtain ⟨-, left, -⟩ := temporaries_tidied stays_linked
  exact ⟨⟨⟨1, by decide, by decide, rfl⟩, rfl, rfl⟩, ⟨⟨2, by decide, by decide, rfl⟩, rfl, rfl⟩,
    fun p => (left p).trans (lodges.occupies_iff rfl)⟩

end VideoExport.LocalEngine
