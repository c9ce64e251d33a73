import VideoExport.Proofs.Engine.Reach
import VideoExport.Proofs.Host.Outlet

/-!
# Loading the local engine

A load checks that the program runs, prepares a directory to work in, and then takes the engine to be
loaded (`load_ends`). `Lived setup steps w`: an engine set up by `setup` made `steps`, whatever became of
the host meanwhile, and the world is now `w`. In such a world the engine is loaded if and only if it has
a directory, with one exception: a load that fails to make the directory that was asked for
(`FailsToMake`) leaves it set, until the engine is reset or loaded (`Unmade`). So it is then, and only
then, that an engine which is not loaded lets its storage be accessed (`loaded_iff_directory`).
-/

set_option autoImplicit false

namespace VideoExport

/-! ## The version check -/

namespace Host

variable {h h' : Host}

/-- The next version check finds the program to run. -/
def Checks (h : Host) : Prop := ∃ output, (nextOf h.versions (.prints "")).1 = .prints output

theorem runVersion_returned {command : List String} {limit : Option Number} {o : Outcome String}
    (ran : (runVersion command limit).run h = (o, h')) :
    (∃ output, o = .returned output) ↔ h.Checks := by
  have run : (runVersion command limit).run h =
      (endRun command limit (nextOf h.versions (.prints "")).1).run
        { h with
          versions := (nextOf h.versions (.prints "")).2
          calls := h.calls ++ [.run command limit] } := rfl
  rw [run] at ran
  unfold Checks
  cases hn : (nextOf h.versions (.prints "")).1 <;> rw [hn] at ran <;> cases ran
  · exact ⟨fun _ => ⟨_, rfl⟩, fun _ => ⟨_, rfl⟩⟩
  all_goals exact ⟨nofun, nofun⟩

/-- Whether a directory can be made depends on the files alone. -/
theorem ensureDirectory_agrees {p : Path} (same : h'.files = h.files) :
    ((ensureDirectory p).run h').1 = ((ensureDirectory p).run h).1 :=
  ((agrees_makeDirectories _ _).run_eq (P := SameFiles) (s := h') (t := h) same).1

end Host

namespace LocalEngine

/-! ## Loads -/

/-- A load in this world fails to make the directory that was asked for, which has this text. -/
structure FailsToMake (w : World LocalEngine) (text : String) : Prop where
  unloaded : w.engine.loaded = false
  asked : w.engine.requestedDirectory = some text
  checked : w.host.Checks
  refused : ∃ f, ((Host.ensureDirectory (.ofString text)).run w.host).1 = .raised f

/-- The directory of this text is the one that the engine was asked to work in, or a temporary one of its
own. -/
inductive Chosen (e : LocalEngine) : String → Bool → Prop
  | asked {text : String} (asked : e.requestedDirectory = some text) : Chosen e text false
  | temporary (n : Nat) (asked : e.requestedDirectory = none) : Chosen e (Host.temporaryName n) true

/-- How a load ends that leaves the engine `e`. -/
inductive LoadEnd (w : World LocalEngine) (e : LocalEngine) : Outcome Unit → Prop
  | already (loaded : w.engine.loaded = true) (left : e = w.engine) : LoadEnd w e (.returned ())
  /-- The program does not run, or there is no temporary directory. -/
  | refused {o : Outcome Unit} (unloaded : w.engine.loaded = false) (fails : o ≠ .returned ())
    (makes : ∀ text, ¬ FailsToMake w text) (left : e = w.engine) : LoadEnd w e o
  | unmade {f : Failure} {text : String} (fails : FailsToMake w text)
    (left : e = { w.engine with directory := some (.ofString text) }) : LoadEnd w e (.raised f)
  | done {text : String} {owns : Bool} (unloaded : w.engine.loaded = false)
    (makes : ∀ text, ¬ FailsToMake w text) (left : e =
      { w.engine with directory := some (.ofString text), ownsDirectory := owns, loaded := true })
    (chosen : Chosen w.engine text owns) : LoadEnd w e (.returned ())

/-- How the preparation of the directory ends that leaves the engine `e`. -/
inductive PrepareEnd (w : World LocalEngine) (e : LocalEngine) : Outcome Unit → Prop
  | made {text : String} {owns : Bool}
    (makes : ∀ text, w.engine.requestedDirectory = some text →
      ((Host.ensureDirectory (.ofString text)).run w.host).1 = .returned ())
    (left : e = { w.engine with directory := some (.ofString text), ownsDirectory := owns })
    (chosen : Chosen w.engine text owns) : PrepareEnd w e (.returned ())
  | noTemporary {o : Outcome Unit} (fails : o ≠ .returned ())
    (asked : w.engine.requestedDirectory = none) (left : e = w.engine) : PrepareEnd w e o
  | unmade {f : Failure} {text : String} (asked : w.engine.requestedDirectory = some text)
    (why : ((Host.ensureDirectory (.ofString text)).run w.host).1 = .raised f)
    (left : e = { w.engine with directory := some (.ofString text) }) : PrepareEnd w e (.raised f)

/-- The engine, the files of the host, and its count of temporary directories stay as they are. -/
def idle : Evolution (World LocalEngine) :=
  .same fun w => (w.engine, w.host.files, w.host.temporaries)

section
variable {w w' : World LocalEngine} {o : Outcome Unit}

theorem idle_iff : idle w w' ↔ w'.engine = w.engine ∧ w'.host.files = w.host.files ∧
    w'.host.temporaries = w.host.temporaries := by
  show (_, _, _) = (_, _, _) ↔ _
  rw [Prod.mk.injEq, Prod.mk.injEq]

theorem prepareDirectory_ends (ran : prepareDirectory.run w = (o, w')) : PrepareEnd w w'.engine o := by
  unfold prepareDirectory at ran
  rw [Action.run_bind_of_returned (Action.run_get w)] at ran
  cases asked : w.engine.requestedDirectory with
  | none =>
    rw [asked] at ran
    rcases Action.bind_eq ran with ⟨path, v, made, ran⟩ | ⟨f, made, rfl⟩ | ⟨made, rfl⟩
    · obtain ⟨engine, made⟩ := engine_host made
      obtain ⟨he, -⟩ := (Host.makeTemporary_cases made).2.resolve_right fun h => h.1 _ rfl
      cases he
      cases ran
      exact .made (fun _ some => nomatch asked.symm.trans some) (congrArg (fun e =>
        { e with
          directory := some (.ofString (Host.temporaryName v.host.temporaries))
          ownsDirectory := true }) engine) (.temporary _ asked)
    · exact .noTemporary nofun asked (engine_host made).1
    · exact .noTemporary nofun asked (engine_host made).1
  | some text =>
    rw [asked] at ran
    obtain ⟨_, v, first, ran⟩ := Action.bind_total ran ⟨_, _, rfl⟩
    cases first
    rcases Action.bind_eq ran with ⟨_, v, made, ran⟩ | ⟨f, made, rfl⟩ | ⟨made, rfl⟩ <;>
      obtain ⟨engine, made⟩ := engine_host made
    · cases ran
      refine .made (fun _ some => ?_) (congrArg (fun e => { e with ownsDirectory := false }) engine)
        (.asked asked)
      cases asked.symm.trans some
      exact congrArg Prod.fst made
    · exact .unmade asked (congrArg Prod.fst made) engine
    · exact absurd (congrArg Prod.fst made) (Host.responds_ensureDirectory _ _)

/-- An engine that is not loaded checks its program, which changes neither files nor the engine, and goes on
if it runs. -/
theorem load_checks (unloaded : w.engine.loaded = false) (ran : load.run w = (o, w')) :
    (¬ w.host.Checks ∧ o ≠ .returned () ∧ idle w w') ∨
    (w.host.Checks ∧ ∃ v : World LocalEngine, idle w v ∧
      (prepareDirectory >>= fun _ => update fun e => { e with loaded := true }).run v = (o, w')) := by
  unfold load at ran
  rw [Action.run_bind_of_returned (Action.run_get w), if_neg (by simp [unloaded])] at ran
  obtain ⟨_, _, first, ran⟩ := Action.bind_total ran ⟨_, _, rfl⟩
  cases first
  obtain ⟨_, u, logged, ran⟩ := Action.bind_total ran ⟨_, _, rfl⟩
  obtain ⟨begun, checks⟩ : idle w u ∧ (u.host.Checks ↔ w.host.Checks) := by
    cases logged
    exact ⟨rfl, .rfl⟩
  have checked (command : List String) (limit : Option Number) :
      (liftM (Host.runVersion command limit) : Action (World LocalEngine) String).Follows idle :=
    .zoom (Host.follows_runVersion (E := .same fun h => (h.files, h.temporaries)) _ _ fun _ _ _ => rfl)
      fun _ _ same => congrArg (Prod.mk _) same
  rcases Action.bind_eq ran with ⟨output, v, check, ran⟩ | ⟨f, check, rfl⟩ | ⟨check, rfl⟩ <;>
    have kept := idle.trans begun ((checked _ _).of_run check) <;>
    have answer := Host.runVersion_returned (engine_host check).2
  · exact .inr ⟨checks.1 (answer.1 ⟨_, rfl⟩), v, kept, ran⟩
  · refine .inl ⟨fun runs => ?_, nofun, kept⟩
    obtain ⟨_, ⟨⟩⟩ := answer.2 (checks.2 runs)
  · refine .inl ⟨fun runs => ?_, nofun, kept⟩
    obtain ⟨_, ⟨⟩⟩ := answer.2 (checks.2 runs)

/-- How a load ends. -/
theorem load_ends (ran : load.run w = (o, w')) : LoadEnd w w'.engine o := by
  cases loaded : w.engine.loaded with
  | true =>
    unfold load at ran
    rw [Action.run_bind_of_returned (Action.run_get w), if_pos loaded] at ran
    cases ran
    exact .already loaded rfl
  | false =>
    obtain ⟨unchecked, fails, left⟩ | ⟨checked, v, kept, ran⟩ := load_checks loaded ran
    · exact .refused loaded fails (fun _ makes => unchecked makes.checked) (congrArg Prod.fst left)
    obtain ⟨engine, files, -⟩ := idle_iff.1 kept
    have same (text : String) := Host.ensureDirectory_agrees (p := .ofString text) files
    have temporary (asked : v.engine.requestedDirectory = none) (text : String) :
        ¬ FailsToMake w text := by
      intro fails
      rw [engine] at asked
      cases asked.symm.trans fails.asked
    rcases Action.bind_eq ran with ⟨⟨⟩, x, prepared, ran⟩ | ⟨f, prepared, rfl⟩ | ⟨prepared, rfl⟩
    · cases prepareDirectory_ends prepared with
      | noTemporary fails _ _ => exact absurd rfl fails
      | @made text owns makes left chosen =>
        cases ran
        rw [engine] at left makes chosen
        refine .done loaded (fun text fails => ?_)
          (congrArg (fun e : LocalEngine => { e with loaded := true }) left) chosen
        obtain ⟨f, why⟩ := fails.refused
        cases why.symm.trans ((same text).symm.trans (makes text fails.asked))
    · cases prepareDirectory_ends prepared with
      | noTemporary fails asked left =>
        exact .refused loaded nofun (temporary asked) (left.trans engine)
      | unmade asked why left =>
        rw [engine] at asked left
        exact .unmade ⟨loaded, asked, checked, _, (same _).symm.trans why⟩ left
    · cases prepareDirectory_ends prepared with
      | noTemporary fails asked left =>
        exact .refused loaded nofun (temporary asked) (left.trans engine)

end

/-! ## The other steps -/

/-- How the engine is set up, its directory, and whether it is loaded. -/
def standing (e : LocalEngine) : LocalSetup × Option Path × Bool := (e.setup, e.directory, e.loaded)

/-- What the engine stands at stays as it is. -/
def unmoved : Evolution (World LocalEngine) := .same fun w => w.engine.standing

theorem sheltered_unmoved : Sheltered unmoved := ⟨fun _ _ _ => rfl, fun _ _ => rfl⟩

theorem unmoved_host {α : Type} (x : Action Host α) :
    (liftM x : Action (World LocalEngine) α).Follows unmoved := .zoom (.any x) fun _ _ _ => rfl

theorem unmoved_write (name : String) (content : ByteArray) :
    (write name content).Follows unmoved :=
  .bind (still_entryPath name).of_still fun _ => unmoved_host _

theorem unmoved_delete (name : String) : (delete name).Follows unmoved :=
  .bind (still_entryPath name).of_still fun _ => unmoved_host _

theorem unmoved_writeOutput (p : Host.Process) (w : World LocalEngine) :
    unmoved w (writeOutput p w) := congrArg standing (writeOutput_engine p w)

/-- What a reset leaves of the files: all but the directory, if that is the engine's own. -/
def filesLeft (w : World LocalEngine) : FileTree :=
  match w.engine.directory with
  | some D => if w.engine.ownsDirectory then w.host.files.removeDirectory D.toString else w.host.files
  | none => w.host.files

/-- A reset always returns, and leaves an engine that is not loaded, has no directory and runs nothing. -/
theorem reset_run (w : World LocalEngine) : ∃ w', reset.run w = (.returned (), w') ∧
    w'.engine = { w.engine with directory := none, loaded := false, process := none } ∧
    w'.host.files = filesLeft w := by
  obtain ⟨h, ⟨setup, directory, owns, loaded, process⟩⟩ := w
  cases process <;> cases directory <;> cases owns <;> exact ⟨_, rfl, rfl, rfl⟩

/-- What a step does to what the engine stands at. -/
theorem step_cases {c : EngineStep LocalEngine} (made : Made engine c) :
    (c.act = .load ∧ LoadEnd c.before c.after.engine c.result) ∨
    (c.act = .reset ∧ c.after.engine.standing = (c.before.engine.setup, none, false)) ∨
    (c.act ≠ .load ∧ c.act ≠ .reset ∧ c.after.engine.standing = c.before.engine.standing) := by
  have other : c.act ≠ .load ∧ c.act ≠ .reset → unmoved c.before c.after :=
    sheltered_unmoved.lenient.of_made unmoved_write unmoved_delete unmoved_writeOutput made
  cases made with
  | load w =>
    refine .inl ⟨rfl, ?_⟩
    rw [Outcome.end_unit]
    exact load_ends rfl
  | reset w =>
    obtain ⟨w', ran, engine, -⟩ := reset_run w
    exact .inr (.inl ⟨rfl, congrArg (fun r => r.2.engine.standing) ran ▸ congrArg standing engine⟩)
  | _ => exact .inr (.inr ⟨nofun, nofun, other ⟨nofun, nofun⟩⟩)

/-! ## A life of the engine -/

/-- An engine set up by `setup` made the steps, and looked after entries, while the host changed in any
way; the world is now `w`. -/
inductive Lived (setup : LocalSetup) : List (EngineStep LocalEngine) → World LocalEngine → Prop
  | start (h : Host) : Lived setup [] ⟨h, { setup }⟩
  | host {steps : List (EngineStep LocalEngine)} {w : World LocalEngine} (h : Host)
    (life : Lived setup steps w) : Lived setup steps { w with host := h }
  | look {steps : List (EngineStep LocalEngine)} {w : World LocalEngine} (name : String)
    (life : Lived setup steps w) : Lived setup steps ((hasEntry name).run w).2
  | step {steps : List (EngineStep LocalEngine)} {c : EngineStep LocalEngine}
    (life : Lived setup steps c.before) (made : Made engine c) : Lived setup (steps ++ [c]) c.after

/-- A load failed to make the directory that was asked for, and since then the engine was neither reset
nor loaded. -/
def Unmade (steps : List (EngineStep LocalEngine)) : Prop :=
  ∃ earlier c later, steps = earlier ++ c :: later ∧ c.act = .load ∧
    (∃ text, FailsToMake c.before text) ∧
    ∀ d ∈ later, d.act ≠ .reset ∧ (d.act = .load → d.result ≠ .returned ())

variable {setup : LocalSetup} {steps : List (EngineStep LocalEngine)} {w : World LocalEngine}

theorem unmade_concat {c : EngineStep LocalEngine} : Unmade (steps ++ [c]) ↔
      (c.act = .load ∧ ∃ text, FailsToMake c.before text) ∨
      (Unmade steps ∧ c.act ≠ .reset ∧ (c.act = .load → c.result ≠ .returned ())) := by
  constructor
  · rintro ⟨earlier, d, later, split, load, fails, since⟩
    rcases List.eq_nil_or_concat later with rfl | ⟨later, last, rfl⟩
    · obtain ⟨-, same⟩ := List.append_inj' split rfl
      cases same
      exact .inl ⟨load, fails⟩
    · rw [List.concat_eq_append, ← List.cons_append, ← List.append_assoc] at split
      obtain ⟨rfl, same⟩ := List.append_inj' split rfl
      cases same
      exact .inr ⟨⟨earlier, d, later, rfl, load, fails, fun x hx => since x (by simp [hx])⟩,
        since c (by simp)⟩
  · rintro (⟨load, fails⟩ | ⟨⟨earlier, d, later, rfl, load, fails, since⟩, kept⟩)
    · exact ⟨steps, c, [], rfl, load, fails, fun _ h => absurd h List.not_mem_nil⟩
    · refine ⟨earlier, d, later ++ [c], by simp, load, fails, fun x hx => ?_⟩
      rcases List.mem_append.1 hx with hx | hx
      · exact since x hx
      · exact List.mem_singleton.1 hx ▸ kept

/-- What an engine can be after steps: it is loaded and has a directory, or it is neither loaded nor has
one, unless a load failed to make it. -/
inductive Standing (setup : LocalSetup) (steps : List (EngineStep LocalEngine)) (e : LocalEngine) :
    Prop
  | loaded {text : String} (makes : ¬ Unmade steps)
    (stands : e.standing = (setup, some (.ofString text), true))
  | bare (makes : ¬ Unmade steps) (stands : e.standing = (setup, none, false))
  | unmade {text : String} (fails : Unmade steps) (asked : e.requestedDirectory = some text)
    (stands : e.standing = (setup, some (.ofString text), false))

namespace Standing

variable {e e' : LocalEngine}

theorem of_same {steps' : List (EngineStep LocalEngine)} (h : Standing setup steps e)
    (same : e'.standing = e.standing) (made : Unmade steps' ↔ Unmade steps) :
    Standing setup steps' e' := by
  cases h with
  | loaded makes stands => exact .loaded (mt made.1 makes) (same.trans stands)
  | bare makes stands => exact .bare (mt made.1 makes) (same.trans stands)
  | unmade fails asked stands =>
    refine .unmade (made.2 fails) ?_ (same.trans stands)
    rw [← asked]
    exact congrArg (fun s : LocalSetup × _ => s.1.directory.filter (!·.isEmpty)) same

theorem setup_eq (h : Standing setup steps e) : e.setup = setup := by
  cases h with
  | loaded _ stands => exact congrArg Prod.fst stands
  | bare _ stands => exact congrArg Prod.fst stands
  | unmade _ _ stands => exact congrArg Prod.fst stands

theorem cases (h : Standing setup steps e) :
    (¬ Unmade steps ∧ e.loaded = true ∧ ∃ text, e.directory = some (.ofString text)) ∨
    (¬ Unmade steps ∧ e.loaded = false ∧ e.directory = none) ∨
    (Unmade steps ∧ e.loaded = false ∧ ∃ text, e.requestedDirectory = some text ∧
      e.directory = some (.ofString text)) := by
  cases h with
  | loaded makes stands =>
    obtain ⟨-, directory, loaded⟩ := by simpa [standing] using stands
    exact .inl ⟨makes, loaded, _, directory⟩
  | bare makes stands =>
    obtain ⟨-, directory, loaded⟩ := by simpa [standing] using stands
    exact .inr (.inl ⟨makes, loaded, directory⟩)
  | unmade fails asked stands =>
    obtain ⟨-, directory, loaded⟩ := by simpa [standing] using stands
    exact .inr (.inr ⟨fails, loaded, _, asked, directory⟩)

theorem of_loaded (h : Standing setup steps e) (loaded : e.loaded = true) :
    ¬ Unmade steps ∧ ∃ text, e.directory = some (.ofString text) := by
  rcases h.cases with ⟨makes, -, directory⟩ | ⟨-, unloaded, -⟩ | ⟨-, unloaded, -⟩
  · exact ⟨makes, directory⟩
  · cases unloaded.symm.trans loaded
  · cases unloaded.symm.trans loaded

/-- A step leads on from each of the three. -/
theorem step {c : EngineStep LocalEngine} (h : Standing setup steps c.before.engine)
    (made : Made engine c) : Standing setup (steps ++ [c]) c.after.engine := by
  obtain ⟨load, ends⟩ | ⟨reset, stands⟩ | ⟨other, other', same⟩ := step_cases made
  · have concat : Unmade (steps ++ [c]) ↔ (∃ text, FailsToMake c.before text) ∨
        (Unmade steps ∧ c.result ≠ .returned ()) := by
      simp [unmade_concat, load]
    generalize c.result = o at ends concat
    cases ends with
    | already loaded left =>
      have unloaded (text : String) : ¬ FailsToMake c.before text := fun fails =>
        Bool.false_ne_true (fails.unloaded.symm.trans loaded)
      exact h.of_same (by rw [left]) (by simp [concat, (h.of_loaded loaded).1, unloaded])
    | refused unloaded fails makes left =>
      exact h.of_same (by rw [left]) (by simp [concat, makes, fails])
    | unmade fails left =>
      rw [left]
      refine .unmade (concat.2 (.inl ⟨_, fails⟩)) fails.asked ?_
      rw [← h.setup_eq, ← fails.unloaded]
      rfl
    | @done text owns unloaded makes left _ =>
      have stands : c.after.engine.standing = (setup, some (.ofString text), true) := by
        rw [left, ← h.setup_eq]
        rfl
      exact .loaded (by simp [concat, makes]) stands
  · rw [h.setup_eq] at stands
    exact .bare (by simp [unmade_concat, reset]) stands
  · exact h.of_same same (by simp [unmade_concat, other, other'])

end Standing

/-- Every life leads to one of the three. -/
theorem Lived.standing (life : Lived setup steps w) : Standing setup steps w.engine := by
  induction life with
  | start h =>
    refine .bare (fun fails => ?_) rfl
    obtain ⟨_, _, _, split, -⟩ := fails
    simp at split
  | host h _ ih => exact ih
  | look name _ ih => exact ih.of_same (sheltered_unmoved.lenient.hasEntry name _) .rfl
  | step _ made ih => exact ih.step made

/-! ## Access to storage -/

/-- What can be done with the file of an entry. -/
inductive Access : {α : Type} → (String → Action Host α) → Prop
  | write (content : ByteArray) : Access (Host.writeFile · content)
  | read : Access Host.readFile
  | delete : Access Host.unlink
  | look : Access Host.pathExists

/-- All four ways to access an entry have `P`. -/
def EachAccess (name : String) (P : ∀ {α : Type}, Action (World LocalEngine) α → Prop) : Prop :=
  (∀ content, P (write name content)) ∧ P (read name) ∧ P (delete name) ∧ P (hasEntry name)

theorem eachAccess_of {name : String} {P : ∀ {α : Type}, Action (World LocalEngine) α → Prop}
    (h : ∀ {α : Type} {x : String → Action Host α}, Access x →
      P (entryPath name >>= fun path => (liftM (x path) : Action (World LocalEngine) α))) :
    EachAccess name P :=
  ⟨fun content => h (.write content), h .read, h .delete, h .look⟩

/-- Work on files does not fail because of the engine. -/
theorem Access.loaded {α : Type} {x : String → Action Host α} (access : Access x) (path : String)
    (h : Host) : ((x path).run h).1 ≠ .raised .notLoaded := by
  have asked {β : Type} (question : FileTree → Except FileFault β) :
      ((Host.ask path question).run h).1 ≠ .raised .notLoaded := by
    show ((Host.ask path question) h).1 ≠ _
    unfold Host.ask
    split
    · exact nofun
    · split <;> exact nofun
  have changed (f : FileTree → Except FileFault FileTree) :
      ((Host.change path f).run h).1 ≠ .raised .notLoaded := by
    show ((Host.change path f) h).1 ≠ _
    unfold Host.change
    split
    · exact nofun
    · split <;> exact nofun
  cases access with
  | write content => exact changed _
  | read => exact asked _
  | delete => exact changed _
  | look =>
    show (Host.pathExists path h).1 ≠ _
    unfold Host.pathExists
    split
    · exact nofun
    · split <;> exact nofun

theorem entryPath_run (w : World LocalEngine) (name : String) :
    (entryPath name).run w = match w.engine.directory with
      | none => (.raised .notLoaded, w)
      | some D => if isEntryName name then (.returned (D.child name).toString, w)
          else (.raised (.invalidName name), w) := by
  unfold entryPath
  rw [Action.run_bind_of_returned (Action.run_get w)]
  cases w.engine.directory with
  | none => rfl
  | some D =>
    dsimp only
    split <;> rfl

/-- Access to an entry is refused as if the engine were not loaded exactly if it has no directory. -/
theorem access_refused_iff (w : World LocalEngine) (name : String) : EachAccess name fun x =>
    (x.run w = (.raised .notLoaded, w) ↔ w.engine.directory = none) := by
  refine eachAccess_of fun {α x} access => ?_
  have path := entryPath_run w name
  cases hd : w.engine.directory with
  | none =>
    rw [hd] at path
    exact iff_of_true (Action.run_bind_of_raised path) rfl
  | some D =>
    rw [hd] at path
    dsimp only at path
    refine iff_of_false (fun ran => ?_) nofun
    split at path
    · rw [Action.run_bind_of_returned path] at ran
      exact access.loaded _ _ (congrArg Prod.fst (engine_host ran).2)
    · cases (Action.run_bind_of_raised path).symm.trans ran

/-! ## Loaded engines and their directories -/

/-- The engine is loaded if and only if it has a directory, unless a load failed to make the directory
that was asked for, and since then the engine was neither reset nor loaded: then it has that directory
without being loaded. A load that does not return leaves the engine as it was, except that one which
fails to make the directory leaves it set. So the exception is also when an engine that is not loaded
does not refuse access to its storage for that. -/
theorem loaded_iff_directory (life : Lived setup steps w) :
    ((w.engine.loaded = true ↔ w.engine.directory.isSome = true) ↔ ¬ Unmade steps) ∧
    (w.engine.loaded = true → ∃ text, w.engine.directory = some (.ofString text)) ∧
    (Unmade steps → w.engine.loaded = false ∧ ∃ text, w.engine.requestedDirectory = some text ∧
      w.engine.directory = some (.ofString text)) ∧
    (∀ o w', load.run w = (o, w') →
      (o = .returned () → w'.engine.loaded = true ∧ w'.engine.directory.isSome = true) ∧
      (o ≠ .returned () → ((∀ text, ¬ FailsToMake w text) ∧ w'.engine = w.engine) ∨
        ∃ text, FailsToMake w text ∧
          w'.engine = { w.engine with directory := some (.ofString text) })) ∧
    (w.engine.loaded = false → ∀ name, EachAccess name fun x =>
      (x.run w = (.raised .notLoaded, w) ↔ ¬ Unmade steps)) := by
  have loads {o : Outcome Unit} {w' : World LocalEngine} (ran : load.run w = (o, w')) :
      (o = .returned () → w'.engine.loaded = true ∧ w'.engine.directory.isSome = true) ∧
      (o ≠ .returned () → ((∀ text, ¬ FailsToMake w text) ∧ w'.engine = w.engine) ∨
        ∃ text, FailsToMake w text ∧
          w'.engine = { w.engine with directory := some (.ofString text) }) := by
    cases load_ends ran with
    | already loaded left =>
      obtain ⟨-, text, directory⟩ := life.standing.of_loaded loaded
      rw [left, directory]
      exact ⟨fun _ => ⟨loaded, rfl⟩, absurd rfl⟩
    | refused _ fails makes left => exact ⟨fun ho => absurd ho fails, fun _ => .inl ⟨makes, left⟩⟩
    | unmade fails left => exact ⟨nofun, fun _ => .inr ⟨_, fails, left⟩⟩
    | done _ _ left _ =>
      rw [left]
      exact ⟨fun _ => ⟨rfl, rfl⟩, absurd rfl⟩
  have access := access_refused_iff w
  obtain ⟨makes, loaded, text, directory⟩ | ⟨makes, unloaded, directory⟩ |
    ⟨fails, unloaded, text, asked, directory⟩ := life.standing.cases <;> rw [directory] at access ⊢
  · refine ⟨by simp [loaded, makes], fun _ => ⟨text, rfl⟩, fun fails => absurd fails makes,
      fun _ _ => loads, fun unloaded => ?_⟩
    rw [loaded] at unloaded
    cases unloaded
  · refine ⟨by simp [unloaded, makes], fun loaded => ?_, fun fails => absurd fails makes,
      fun _ _ => loads, fun _ name => ?_⟩
    · rw [unloaded] at loaded
      cases loaded
    · simpa only [makes, not_false_eq_true, iff_true] using access name
  · refine ⟨by simp [unloaded, fails], fun loaded => ?_, fun _ => ⟨unloaded, text, asked, rfl⟩,
      fun _ _ => loads, fun _ name => ?_⟩
    · rw [unloaded] at loaded
      cases loaded
    · simpa only [fails, not_true_eq_false, reduceCtorEq] using access name

/-! ## A directory that cannot be made -/

/-- The name of the directory that is asked for leads to a file. -/
def obstructed : World LocalEngine where
  host := ((Host.writeFile "work" ⟨#[0]⟩).run {}).2
  engine := { setup := { directory := some "work" } }

/-- The step that an operation makes in a world. -/
def stepOf (act : EngineAct) (x : Action (World LocalEngine) Unit) (w : World LocalEngine) :
    EngineStep LocalEngine := ⟨act, w, (x.run w).1.end, (x.run w).2⟩

/-- The first load. -/
def firstLoad : EngineStep LocalEngine := stepOf .load load obstructed

/-- After it, the engine is reset. -/
def thenReset : EngineStep LocalEngine := stepOf .reset reset firstLoad.after

/-- Once the file is gone, the engine is loaded anew. -/
def secondLoad : EngineStep LocalEngine :=
  stepOf .load load { thenReset.after with host := {} }

theorem firstLoad_lived : Lived { directory := some "work" } [firstLoad] firstLoad.after :=
  @Lived.step _ [] firstLoad (.start obstructed.host) (.load obstructed)

theorem firstLoad_unmade : Unmade [firstLoad] :=
  ⟨[], firstLoad, [], rfl, rfl, ⟨"work", rfl, rfl, ⟨"", rfl⟩, .file .exists "work", rfl⟩,
    fun _ h => absurd h List.not_mem_nil⟩

theorem secondLoad_lived :
    Lived { directory := some "work" } [firstLoad, thenReset, secondLoad] secondLoad.after :=
  have reset : Lived _ [firstLoad, thenReset] thenReset.after :=
    @Lived.step _ [firstLoad] thenReset firstLoad_lived (.reset firstLoad.after)
  @Lived.step _ [firstLoad, thenReset] secondLoad (.host {} reset)
    (.load { thenReset.after with host := {} })

/-- The first load leaves a directory that is not there, and a reset and the second load mend it. -/
theorem obstructed_mended :
    Lived { directory := some "work" } [firstLoad] firstLoad.after ∧
    firstLoad.after.engine.loaded = false ∧
    (∃ text, firstLoad.after.engine.directory = some (.ofString text)) ∧
    Lived { directory := some "work" } [firstLoad, thenReset, secondLoad] secondLoad.after ∧
    ∃ text, secondLoad.after.engine.directory = some (.ofString text) := by
  obtain ⟨-, -, unmade, -⟩ := loaded_iff_directory firstLoad_lived
  obtain ⟨-, loaded, -⟩ := loaded_iff_directory secondLoad_lived
  obtain ⟨unloaded, text, -, directory⟩ := unmade firstLoad_unmade
  exact ⟨firstLoad_lived, unloaded, ⟨text, directory⟩, secondLoad_lived, loaded rfl⟩

/-- A load that raises may set the directory of an engine that is not loaded, whose storage can then be
looked into. -/
theorem directory_without_load :
    Lived { directory := some "work" } [firstLoad] firstLoad.after ∧
    firstLoad.result = .raised (.file .exists "work") ∧
    firstLoad.before.engine.directory = none ∧ firstLoad.after.engine.loaded = false ∧
    firstLoad.after.engine.directory = some (.ofString "work") ∧
    ((hasEntry "a").run firstLoad.after).1 = .returned false :=
  ⟨firstLoad_lived, rfl, rfl, rfl, rfl, rfl⟩

end LocalEngine

end VideoExport
