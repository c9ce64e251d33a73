import VideoExport.CommandLine.Run
import VideoExport.Proofs.Exporter.Delivery

/-!
# A session with the program

Once the log is open, the configuration loaded and the exporter prepared (`Prepared`), the program does its
task, drops what the engine holds and writes its log, and ends as the task does (`run_prepared`). What is on
the console at the end does not matter for that, and a file that was delivered is there still
(`Closes.found`).
-/

set_option autoImplicit false

namespace VideoExport

/-- Nothing is done at the end. -/
theorem Action.ensuring_pure {ω α : Type} (x : Action ω α) : x.ensuring (Pure.pure ()) = x := by
  funext s
  show (x.ensuring (Pure.pure ())).run s = x.run s
  rcases ran : x.run s with ⟨_ | _ | _, t⟩
  · exact Action.run_ensuring_of_returned ran rfl
  · exact Action.run_ensuring_of_raised ran rfl
  · exact Action.run_bind_of_stalled (Action.attempt_stalled.2 ran)

namespace CommandLine

open LocalEngine (Keeping)

variable {arguments : List String} {r : Request} {c : Config} {x y : Session} {h h' : Host} {o : Outcome Nat}

/-! ## The course of the program -/

/-- Opens the log that a request asks for. -/
def opens (r : Request) : Action Host Unit :=
  match given (some r.options.logFile) with
  | none => pure ()
  | some path => openLog path

/-- Writes the records into the log that a request asks for. -/
def records (r : Request) : Action Host Unit :=
  match given (some r.options.logFile) with
  | none => pure ()
  | some path => writeLog path r.options.logLevel

/-- What is asked for is done between the opening of the log and its writing. -/
theorem run_of_read (asked : read arguments = .ok r) :
    run arguments = (do opens r; (fulfil r).ensuring (records r)) := by
  unfold run opens records
  rw [asked]
  dsimp only
  cases given (some r.options.logFile) with
  | none =>
    dsimp only
    rw [Action.ensuring_pure]
    rfl
  | some path => rfl

/-- The log is open, the configuration is `c`, and the exporter that is prepared with the options stands
at `x`. -/
def Prepared (r : Request) (h : Host) (c : Config) (x : Session) : Prop :=
  ∃ h₁ h₂, (opens r).run h = (.returned (), h₁) ∧ (configuration r.options).run h₁ = (.returned c, h₂) ∧
    (prepare r.options).run (Exporter.ofConfig h₂ { setup := .ofConfig c } c ()) = (.returned (), x)

/-- From `y` on, all that is done is that the engine drops what it holds, once, and the log is written. -/
def Closes (r : Request) (y : Session) (h' : Host) : Prop :=
  ∃ z, (Exporter.close LocalEngine.engine).run y = (.returned (), z) ∧
    z.engine.standing = (y.engine.setup, none, false) ∧ (records r).run z.host = (.returned (), h')

/-- Nothing comes of it if the log cannot be written. -/
theorem writeLog_run (path : String) (threshold : Level) (h : Host) : (writeLog path threshold).run h =
    (.returned (), ((Host.appendFile path (h.journal.fileText threshold h.now)).run h).2) := by
  unfold writeLog
  rw [Action.run_bind_of_returned (Action.run_get h)]
  rcases appended : (Host.appendFile path (h.journal.fileText threshold h.now)).run h with ⟨_ | f | _, h'⟩
  · exact Action.run_bind_of_returned (Action.attempt_ok.2 appended)
  · exact Action.run_bind_of_returned (Action.attempt_error.2 appended)
  · exact absurd (congrArg Prod.fst appended) (Host.responds_change _ _ _)

theorem records_run (r : Request) (h : Host) : ∃ h', (records r).run h = (.returned (), h') := by
  unfold records
  split
  · exact ⟨h, rfl⟩
  · exact ⟨_, writeLog_run _ _ h⟩

theorem close_run (y : Session) : ∃ w, LocalEngine.reset.run y.toWorld = (.returned (), w) ∧
    (Exporter.close LocalEngine.engine).run y = (.returned (), { y with toWorld := w }) ∧
    w.engine.standing = (y.engine.setup, none, false) := by
  obtain ⟨w, ran, engine, -⟩ := LocalEngine.reset_run y.toWorld
  exact ⟨w, ran, congrArg (fun p : Outcome Unit × World LocalEngine => (p.1, { y with toWorld := p.2 })) ran,
    congrArg LocalEngine.standing engine⟩

/-- The program ends as its task does; unless it never ends, the engine is closed. -/
theorem run_prepared (asked : read arguments = .ok r) (prepared : Prepared r h c x)
    (ran : (perform r.task).run x = (o, y)) : ∃ h', (run arguments).run h = (o, h') ∧
      (o ≠ .stalled → Closes r y h') := by
  obtain ⟨h₁, h₂, opened, configured, prepares⟩ := prepared
  have fulfils {p : Outcome Nat} {z : Session}
      (hz : ((perform r.task).ensuring (Exporter.close LocalEngine.engine)).run x = (p, z)) :
      (fulfil r).run h₁ = (p, z.host) := by
    unfold fulfil
    rw [Action.run_bind_of_returned configured]
    unfold withExporter
    rw [Action.run_zoom, Action.run_bind_of_returned prepares, hz]
  rw [run_of_read asked, Action.run_bind_of_returned opened]
  obtain ⟨w, -, closed, standing⟩ := close_run y
  obtain ⟨h', recorded⟩ := records_run r w.host
  cases o with
  | returned code =>
    have fulfilled := fulfils (Action.run_ensuring_of_returned ran closed)
    exact ⟨h', Action.run_ensuring_of_returned fulfilled recorded, fun _ => ⟨_, closed, standing, recorded⟩⟩
  | raised f =>
    have fulfilled := fulfils (Action.run_ensuring_of_raised ran closed)
    exact ⟨h', Action.run_ensuring_of_raised fulfilled recorded, fun _ => ⟨_, closed, standing, recorded⟩⟩
  | stalled =>
    have fulfilled := fulfils (Action.run_bind_of_stalled (Action.attempt_stalled.2 ran))
    exact ⟨y.host, Action.run_bind_of_stalled (Action.attempt_stalled.2 fulfilled),
      fun ends => absurd rfl ends⟩

/-! ## Before the task -/

/-- The engine, the configuration and the client stay as they are. -/
def unprepared : Evolution Session := .same fun x => (x.engine, x.runner.config, x.client)

theorem follows_given {E : Evolution Session} {value : Option String} {attach : String → Action Session Unit}
    {rest : Unit → Action Session Unit} (attached : ∀ path, (attach path).Follows E)
    (after : ∀ u, (rest u).Follows E) :
    (match value with
      | some path => attach path >>= rest
      | none => rest ()).Follows E := by
  cases value with
  | none => exact after ()
  | some path => exact .bind (attached path) after

/-- Preparing an exporter is a matter of its settings and attachments. -/
theorem follows_prepare (o : Options) : (prepare o).Follows unprepared := by
  have put (s : Settings) : (Exporter.putSettings s).Follows unprepared := .modify fun _ => rfl
  have image (path : String) : (Exporter.attachImage (some (.ofString path))).Follows unprepared :=
    .bind (.modify fun _ => rfl) fun _ => .bind (.ofExcept _) fun _ => .bind .get fun _ =>
      .bind (.read _) fun _ => .bind (.ofExcept _) fun _ => put _
  have font (path : String) : (Exporter.attachFont (some (.ofString path))).Follows unprepared :=
    .modify fun _ => rfl
  refine follows_given image fun _ => follows_given font fun _ => ?_
  split
  · have document {α : Type} (x : Action Host α) : (liftM x : Action Session α).Follows unprepared :=
      .zoom (F := .same fun j : Job LocalEngine (Desk Unit) => (j.engine, j.runner.config, j.client))
        (.zoom (.any x) fun _ _ _ => rfl) fun _ _ same => same
    exact .bind (document _) fun _ => .bind (.read _) fun _ => .bind (.ofExcept _) fun _ =>
      .bind (.read _) fun _ => .bind (.ofNumeric _) fun _ => put _
  · exact .pure _

theorem Prepared.fresh (prepared : Prepared r h c x) : Exporter.Fresh c x := by
  obtain ⟨h₁, h₂, -, -, prepares⟩ := prepared
  have fresh := Exporter.fresh_ofConfig h₂ (.ofConfig c) c ()
  obtain ⟨engine, rest⟩ := Prod.mk.inj ((follows_prepare r.options).of_run prepares)
  obtain ⟨config, client⟩ := Prod.mk.inj rest
  exact ⟨engine ▸ fresh.housed, config.trans fresh.config, client ▸ fresh.idle, client ▸ fresh.queue⟩

/-! ## After the task -/

/-- A file that was delivered is still there at the end, if the log was not written into it even larger. -/
theorem Closes.found {path : String} {f : StoredFile} (closes : Closes r y h') (lasting : Host.Lasting path)
    (kept : Keeping path f y.toWorld) : ∃ g, h'.file? path = some g ∧ f.content.size ≤ g.content.size := by
  obtain ⟨z, closed, -, recorded⟩ := closes
  obtain ⟨w, dropped, closed', -⟩ := close_run y
  cases closed.symm.trans closed'
  have kept : Keeping path f w := (LocalEngine.keeping_reset lasting).of_run dropped kept
  unfold records at recorded
  split at recorded
  · cases recorded
    exact ⟨f, kept.found, Nat.le_refl _⟩
  · rw [writeLog_run] at recorded
    cases recorded
    exact Host.appendFile_found kept.found

/-! ## The console -/

/-- What is said line by line is on the console then, and nothing else is changed. -/
theorem forM_say {α : Type} (text : α → String) : ∀ (l : List α) (x : Session), ∃ journal,
    (l.forM fun a => say (text a)).run x = (.returned (), { x with host := { x.host with journal } })
  | [], x => ⟨x.host.journal, rfl⟩
  | a :: l, x => by
    obtain ⟨journal, ran⟩ := forM_say text l
      { x with host := { x.host with journal := x.host.journal ++ [.output (text a)] } }
    exact ⟨journal, (Action.run_bind_of_returned (x := say (text a)) rfl).trans ran⟩

end CommandLine

end VideoExport
