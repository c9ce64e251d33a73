import VideoExport.Proofs.CommandLine.Session

/-!
# What the exit code tells

The program tells by its exit code what became of its task (`exitCode_tells`). The code of a batch is zero
exactly if there was something to export and every item is done (`BatchTold`): it is made of the messages of
the items alone, but an item has a message exactly if it has failed. The code of a single export is zero
exactly if the job wrote its output, and one exactly if the export is reported to have failed (`ExportTold`).
Where no list can have the length that the log is to keep, a job does not begin, and there is no exit code.
-/

set_option autoImplicit false

namespace VideoExport.CommandLine

open LocalEngine (Keeping)

variable {arguments videos : List String} {video : String} {r : Request} {c : Config} {x y z : Session}
  {h h' : Host} {o : Outcome Nat} {added : List Nat}

/-- The output directory does not pass a temporary directory. -/
def Settled (c : Config) : Prop := ∀ n, Host.temporaryName n ∉ (Path.ofString c.outputDirectory).parts

/-- Time limits are in force for loading and executing. -/
structure Limited (c : Config) : Prop where
  load : (Deadline.limit? (some c.loadLimit)).isSome = true
  render : (Deadline.limit? (some c.renderLimit)).isSome = true

/-- A probe of a source never ends. -/
def ProbeHangs (c : Config) (h : Host) : Prop :=
  ((MediaProbe.ofConfig c).length : DurationProbe (Desk Unit)).Hangs h

/-- At the path there is a file that is not smaller than outputs have to be. -/
def Delivered (c : Config) (h : Host) (path : Path) : Prop :=
  ∃ f, h.file? path.toString = some f ∧ (Number.int f.content.size).lt c.minOutput = false

/-- What was delivered before the engine is closed is there in the end. -/
theorem Closes.delivered {path : Path} {f : StoredFile} (closes : Closes r y h')
    (lasting : Host.Lasting path.toString) (kept : Keeping path.toString f y.toWorld)
    (large : (Number.int f.content.size).lt c.minOutput = false) : Delivered c h' path := by
  obtain ⟨g, found, larger⟩ := closes.found lasting kept
  exact ⟨g, found, Number.not_lt_of_int_le (Int.ofNat_le.2 larger) large⟩

/-! ## A batch -/

/-- Every item of the tickets is done. -/
def AllDone (added : List Nat) (q : Queue) : Prop :=
  ∀ ticket ∈ added, ∃ item, q.ofTicket? ticket = some item ∧ item.status = .done

/-- What the end `o` of a batch, which leaves the exporter at `y` and the program at `h'`, tells of the items
that were added. -/
structure BatchTold (c : Config) (added : List Nat) (o : Outcome Nat) (y : Session) (h' : Host) : Prop where
  zero : added = [] ∨ Batch.FitsLog c → o ≠ .stalled →
    (o = .returned 0 ↔ added ≠ [] ∧ AllDone added y.client.queue)
  one : added = [] ∨ Batch.FitsLog c → o ≠ .stalled →
    (o = .returned 1 ↔ ¬ (added ≠ [] ∧ AllDone added y.client.queue))
  delivered : Batch.FitsLog c → o ≠ .stalled → Settled c → ∀ ticket ∈ added, ∀ item,
    y.client.queue.ofTicket? ticket = some item → item.status = .done →
      ∃ path, item.output = some path ∧ Delivered c h' path
  stalled : o = .stalled → Limited c → ProbeHangs c y.host
  unfit : added ≠ [] → ¬ Batch.FitsLog c → ∃ f, o = .raised f

theorem given_eq_none {value : Option String} : given value = none ↔ ∀ s, value = some s → s = "" := by
  cases value with
  | none => exact ⟨nofun, fun _ => rfl⟩
  | some s => simp [given, Option.filter]

/-- The code is zero exactly if no item has a message, and else it is one. -/
theorem batchCode_cases (items : List QueueItem) :
    batchCode items = 0 ∧ (∀ item ∈ items, given item.message = none) ∨
      batchCode items = 1 ∧ ∃ item ∈ items, given item.message ≠ none := by
  unfold batchCode
  split
  · rename_i some
    obtain ⟨item, mem, message⟩ := List.any_eq_true.1 some
    exact .inr ⟨rfl, item, mem, Option.isSome_iff_ne_none.1 message⟩
  · rename_i none
    refine .inl ⟨rfl, fun item mem => ?_⟩
    rw [← Option.not_isSome_iff_eq_none]
    exact fun message => none (List.any_eq_true.2 ⟨item, mem, message⟩)

/-- An item has a message exactly if it is not done. -/
theorem message_of_delivery {directory : Path} {item x : QueueItem} {w : World LocalEngine}
    (delivery : Batch.Delivery c directory item x w) : given x.message = none ↔ x.status = .done := by
  rw [given_eq_none]
  cases delivery with
  | failed status message told =>
    rw [status, message]
    exact ⟨fun empty => absurd (empty _ rfl) told, nofun⟩
  | done status _ message =>
    rw [status, message]
    exact ⟨fun _ => rfl, nofun⟩

/-- The code of items that are accounted for is zero exactly if all of them are done. -/
theorem batchCode_of_accounts {directory : Path} {items : List QueueItem}
    {j k : Batch.State LocalEngine Unit} (accounts : Batch.Accounts directory items j k) :
    batchCode (k.client.queue.ofTickets (items.map (·.ticket))) = 0 ∧
        AllDone (items.map (·.ticket)) k.client.queue ∨
      batchCode (k.client.queue.ofTickets (items.map (·.ticket))) = 1 ∧
        ¬ AllDone (items.map (·.ticket)) k.client.queue := by
  have ended {ticket : Nat} (ht : ticket ∈ items.map (·.ticket)) : ∃ x,
      k.client.queue.ofTicket? ticket = some x ∧ (given x.message = none ↔ x.status = .done) := by
    obtain ⟨item, mem, rfl⟩ := List.mem_map.1 ht
    obtain ⟨x, there, ticket, delivery⟩ := accounts.ends item mem
    exact ⟨x, ticket ▸ accounts.distinct.ofTicket?_eq there, message_of_delivery delivery⟩
  rcases batchCode_cases (k.client.queue.ofTickets (items.map (·.ticket))) with ⟨code, silent⟩ |
    ⟨code, x, mem, message⟩
  · refine .inl ⟨code, fun ticket ht => ?_⟩
    obtain ⟨x, found, told⟩ := ended ht
    exact ⟨x, found, told.1 (silent x (List.mem_filterMap.2 ⟨ticket, ht, found⟩))⟩
  · refine .inr ⟨code, fun done => ?_⟩
    obtain ⟨ticket, ht, found⟩ := List.mem_filterMap.1 mem
    obtain ⟨x', found', told⟩ := ended ht
    obtain ⟨x'', found'', status⟩ := done ticket ht
    cases found.symm.trans found'
    cases found.symm.trans found''
    exact message (told.2 status)

/-- A done item has delivered its file. -/
theorem delivered_of_accounts {items : List QueueItem} {j : Batch.State LocalEngine Unit}
    (accounts : Batch.Accounts (.ofString c.outputDirectory) items j y.toJob) (config : j.runner.config = c)
    (enlisted : ∀ item ∈ items, item.Enlisted) (closes : Closes r y h') (settled : Settled c) {ticket : Nat}
    (ht : ticket ∈ items.map (·.ticket)) {x : QueueItem} (found : y.client.queue.ofTicket? ticket = some x)
    (done : x.status = .done) : ∃ path, x.output = some path ∧ Delivered c h' path := by
  obtain ⟨item, mem, rfl⟩ := List.mem_map.1 ht
  obtain ⟨x', there, ticket, delivery⟩ := accounts.ends item mem
  cases found.symm.trans (ticket ▸ accounts.distinct.ofTicket?_eq there)
  cases delivery with
  | failed status _ _ => cases done.symm.trans status
  | done _ output _ delivers =>
    have outlet : Job.IsOutlet (Batch.outputOf (.ofString c.outputDirectory) item).toString :=
      Job.isOutlet_child settled (QueueItem.outputName_isEntry (enlisted item mem)) item.outputName_toList
    obtain ⟨f, kept, large⟩ := delivers outlet
    exact ⟨_, output, closes.delivered outlet.lasting kept (config ▸ large)⟩

theorem BatchTold.empty : BatchTold c [] (.returned 1) y h' where
  zero _ _ := ⟨nofun, fun some => absurd rfl some.1⟩
  one _ _ := ⟨fun _ some => some.1 rfl, fun _ => rfl⟩
  delivered _ _ _ _ none := absurd none List.not_mem_nil
  stalled := nofun
  unfit some := absurd rfl some

theorem BatchTold.refused {f : Failure} (some : added ≠ []) (unfit : ¬ Batch.FitsLog c) :
    BatchTold c added (.raised f) y h' where
  zero fine := absurd (fine.resolve_left some) unfit
  one fine := absurd (fine.resolve_left some) unfit
  delivered fits := absurd fits unfit
  stalled := nofun
  unfit _ _ := ⟨f, rfl⟩

theorem BatchTold.hanging (fits : Batch.FitsLog c)
    (hangs : LocalEngine.engine.Responsive c → ProbeHangs c y.host) : BatchTold c added .stalled y h' where
  zero _ ends := absurd rfl ends
  one _ ends := absurd rfl ends
  delivered _ ends := absurd rfl ends
  stalled _ limited := hangs (LocalEngine.responsive limited.load limited.render)
  unfit _ unfit := absurd fits unfit

theorem BatchTold.through {items : List QueueItem} {j : Batch.State LocalEngine Unit} (some : items ≠ [])
    (fits : Batch.FitsLog c) (enlisted : ∀ item ∈ items, item.Enlisted) (config : j.runner.config = c)
    (accounts : Batch.Accounts (.ofString c.outputDirectory) items j y.toJob) (closes : Closes r y h') :
    BatchTold c (items.map (·.ticket))
      (.returned (batchCode (y.client.queue.ofTickets (items.map (·.ticket))))) y h' := by
  have added : items.map (·.ticket) ≠ [] := fun none => some (List.map_eq_nil_iff.1 none)
  refine ⟨fun _ _ => ?_, fun _ _ => ?_, fun _ _ settled ticket ht item => ?_, nofun,
    fun _ unfit => absurd fits unfit⟩
  · obtain ⟨code, all⟩ | ⟨code, fails⟩ := batchCode_of_accounts accounts
    · exact ⟨fun _ => ⟨added, all⟩, fun _ => congrArg Outcome.returned code⟩
    · exact ⟨fun zero => absurd (code.symm.trans (Outcome.returned.inj zero)) Nat.one_ne_zero,
        fun done => absurd done.2 fails⟩
  · obtain ⟨code, all⟩ | ⟨code, fails⟩ := batchCode_of_accounts accounts
    · exact ⟨fun one => absurd (code.symm.trans (Outcome.returned.inj one)) Nat.zero_ne_one,
        fun fails => absurd ⟨added, all⟩ fails⟩
    · exact ⟨fun _ done => fails done.2, fun _ => congrArg Outcome.returned code⟩
  · exact delivered_of_accounts accounts config enlisted closes settled ht

/-- What a batch tells of the items that were put on the queue. -/
theorem exportSeveral_told {x₁ : Session} (queued : Exporter.Queued c x₁ added)
    (ids : (x₁.client.queue.items.map (·.id)).Nodup)
    (enqueued : (Exporter.enqueue (videos.map Path.ofString)).run x = (.returned added, x₁))
    (ran : (exportSeveral videos).run x = (o, y)) (closes : o ≠ .stalled → Closes r y h') :
    BatchTold c added o y h' := by
  obtain ⟨journal, skipped⟩ := forM_say (fun path : Path =>
    s!"⚠️  Ignorado (ilegível ou maior que o limite): {path}\n") x₁.client.queue.skipped x₁
  generalize hx₂ : { x₁ with host := { x₁.host with journal } } = x₂ at skipped
  have ids : (x₂.client.queue.items.map (·.id)).Nodup := hx₂ ▸ ids
  have queued : Exporter.Queued c x₂ added := hx₂ ▸
    ⟨queued.housed, queued.config, queued.idle, queued.tickets, queued.enlisted, queued.distinct⟩
  unfold exportSeveral at ran
  rw [Action.run_bind_of_returned enqueued, Action.run_bind_of_returned (Action.run_read _ _),
    Action.run_bind_of_returned skipped] at ran
  split at ran
  · rename_i none
    obtain rfl := List.isEmpty_iff.1 none
    cases ran
    exact .empty
  rename_i some
  have some : added ≠ [] := fun none => some (List.isEmpty_iff.2 none)
  by_cases fits : Batch.FitsLog c
  · have ended {p : Outcome (List Nat)} {z : Session}
        (hz : (Exporter.runBatch LocalEngine.engine none).run x₂ = (p, z)) :=
      Exporter.runBatch_accounts queued ids fits hz
    rcases Action.bind_eq ran with ⟨_, z, hz, ran⟩ | ⟨f, hz, rfl⟩ | ⟨hz, rfl⟩
    · obtain ⟨⟨⟩, -⟩ | ⟨⟨⟩, accounts⟩ := ended hz
      obtain ⟨journal', shown⟩ := forM_say itemLine
        ((z.client.queue.ofTickets added).filter fun item => item.status.isTerminal) z
      rw [Action.run_bind_of_returned (Action.run_read _ _), Action.run_bind_of_returned shown] at ran
      cases ran
      obtain rfl := queued.tickets
      exact .through (y := { z with host := { z.host with journal := journal' } })
        (fun none => some (List.map_eq_nil_iff.2 none)) fits queued.enlisted queued.config
        (accounts.beside ⟨rfl, rfl, rfl, rfl⟩ ⟨rfl, rfl, rfl, rfl⟩) (closes nofun)
    · obtain ⟨⟨⟩, -⟩ | ⟨⟨⟩, -⟩ := ended hz
    · obtain ⟨-, hangs⟩ | ⟨⟨⟩, -⟩ := ended hz
      exact .hanging fits hangs
  · rcases Action.bind_eq ran with ⟨_, z, hz, -⟩ | ⟨f, -, rfl⟩ | ⟨hz, rfl⟩
    · obtain ⟨_, ⟨⟩⟩ := Exporter.runBatch_unfit queued ids some fits hz
    · exact .refused some fits
    · obtain ⟨_, ⟨⟩⟩ := Exporter.runBatch_unfit queued ids some fits hz

/-! ## A single export -/

/-- The export of a video, with its progress shown. -/
def exported (video : String) : Action Session JobResult :=
  Exporter.exportFile LocalEngine.engine (.ofString video) (some showProgress)

/-- The source and the output have sizes that files can have. -/
structure Sized (video : String) (x : Session) : Prop where
  source : ∀ n h, (Host.size (Path.ofString video).toString).run x.host = (.returned n, h) → n < 2 ^ 64
  output : ∀ result y, (exported video).run x = (.returned result, y) → result.size < 2 ^ 64

/-- What the end `o` of a single export, which leaves the exporter at `y` and the program at `h'`, tells. -/
structure ExportTold (c : Config) (video : String) (x : Session) (o : Outcome Nat) (y : Session) (h' : Host) :
    Prop where
  zero : o = .returned 0 ↔ Exporter.Produces (.ofString video) (some showProgress) x
  one : o = .returned 1 ↔ ∃ cause tail z, (exported video).run x = (.raised (.exportFailed cause tail), z)
  fits : Batch.FitsLog c → o = .returned 0 ∨ o = .returned 1 ∨ o = .stalled
  delivered : o = .returned 0 → Settled c → Delivered c h'
    ((Path.ofString c.outputDirectory).child s!"processed_{(Path.ofString video).stem}.mp4")
  stalled : o = .stalled → Limited c → ProbeHangs c y.host
  unfit : ¬ Batch.FitsLog c → o = .returned 1 ∨ ∃ f, o = .raised f

theorem listens_showProgress : Exporter.Listens (some showProgress) := by
  rintro _ ⟨⟩ value d
  exact ⟨_, rfl, rfl⟩

/-- How the command ends for each end of the export. -/
inductive Ends : Outcome JobResult → Session → Outcome Nat → Session → Prop
  | done (result : JobResult) (z : Session) (journal : Journal) :
      Ends (.returned result) z (.returned 0) { z with host := { z.host with journal } }
  | failed (cause : Failure) (tail : List String) (z y : Session) :
      Ends (.raised (.exportFailed cause tail)) z (.returned 1) y
  | other (f : Failure) (z : Session) (plain : ∀ cause tail, f ≠ .exportFailed cause tail) :
      Ends (.raised f) z (.raised f) z
  | stalled (z : Session) : Ends .stalled z .stalled z

theorem exportSingle_ends {p : Outcome JobResult} (sized : Sized video x)
    (exports : (exported video).run x = (p, z)) (ran : (exportSingle video).run x = (o, y)) :
    Ends p z o y := by
  unfold exportSingle at ran
  rcases Action.attempt_bind_eq ran with ⟨result, _, hu, rest⟩ | ⟨f, _, hu, rest⟩ | ⟨hu, rfl⟩
  · cases exports.symm.trans hu
    obtain ⟨t, shown⟩ := Size.text_ok (sized.output result z hu) 2
    obtain ⟨_, _, ⟨⟩, rest⟩ := Action.bind_total rest ⟨_, _, rfl⟩
    rw [shown] at rest
    cases rest
    exact .done result z _
  · cases exports.symm.trans hu
    dsimp only at rest
    split at rest
    · cases ‹Except.error _ = _›
    · rename_i cause tail failed
      cases failed
      split at rest <;> cases rest <;> exact .failed cause tail _ _
    · rename_i plain failed
      cases failed
      cases rest
      exact .other f _ fun cause tail same => plain cause tail (same ▸ rfl)
  · cases exports.symm.trans hu
    exact .stalled y

/-- What the export of a video tells. -/
theorem exportSingle_told (fresh : Exporter.Fresh c x) (hexadecimal : x.host.Hexadecimal)
    (plain : Host.hasNull (Path.ofString video).toString = false) (sized : Sized video x)
    (ran : (exportSingle video).run x = (o, y)) (closes : o ≠ .stalled → Closes r y h') :
    ExportTold c video x o y h' := by
  rcases exports : (exported video).run x with ⟨p, z⟩
  have runs := exports
  unfold exported at runs
  have ends := exportSingle_ends sized exports ran
  have zero : o = .returned 0 ↔ ∃ result, p = .returned result := by
    cases ends <;> simp
  have one : o = .returned 1 ↔ ∃ cause tail, p = .raised (.exportFailed cause tail) := by
    cases ends <;> simp_all
  refine ⟨zero.trans ?_, one.trans ?_, fun fits => ?_, fun done settled => ?_, fun stalled limited => ?_,
    fun unfit => ?_⟩
  · rw [← Exporter.exportFile_returns_iff listens_showProgress]
    exact ⟨fun ⟨result, hp⟩ => ⟨result, z, hp ▸ exports⟩, fun ⟨result, _, returned⟩ =>
      ⟨result, congrArg Prod.fst (exports.symm.trans returned)⟩⟩
  · exact ⟨fun ⟨cause, tail, hp⟩ => ⟨cause, tail, z, hp ▸ exports⟩, fun ⟨cause, tail, _, raised⟩ =>
      ⟨cause, tail, congrArg Prod.fst (exports.symm.trans raised)⟩⟩
  · cases ends with
    | done _ _ _ => exact .inl rfl
    | failed _ _ _ _ => exact .inr (.inl rfl)
    | other f _ other =>
      obtain ⟨cause, tail, reported⟩ :=
        Exporter.exportFile_raised fresh hexadecimal plain sized.source fits listens_showProgress runs
      exact absurd reported (other cause tail)
    | stalled _ => exact .inr (.inr rfl)
  · obtain rfl := done
    cases ends with
    | done result _ journal =>
      obtain ⟨output, f, kept, large⟩ := Exporter.exportFile_delivers fresh hexadecimal plain sized.source
        listens_showProgress settled runs
      have outlet :=
        Job.isOutlet_child settled (Exporter.outputName_isEntry video) (Exporter.outputName_toList _)
      rw [output] at kept
      exact (closes nofun).delivered outlet.lasting ⟨kept.housed, kept.found⟩ large
  · obtain rfl := stalled
    cases ends with
    | stalled _ =>
      exact Exporter.exportFile_stalled fresh hexadecimal plain sized.source
        (LocalEngine.responsive limited.load limited.render) listens_showProgress runs
  · obtain ⟨f, rfl⟩ := Exporter.exportFile_unfit fresh hexadecimal plain sized.source unfit runs
    cases ends with
    | failed _ _ _ _ => exact .inl rfl
    | other f _ _ => exact .inr ⟨f, rfl⟩

/-! ## The program -/

/-- The videos that a task is about. -/
def videosOf : Task → List String
  | .single video => [video]
  | .several videos => videos

/-- What the end of a task tells. -/
def Told (c : Config) (task : Task) (x : Session) (o : Outcome Nat) (y : Session) (h' : Host) : Prop :=
  match task with
  | .single video => Sized video x → ExportTold c video x o y h'
  | .several videos =>
    ∃ added x₁, (Exporter.enqueue (videos.map Path.ofString)).run x = (.returned added, x₁) ∧
      ((x₁.client.queue.items.map (·.id)).Nodup → BatchTold c added o y h')

/-- The program, once it is prepared, ends as its task does, which is told by the exit code; unless it never
ends, the engine is closed once. Paths that no file can have are not accepted. -/
theorem exitCode_tells (asked : read arguments = .ok r) (prepared : Prepared r h c x)
    (hexadecimal : x.host.Hexadecimal) : ∃ o y h', (perform r.task).run x = (o, y) ∧
      (run arguments).run h = (o, h') ∧ (o ≠ .stalled → Closes r y h') ∧
      ((∃ video ∈ videosOf r.task, Host.hasNull (Path.ofString video).toString = true) →
        o = .raised .nullCharacter) ∧
      ((∀ video ∈ videosOf r.task, Host.hasNull (Path.ofString video).toString = false) →
        Told c r.task x o y h') := by
  rcases ran : (perform r.task).run x with ⟨o, y⟩
  obtain ⟨h', ends, closes⟩ := run_prepared asked prepared ran
  refine ⟨o, y, h', rfl, ends, closes, fun null => ?_, fun plain => ?_⟩
  · cases task : r.task with
    | single video =>
      rw [task] at ran null
      obtain ⟨video', mem, null⟩ := null
      obtain rfl := List.mem_singleton.1 mem
      have raised : (exportSingle video').run x = (.raised .nullCharacter, x) :=
        Action.run_bind_of_returned (Action.attempt_error.2 (Exporter.exportFile_null null))
      exact congrArg Prod.fst (ran.symm.trans raised)
    | several videos =>
      rw [task] at ran null
      rcases enqueued : (Exporter.enqueue (videos.map Path.ofString)).run x with ⟨p, x₁⟩
      obtain ⟨video, mem, null⟩ := null
      obtain ⟨-, rfl⟩ | ⟨plain, -⟩ := Exporter.enqueue_cases prepared.fresh hexadecimal enqueued
      · exact congrArg Prod.fst (ran.symm.trans (Action.run_bind_of_raised enqueued))
      · cases null.symm.trans (plain _ (List.mem_map_of_mem mem))
  · cases task : r.task with
    | single video =>
      rw [task] at ran plain
      exact fun sized => exportSingle_told prepared.fresh hexadecimal (plain video (.head _)) sized ran closes
    | several videos =>
      rw [task] at ran plain
      rcases enqueued : (Exporter.enqueue (videos.map Path.ofString)).run x with ⟨p, x₁⟩
      obtain ⟨⟨path, mem, null⟩, -⟩ | ⟨-, added, rfl, queued⟩ :=
        Exporter.enqueue_cases prepared.fresh hexadecimal enqueued
      · obtain ⟨video, there, rfl⟩ := List.mem_map.1 mem
        cases null.symm.trans (plain video there)
      · exact ⟨added, x₁, enqueued, fun ids => exportSeveral_told queued ids enqueued ran closes⟩

/-! ## A batch of two videos, one of which is missing -/

/-- A host with a video and a configuration file, whose probe and whose encoder work. -/
def clipHost (configuration : String) : Host :=
  ((do
    Host.writeFile "clip.mp4" ⟨#[0]⟩
    Host.writeFile "config.json" configuration.toUTF8 : Action Host Unit).run {
      probes := [.prints "\x7b\"format\": \x7b\"duration\": \"10.0\"\x7d\x7d"]
      processes := [{ written := some 300 }] }).2

/-- The host with the default configuration. -/
def usualHost : Host := clipHost "\x7b\x7d"

/-- The host with a configuration whose log is to keep more lines than a list can have. -/
def oversizedHost : Host := clipHost "\x7b\"log_buffer_size\": 9223372036854775808\x7d"

def clipArguments : List String := ["batch", "clip.mp4", "gone.mp4"]

def clipRequest : Request := { options := {}, task := .several ["clip.mp4", "gone.mp4"] }

/-- The configuration that is loaded and the exporter that is prepared. -/
def prepared? (r : Request) (h : Host) : Option (Config × Session) :=
  match (opens r).run h with
  | (.returned (), h₁) =>
    match (configuration r.options).run h₁ with
    | (.returned c, h₂) =>
      match (prepare r.options).run (Exporter.ofConfig h₂ { setup := .ofConfig c } c ()) with
      | (.returned (), x) => some (c, x)
      | _ => none
    | _ => none
  | _ => none

theorem prepared_of_some (found : prepared? r h = some (c, x)) : Prepared r h c x := by
  unfold prepared? at found
  split at found
  · rename_i h₁ opened
    split at found
    · rename_i h₂ configured
      split at found
      · rename_i prepares
        cases found
        exact ⟨h₁, h₂, opened, configured, prepares⟩
      · cases found
    · cases found
  · cases found

/-- The log is to keep so many lines, and one of the videos is put on the queue. -/
structure ClipEnqueued (buffer : Int) (c : Config) (x x₁ : Session) : Prop where
  buffer : c.logBuffer = some buffer
  identifiers : x.host.identifiers = []
  enqueued : (Exporter.enqueue (["clip.mp4", "gone.mp4"].map Path.ofString)).run x = (.returned [0], x₁)
  ids : (x₁.client.queue.items.map (·.id)).Nodup

/-- Whether the preparation comes to that. -/
def enqueuesClip (buffer : Int) : Config × Session → Bool
  | (c, x) => decide (c.logBuffer = some buffer) && x.host.identifiers.isEmpty &&
    match (Exporter.enqueue (["clip.mp4", "gone.mp4"].map Path.ofString)).run x with
    | (.returned added, x₁) => decide (added = [0]) && decide (x₁.client.queue.items.map (·.id)).Nodup
    | _ => false

theorem clipEnqueued_of_any (buffer : Int)
    (enqueues : (prepared? clipRequest h).any (enqueuesClip buffer) = true) :
    ∃ c x x₁, Prepared clipRequest h c x ∧ ClipEnqueued buffer c x x₁ := by
  obtain ⟨⟨c, x⟩, found, told⟩ := (Option.any_eq_true _ _).1 enqueues
  simp only [enqueuesClip, Bool.and_eq_true, decide_eq_true_eq, List.isEmpty_iff] at told
  obtain ⟨⟨buffer, identifiers⟩, enqueued⟩ := told
  split at enqueued
  · rename_i added x₁ ran
    obtain ⟨rfl, ids⟩ : added = [0] ∧ _ := by simpa only [Bool.and_eq_true, decide_eq_true_eq] using enqueued
    exact ⟨c, x, x₁, prepared_of_some found, buffer, identifiers, ran, ids⟩
  · cases enqueued

/-- One of the videos is exported, as the exit code tells. -/
theorem clip_exported : ∃ c x y h', read clipArguments = .ok clipRequest ∧
    Prepared clipRequest usualHost c x ∧ x.host.Hexadecimal ∧
    (run clipArguments).run usualHost = (.returned 0, h') ∧ Closes clipRequest y h' ∧
    AllDone [0] y.client.queue := by
  have asked : read clipArguments = .ok clipRequest := by rfl
  obtain ⟨c, x, x₁, prepared, clip⟩ := clipEnqueued_of_any (h := usualHost) 200 (by decide +kernel)
  have hexadecimal : x.host.Hexadecimal := by
    rw [Host.Hexadecimal, clip.identifiers]
    exact fun _ none => absurd none List.not_mem_nil
  have code : ((run clipArguments).run usualHost).1.returned? = some 0 := by decide +kernel
  obtain ⟨o, y, h', -, ran, closes, -, told⟩ := exitCode_tells asked prepared hexadecimal
  rw [ran] at code
  obtain rfl := Outcome.returned?_eq_some.1 code
  obtain ⟨added, x₁', enqueued, told⟩ := told (by decide +kernel)
  cases enqueued.symm.trans clip.enqueued
  have fits : Batch.FitsLog c := by
    intro n limit
    cases clip.buffer.symm.trans limit
    decide
  have done := ((told clip.ids).zero (.inr fits) nofun).1 rfl
  exact ⟨c, x, y, h', asked, prepared, hexadecimal, ran, closes nofun, done.2⟩

/-- With a log that is to keep more lines than a list can have, a video is put on the queue, but the program
does not come to its exit code. -/
theorem oversized_log_without_code : ∃ c x x₁ f h', read clipArguments = .ok clipRequest ∧
    Prepared clipRequest oversizedHost c x ∧ (∀ n, c.logBuffer = some n → 0 ≤ n) ∧
    (Exporter.enqueue (["clip.mp4", "gone.mp4"].map Path.ofString)).run x = (.returned [0], x₁) ∧
    (x₁.client.queue.items.map (·.id)).Nodup ∧
    (run clipArguments).run oversizedHost = (.raised f, h') := by
  obtain ⟨c, x, x₁, prepared, clip⟩ :=
    clipEnqueued_of_any (h := oversizedHost) 9223372036854775808 (by decide +kernel)
  have codeless : ((run clipArguments).run oversizedHost).1.returned? = none := by decide +kernel
  have ended : ((run clipArguments).run oversizedHost).1.ended = true := by decide +kernel
  rcases ran : (run clipArguments).run oversizedHost with ⟨_ | f | _, h'⟩
  · rw [ran] at codeless
    cases codeless
  · refine ⟨c, x, x₁, f, h', rfl, prepared, fun n limit => ?_, clip.enqueued, clip.ids, rfl⟩
    cases clip.buffer.symm.trans limit
    decide
  · rw [ran] at ended
    cases ended

end VideoExport.CommandLine
