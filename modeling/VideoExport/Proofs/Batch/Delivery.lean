import VideoExport.Proofs.Batch.Isolation
import VideoExport.Proofs.Job.Client
import VideoExport.Proofs.Job.Delivery

/-!
# The delivery of a batch

A batch on the local engine that nobody listens to. Each of its items is done or has failed, and tells which
by its message (`Delivery`): a done item has none and has delivered a file, which the items after it leave
alone, and a failed one has a message that is not empty. The batch comes to its end with all of its items
accounted for (`Accounts`), unless the probe of a source never ends (`render_accounts`).
-/

set_option autoImplicit false

namespace VideoExport

/-- The probe changes neither the files nor the client. -/
structure DurationProbe.Harmless {κ : Type} (probe : DurationProbe κ) : Prop where
  files : ∀ path, (probe path).Follows (Host.keepsFiles.on Caller.host)
  client : ∀ path, (probe path).Follows (.same Caller.client)

/-- A probe never ends, and leaves a host. -/
def DurationProbe.Hangs {κ : Type} (probe : DurationProbe κ) (h : Host) : Prop :=
  ∃ path c d, (probe path).run c = (.stalled, d) ∧ h = d.host

namespace Batch

open FileTree (goal)
open LocalEngine (Housed Keeping)

variable {σ κ : Type} {e : Engine σ} {probe : DurationProbe (Desk κ)} {directory : Path} {s : Settings}
  {attachments : Attachments} {item x : QueueItem} {items : List QueueItem} {q : Queue}

/-! ## One item -/

theorem requestFor_output : (requestFor directory s attachments item).output = outputOf directory item := by
  rw [requestFor, outputOf]

/-- In the place of the item stands one without a message. -/
def Unmarked (q : Queue) (item : QueueItem) (m : Desk κ) : Prop :=
  ∃ x, Queue.Slot q item x ∧ x.message = none ∧ m.queue = q.replace x

/-- While its job runs, an item gets no message. -/
theorem run_unmarked {r : JobRequest} {i j : State σ κ} {p : Outcome JobResult} (harmless : probe.Harmless)
    (ran : (Job.run e probe r (some (onProgress none item))).run i = (p, j))
    (unmarked : Unmarked q item i.client) : Unmarked q item j.client := by
  have told : ∀ tell, some (onProgress none item) = some tell → ∀ value,
      (tell value).Follows ((Evolution.keeping (Unmarked (κ := κ) q item)).on Caller.client) := by
    rintro _ ⟨⟩ value c ⟨x, slot, message, queue⟩
    have ticket : (x.advance (.real value)).ticket = x.ticket := rfl
    refine ⟨x.advance (.real value), ⟨slot.distinct, slot.mem, slot.ticket, slot.id⟩, message, ?_⟩
    show c.client.queue.updateTicket _ _ = _
    rw [queue, slot.updateTicket_replace (f := (·.advance (.real value))) ticket]
  have asked : ∀ path, (probe path).Follows
      ((Evolution.keeping (Unmarked (κ := κ) q item)).on Caller.client) :=
    fun path => (harmless.client path).mono fun c d same (h : Unmarked q item c.client) =>
      show Unmarked q item d.client from (same : d.client = c.client) ▸ h
  exact (Job.follows_run asked told).of_run ran unmarked

/-- What an item is marked with after its job. -/
inductive Marked (directory : Path) (item x : QueueItem) : Outcome JobResult → Prop
  | done {result : JobResult} (status : x.status = .done) (output : x.output = some (outputOf directory item))
      (message : x.message = none) : Marked directory item x (.returned result)
  | failed {cause : Failure} {tail : List String} {m : String} (status : x.status = .error)
      (message : x.message = some m) (told : m ≠ "") :
      Marked directory item x (.raised (.exportFailed cause tail))

section
variable {j k : State σ κ} {o : Outcome Unit}

/-- The export of an item comes to its end with its job, and marks the item as that ended. -/
theorem renderItem_cases (harmless : probe.Harmless) (fits : FitsLog j.runner.config)
    (distinct : j.client.queue.Distinct) (mem : item ∈ j.client.queue.items)
    (ran : (renderItem e probe directory s attachments none item).run j = (o, k)) :
    (o = .stalled ∧ (Job.run e probe (requestFor directory s attachments item)
      (some (onProgress none item))).run (announced item j) = (.stalled, k)) ∨
    ∃ p i x, (Job.run e probe (requestFor directory s attachments item)
        (some (onProgress none item))).run (announced item j) = (p, i) ∧ o = .returned () ∧
      Marked directory item x p ∧ Queue.Slot j.client.queue item x ∧
      k = { i with client := { i.client with queue := j.client.queue.replace x } } := by
  rcases hp : (Job.run e probe (requestFor directory s attachments item)
    (some (onProgress none item))).run (announced item j) with ⟨p, i⟩
  have unmarked : Unmarked j.client.queue item i.client := run_unmarked harmless hp
    ⟨item.apply started, (Queue.Slot.self distinct mem).apply rfl, rfl, distinct.update_eq mem started⟩
  obtain ⟨x, slot, message, queue⟩ := unmarked
  -- the change that the end of the job makes is made in the place of the item
  have settled {r : Except Failure JobResult} (change : ItemChange) (keeps : change.id = none)
      (hr : (Job.run e probe (requestFor directory s attachments item)
        (some (onProgress none item))).attempt.run (announced item j) = (.returned r, i))
      (hs : (settle item r : Action (Caller (Desk κ)) Unit) = updateQueue (·.update item.id change)) :
      o = .returned () ∧ Queue.Slot j.client.queue item (x.apply change) ∧
        k = { i with client := { i.client with queue := j.client.queue.replace (x.apply change) } } := by
    obtain ⟨rfl, rfl⟩ := Prod.mk.inj (ran.symm.trans (renderItem_none hr hs))
    exact ⟨rfl, slot.apply keeps, by rw [queue, slot.update_replace]⟩
  cases p with
  | returned result =>
    obtain ⟨rfl, slot', left⟩ := settled (succeeded result.output) rfl (Action.attempt_ok.2 hp) rfl
    exact .inr ⟨_, i, x.apply (succeeded result.output), rfl, rfl,
      .done rfl (congrArg some ((Job.returned_output hp).trans requestFor_output)) message, slot', left⟩
  | raised f =>
    cases Job.ending_of_run hp nofun with
    | refused why =>
      obtain ⟨s', hs⟩ := Settings.sanitize_record s attachments.image.isSome
      exact absurd why (not_refused fits hs)
    | @failed _ _ _ _ cause tail =>
      obtain ⟨rfl, slot', left⟩ := settled (failed cause tail) rfl (Action.attempt_error.2 hp) rfl
      exact .inr ⟨_, i, x.apply (failed cause tail), rfl, rfl,
        .failed rfl rfl (Failure.summary_ne_empty cause tail), slot', left⟩
    | untold _ _ told => cases told
  | stalled =>
    unfold renderItem at ran
    rw [Action.run_bind_of_returned (announce_none item j),
      Action.run_bind_of_stalled (Action.attempt_stalled.2 hp)] at ran
    cases ran
    exact .inl ⟨rfl, rfl⟩

end

/-! ## One item on the local engine -/

/-- What becomes of an item: it has failed and says so, or it is done, says nothing, and has delivered its
file. -/
inductive Delivery (c : Config) (directory : Path) (item x : QueueItem) (w : World LocalEngine) : Prop
  | failed {m : String} (status : x.status = .error) (message : x.message = some m) (told : m ≠ "")
  | done (status : x.status = .done) (output : x.output = some (outputOf directory item))
      (message : x.message = none) (found : Job.IsOutlet (outputOf directory item).toString →
        ∃ f, Keeping (outputOf directory item).toString f w ∧
          (Number.int f.content.size).lt c.minOutput = false)

/-- From `j` to `k`, items were exported: all of them have come to their ends, and besides them nothing is
changed on the queue, nor any file that was delivered elsewhere. -/
structure Accounts (directory : Path) (items : List QueueItem) (j k : State LocalEngine κ) : Prop where
  housed : Housed k.engine
  config : k.runner.config = j.runner.config
  distinct : k.client.queue.Distinct
  others : ∀ y ∈ j.client.queue.items, y.ticket ∉ items.map (·.ticket) → y ∈ k.client.queue.items
  kept : ∀ path f, Job.IsOutlet path →
    (∀ y ∈ items, goal (outputOf directory y).toString ≠ goal path) →
      Keeping path f j.toWorld → Keeping path f k.toWorld
  ends : ∀ y ∈ items, ∃ x ∈ k.client.queue.items, x.ticket = y.ticket ∧
    Delivery j.runner.config directory y x k.toWorld

variable {i j k : State LocalEngine κ} {o : Outcome Unit}

theorem addressed_item (enlisted : item.Enlisted) :
    Job.Addressed (requestFor directory s attachments item) := ⟨enlisted.isItemId, enlisted.source⟩

theorem guests_item (harmless : probe.Harmless) (S : HostFrame) (item : QueueItem) :
    Guests S probe (some (onProgress none item)) where
  probe path := (harmless.files path).mono fun _ _ same => S.of_files same
  listener := by
    rintro _ ⟨⟩ value c
    exact S.of_files rfl

theorem renderItem_accounts (harmless : probe.Harmless) (fits : FitsLog j.runner.config)
    (enlisted : item.Enlisted) (distinct : j.client.queue.Distinct) (mem : item ∈ j.client.queue.items)
    (housed : Housed j.engine)
    (ran : (renderItem LocalEngine.engine probe directory s attachments none item).run j = (o, k)) :
    (o = .stalled ∧ (LocalEngine.engine.Responsive j.runner.config → probe.Hangs k.host)) ∨
      o = .returned () ∧ Accounts directory [item] j k := by
  have addressed : Job.Addressed (requestFor directory s attachments item) := addressed_item enlisted
  have guests (S : HostFrame) : Guests S probe (some (onProgress none item)) := guests_item harmless S item
  rcases renderItem_cases harmless fits distinct mem ran with ⟨rfl, stalled⟩ |
    ⟨p, i, x, hp, rfl, marked, slot, rfl⟩
  · refine .inl ⟨rfl, fun responsive => ?_⟩
    obtain ⟨c, d, hangs, host⟩ := Job.run_stalled (j := announced item j) responsive (by
      rintro _ ⟨⟩ value c
      exact nofun) stalled
    exact ⟨_, c, d, hangs, host⟩
  · obtain ⟨housed', config⟩ := Job.run_housed hp housed
    refine .inr ⟨rfl, housed', config, slot.distinct_replace, fun y hy other => ?_,
      fun path f outlet apart kept => ?_, fun y hy => ?_⟩
    · refine Queue.mem_replace_of_ne hy fun same => other ?_
      rw [same, slot.ticket]
      exact List.mem_singleton.2 rfl
    · exact Job.run_keeps (j := announced item j) (k := i) addressed outlet (guests _)
        (requestFor_output ▸ apart item (.head _)) hp kept
    · obtain rfl := List.mem_singleton.1 hy
      refine ⟨x, slot.mem_replace, slot.ticket, ?_⟩
      cases marked with
      | failed status message told => exact .failed status message told
      | done status output message =>
        refine .done status output message fun outlet => ?_
        rw [← requestFor_output] at outlet ⊢
        obtain ⟨-, f, kept, size, large⟩ := Job.run_delivers addressed outlet (guests _) hp housed
        exact ⟨f, kept, size ▸ large⟩

/-! ## One item after another -/

/-- The states do not differ in what deliveries are about. -/
structure Beside (j k : State LocalEngine κ) : Prop where
  files : k.host.files = j.host.files
  engine : k.engine = j.engine
  config : k.runner.config = j.runner.config
  queue : k.client.queue = j.client.queue

theorem Beside.keeping {path : String} {f : StoredFile} (beside : Beside j k)
    (kept : Keeping path f j.toWorld) : Keeping path f k.toWorld where
  housed := show Housed k.engine from beside.engine ▸ kept.housed
  found := (Host.keepsFound path).of_files beside.files f kept.found

theorem Delivery.mono {c : Config} {w w' : World LocalEngine} (h : Delivery c directory item x w)
    (kept : ∀ f, Job.IsOutlet (outputOf directory item).toString →
      Keeping (outputOf directory item).toString f w → Keeping (outputOf directory item).toString f w') :
    Delivery c directory item x w' := by
  cases h with
  | failed status message told => exact .failed status message told
  | done status output message found =>
    refine .done status output message fun outlet => ?_
    obtain ⟨f, here, large⟩ := found outlet
    exact ⟨f, kept f outlet here, large⟩

/-- What is done between exports does not matter. -/
theorem Accounts.beside {m : State LocalEngine κ} (accounts : Accounts directory items j k)
    (before : Beside i j) (after : Beside k m) : Accounts directory items i m where
  housed := after.engine ▸ accounts.housed
  config := after.config.trans (accounts.config.trans before.config)
  distinct := after.queue ▸ accounts.distinct
  others y hy other := after.queue ▸ accounts.others y (before.queue ▸ hy) other
  kept path f outlet apart kept :=
    after.keeping (accounts.kept path f outlet apart (before.keeping kept))
  ends y hy := by
    obtain ⟨x, mem, ticket, delivery⟩ := accounts.ends y hy
    exact ⟨x, after.queue ▸ mem, ticket, before.config ▸ delivery.mono fun _ _ => after.keeping⟩

/-- The outputs of items that can be told apart are in different places. -/
theorem Discernible.apart (discernible : Discernible (item :: items)) (plain : directory.Plain) :
    ∀ y ∈ items, goal (outputOf directory y).toString ≠ goal (outputOf directory item).toString := by
  intro y hy same
  have named {z : QueueItem} (hz : z ∈ item :: items) : Path.IsEntry z.outputName :=
    QueueItem.outputName_isEntry (discernible.enlisted z hz)
  unfold outputOf at same
  rw [FileTree.goal_child plain (named (.tail _ hy)).toIsName, FileTree.step_entry (named (.tail _ hy)),
    FileTree.goal_child plain (named (.head _)).toIsName, FileTree.step_entry (named (.head _))] at same
  refine discernible.output (List.mem_map.2 ⟨y, hy, ?_⟩)
  exact List.singleton_inj.1 (List.append_cancel_left same)

/-- The exports after that of an item leave what became of it. -/
theorem Accounts.cons (plain : directory.Plain) (discernible : Discernible (item :: items))
    (first : Accounts directory [item] i j) (rest : Accounts directory items j k) :
    Accounts directory (item :: items) i k where
  housed := rest.housed
  config := rest.config.trans first.config
  distinct := rest.distinct
  others y hy other := by
    rw [List.map_cons, List.mem_cons, not_or] at other
    exact rest.others y (first.others y hy fun h => other.1 (List.mem_singleton.1 h)) other.2
  kept path f outlet apart kept := rest.kept path f outlet (fun y hy => apart y (.tail _ hy))
    (first.kept path f outlet (fun y hy => apart y (List.mem_singleton.1 hy ▸ .head _)) kept)
  ends y hy := by
    rcases List.mem_cons.1 hy with rfl | hy
    · obtain ⟨x, mem, ticket, delivery⟩ := first.ends y (.head _)
      exact ⟨x, rest.others x mem (ticket ▸ (List.nodup_cons.1 discernible.tickets).1), ticket,
        delivery.mono fun f outlet => rest.kept _ f outlet (discernible.apart plain)⟩
    · rw [← first.config]
      exact rest.ends y hy

theorem renderItems_accounts (harmless : probe.Harmless) (plain : directory.Plain) (total : Nat) :
    ∀ {items : List QueueItem} (position : Nat) {j : State LocalEngine κ},
      (items = [] ∨ FitsLog j.runner.config) → Discernible items → j.client.queue.Distinct →
      (∀ y ∈ items, y ∈ j.client.queue.items) → Housed j.engine →
      (renderItems LocalEngine.engine probe directory s attachments none total position items).run j =
        (o, k) →
      (o = .stalled ∧ (LocalEngine.engine.Responsive j.runner.config → probe.Hangs k.host)) ∨
        o = .returned () ∧ Accounts directory items j k
  | [], _, j, _, _, distinct, _, housed, ran => by
    cases ran
    exact .inr ⟨rfl, housed, rfl, distinct, fun _ hy _ => hy, fun _ _ _ _ kept => kept,
      fun _ hy => absurd hy List.not_mem_nil⟩
  | item :: items, position, j, fits, discernible, distinct, mem, housed, ran => by
    have fits : FitsLog j.runner.config := fits.resolve_left nofun
    obtain ⟨l, logged⟩ := log_journal .info logSource
      s!"Processando item {position}/{total}: {item.source.name}" j
    unfold renderItems at ran
    rw [Action.run_bind_of_returned logged] at ran
    have rendered {p : Outcome Unit} {i : State LocalEngine κ}
        (hi : (renderItem LocalEngine.engine probe directory s attachments none item).run
          { j with host := { j.host with journal := l } } = (p, i)) :=
      renderItem_accounts (j := { j with host := { j.host with journal := l } }) harmless fits
        (discernible.enlisted item (.head _)) distinct (mem item (.head _)) housed hi
    rcases Action.bind_eq ran with ⟨_, i, hi, ran⟩ | ⟨f, hi, rfl⟩ | ⟨hi, rfl⟩
    · obtain ⟨⟨⟩, -⟩ | ⟨-, first⟩ := rendered hi
      have first : Accounts directory [item] j i := first.beside ⟨rfl, rfl, rfl, rfl⟩ ⟨rfl, rfl, rfl, rfl⟩
      have left : ∀ y ∈ items, y ∈ i.client.queue.items := fun y hy =>
        first.others y (mem y (.tail _ hy)) fun same => (List.nodup_cons.1 discernible.tickets).1
          (List.mem_map.2 ⟨y, hy, List.mem_singleton.1 same⟩)
      rcases renderItems_accounts harmless plain total (position + 1) (.inr (first.config ▸ fits))
        discernible.tail first.distinct left first.housed ran with ⟨rfl, hangs⟩ | ⟨rfl, rest⟩
      · exact .inl ⟨rfl, first.config ▸ hangs⟩
      · exact .inr ⟨rfl, first.cons plain discernible rest⟩
    · obtain ⟨⟨⟩, -⟩ | ⟨⟨⟩, -⟩ := rendered hi
    · obtain ⟨-, hangs⟩ | ⟨⟨⟩, -⟩ := rendered hi
      exact .inl ⟨rfl, hangs⟩

/-! ## A whole batch -/

/-- A batch exports all of its items and gives their tickets, unless the probe of a source never ends. -/
theorem render_accounts {settings : Raw} {o : Outcome (List Nat)} (harmless : probe.Harmless)
    (plain : directory.Plain) (hs : Settings.sanitize settings attachments.image.isSome = .ok s)
    (idle : j.client.busy = false) (fits : j.client.queue.pending = [] ∨ FitsLog j.runner.config)
    (discernible : Discernible j.client.queue.pending) (distinct : j.client.queue.Distinct)
    (housed : Housed j.engine)
    (ran : (render LocalEngine.engine probe directory settings attachments none).run j = (o, k)) :
    (o = .stalled ∧ (LocalEngine.engine.Responsive j.runner.config → probe.Hangs k.host)) ∨
      o = .returned (j.client.queue.pending.map (·.ticket)) ∧
        Accounts directory j.client.queue.pending j k := by
  obtain ⟨l, logged⟩ := log_journal .info logSource
    s!"Iniciando lote com {j.client.queue.pending.length} itens" (marked true j)
  have rendered {p : Outcome Unit} {i : State LocalEngine κ}
      (hi : (renderItems LocalEngine.engine probe directory s attachments none j.client.queue.pending.length 1
        j.client.queue.pending).run { marked true j with host := { j.host with journal := l } } = (p, i)) :
      (p = .stalled ∧ (LocalEngine.engine.Responsive j.runner.config → probe.Hangs i.host)) ∨
        p = .returned () ∧ Accounts directory j.client.queue.pending
          { marked true j with host := { j.host with journal := l } } i :=
    renderItems_accounts (j := { marked true j with host := { j.host with journal := l } }) harmless plain
      _ 1 fits discernible distinct (fun y hy => List.mem_of_mem_filter hy) housed hi
  rw [render_begin hs idle] at ran
  rcases hi : (renderItems LocalEngine.engine probe directory s attachments none
    j.client.queue.pending.length 1 j.client.queue.pending).run
      { marked true j with host := { j.host with journal := l } } with ⟨p, i⟩
  have worked {q : Outcome (List Nat)} (hq : (do
        renderItems LocalEngine.engine probe directory s attachments none j.client.queue.pending.length 1
          j.client.queue.pending
        return j.client.queue.pending.map (·.ticket) : Action (State LocalEngine κ) (List Nat)).run
          { marked true j with host := { j.host with journal := l } } = (q, i)) :
      (work LocalEngine.engine probe directory s attachments none).run (marked true j) = (q, i) := by
    unfold work
    rw [Action.run_bind_of_returned (Action.run_read _ _)]
    exact (Action.run_bind_of_returned logged).trans hq
  rcases rendered hi with ⟨rfl, hangs⟩ | ⟨rfl, accounts⟩
  · have stalled := worked (Action.run_bind_of_stalled hi)
    unfold Action.ensuring at ran
    rw [Action.run_bind_of_stalled (Action.run_bind_of_stalled (Action.attempt_stalled.2 stalled))] at ran
    cases ran
    exact .inl ⟨rfl, hangs⟩
  · have returned := worked (Action.run_bind_of_returned hi)
    obtain ⟨h, reported, files⟩ := report_run (j.client.queue.pending.map (·.ticket)) (marked false i)
    rw [Action.run_bind_of_returned (Action.run_ensuring_of_returned returned (setBusy_run false i)),
      reported] at ran
    cases ran
    exact .inr ⟨rfl, accounts.beside ⟨rfl, rfl, rfl, rfl⟩ ⟨files, rfl, rfl, rfl⟩⟩

end Batch

end VideoExport
