import VideoExport.Proofs.Batch.Lifecycle
import VideoExport.Proofs.Batch.Outlets
import VideoExport.Proofs.Job.Isolation

/-!
# Items that are kept apart

What becomes of an item does not depend on the other items of its batch: it shows the same, and leaves the
same output, as in a batch of its own (`render_isolated`). In its turn an item is exported as it would be
alone (`renderItem_isolated`), since what is left of the items before it, with the engine, in the runner
and in the files, says nothing to its job. This asks for files that allow to keep the items apart
(`Separable`): where the directory for the outputs cannot be made, a later item may find another fault
(`later_item_finds_other_fault`).
-/

set_option autoImplicit false

namespace VideoExport.Batch

open FileTree

variable {σ κ : Type} {e : Engine σ} {v : StorageView e} {Usual : World σ → Prop} {c : Config}
  {loader : FontLoader} {F : Option (String × ByteArray)} {probe : DurationProbe (Desk κ)}
  {Stage : (String → Option FileNode) → FileTree → Prop} {directory : Path} {attachments : Attachments}
  {items rest : List QueueItem} {s : Settings} {item x : QueueItem} {q q' : Queue}
  {N N' : String → Option FileNode} {i j k j' : State σ κ}

/-! ## Two desks -/

/-- On both desks, the queue has in place of an item what became of it, and that is the same. -/
def SamePlace (q q' : Queue) (item : QueueItem) (m m' : Desk κ) : Prop :=
  ∃ x, Queue.Slot q item x ∧ Queue.Slot q' item x ∧ m.queue = q.replace x ∧ m'.queue = q'.replace x

/-- A change of the item on both queues. -/
theorem SamePlace.change {m m' : Desk κ} (h : SamePlace q q' item m m') {f : Queue → Queue}
    {g : QueueItem → QueueItem} (hg : ∀ x, (g x).ticket = x.ticket ∧ (g x).id = x.id)
    (hf : ∀ {q x}, Queue.Slot q item x → f (q.replace x) = q.replace (g x)) :
    SamePlace q q' item { m with queue := f m.queue } { m' with queue := f m'.queue } := by
  obtain ⟨x, slot, slot', hm, hm'⟩ := h
  have next {q} (slot : Queue.Slot q item x) : Queue.Slot q item (g x) :=
    ⟨slot.distinct, slot.mem, (hg x).1.trans slot.ticket, (hg x).2.trans slot.id⟩
  exact ⟨g x, next slot, next slot', (congrArg f hm).trans (hf slot), (congrArg f hm').trans (hf slot')⟩

/-- The files of two runs of an item's job: the same stands in place of its output, and what stands in
place of the others stays. -/
def SameOutput (Stage : (String → Option FileNode) → FileTree → Prop)
    (N N' : String → Option FileNode) (item : QueueItem) (t u : FileTree) : Prop :=
  ∃ n, Stage (Function.update N item.outputName n) t ∧ Stage (Function.update N' item.outputName n) u

theorem agrees_save (keeps : Keeps Stage directory attachments items) (mem : item ∈ items)
    (content : ByteArray) : (Job.save (outputOf directory item) content).Agrees
      (fun h h' => SameOutput Stage N N' item h.files h'.files)
      (Job.save (outputOf directory item) content) := by
  rintro h h' ⟨n, hh, hh'⟩
  obtain ⟨o, n', saved⟩ := keeps.save item mem content n
  obtain ⟨u, ran, hu⟩ := saved _ h hh (Function.update_self ..)
  obtain ⟨u', ran', hu'⟩ := saved _ h' hh' (Function.update_self ..)
  rw [Function.update_idem] at hu hu'
  rw [ran, ran']
  exact ⟨Outcome.alike_refl _, n', hu, hu'⟩

theorem accord (keeps : Keeps Stage directory attachments items) (mem : item ∈ items) :
    Accord (SameOutput Stage N N' item) (SamePlace (κ := κ) q q' item)
      (requestFor directory s attachments item) (some (onProgress none item)) where
  source t u := fun ⟨_, ht, hu⟩ => keeps.reads item mem item.source (.inl rfl) _ _ t u ht hu <| by
    rw [Function.update_self, Function.update_self]
  image m hm t u := fun ⟨_, ht, hu⟩ => keeps.reads item mem m (.inr hm) _ _ t u ht hu <| by
    rw [Function.update_self, Function.update_self]
  output := by
    unfold requestFor
    dsimp only
    exact agrees_save keeps mem
  still := by
    rintro _ ⟨⟩ value
    exact .bind (.modify fun _ => rfl) fun _ => .pure _
  tells := by
    rintro _ ⟨⟩ value
    refine .bind (.modify fun c c' h => ?_) fun _ => .pure _
    exact h.change (f := (·.updateTicket item.ticket (·.advance (.real value))))
      (g := (·.advance (.real value))) (fun _ => ⟨rfl, rfl⟩) fun slot => slot.updateTicket_replace rfl

/-! ## One item -/

/-- The names that are free before the jobs of items: those of their entries, and those that name no
entry of a job. -/
def Free (items : List QueueItem) (n : String) : Prop :=
  IsBare n ∨ ∃ x ∈ items, JobNames.Bears x.id n

/-- A batch that has items left to export. -/
structure Awaits (v : StorageView e) (Usual : World σ → Prop) (c : Config) (loader : FontLoader)
    (F : Option (String × ByteArray)) (Stage : (String → Option FileNode) → FileTree → Prop)
    (items : List QueueItem) (N : String → Option FileNode) (j : State σ κ) : Prop where
  resting : Job.Resting v Usual c loader (Free items) F j
  files : Stage N j.host.files
  distinct : j.client.queue.Distinct
  mem : ∀ x ∈ items, x ∈ j.client.queue.items

/-- Items that can be told apart. -/
structure Discernible (items : List QueueItem) : Prop where
  ids : (items.map (·.id)).Nodup
  tickets : (items.map (·.ticket)).Nodup
  enlisted : ∀ x ∈ items, x.Enlisted

theorem Discernible.tail (h : Discernible (item :: rest)) : Discernible rest where
  ids := (List.nodup_cons.1 h.ids).2
  tickets := (List.nodup_cons.1 h.tickets).2
  enlisted y hy := h.enlisted y (.tail _ hy)

/-- No other item has an output of the same name. -/
theorem Discernible.output (h : Discernible (item :: rest)) :
    item.outputName ∉ rest.map (·.outputName) := by
  intro output
  obtain ⟨y, hy, same⟩ := List.mem_map.1 output
  refine (List.nodup_cons.1 h.ids).1 (List.mem_map.2 ⟨y, hy, ?_⟩)
  exact QueueItem.outputName_inj ((h.enlisted y (.tail _ hy)).isItemId.length.trans
    (h.enlisted item (.head _)).isItemId.length.symm) same

/-- Records in the journal make no difference. -/
theorem Awaits.journal (isolated : e.Isolated v Usual) (h : Awaits v Usual c loader F Stage rest N j) (l : Journal) :
    Awaits v Usual c loader F Stage rest N
      { j with host := { j.host with journal := l } } where
  resting := by
    obtain ⟨G, hG, hj⟩ := h.resting
    exact ⟨G, hG, hj.of_host isolated (isolated.elsewhere _ _ hj.usual)⟩
  files := h.files
  distinct := h.distinct
  mem := h.mem

/-- One of the items. -/
theorem Awaits.only (h : Awaits v Usual c loader F Stage rest N j) (mem : item ∈ rest) :
    Awaits v Usual c loader F Stage [item] N j where
  resting := h.resting.mono fun _ hn => hn.imp id fun ⟨y, hy, bears⟩ =>
    ⟨y, List.mem_singleton.1 hy ▸ mem, bears⟩
  files := h.files
  distinct := h.distinct
  mem _ hy := List.mem_singleton.1 hy ▸ h.mem item mem

/-- The items that are left once one was exported. -/
theorem Awaits.next (h : Awaits v Usual c loader F Stage (item :: rest) N j)
    (slot : Queue.Slot j.client.queue item x) (queue : j'.client.queue = j.client.queue.replace x)
    (files : Stage N' j'.host.files) (resting : Job.Resting v Usual c loader (Free rest) F j')
    (tickets : item.ticket ∉ rest.map (·.ticket)) : Awaits v Usual c loader F Stage rest N' j' where
  resting := resting
  files := files
  distinct := queue ▸ slot.distinct_replace
  mem y hy := by
    rw [queue]
    refine Queue.mem_replace_of_ne (h.mem y (.tail _ hy)) fun ht => tickets ?_
    exact List.mem_map.2 ⟨y, hy, ht.trans slot.ticket⟩

theorem Free.of_rest {n : String} (discernible : Discernible (item :: rest)) (h : Free rest n) :
    Free (item :: rest) n ∧ ¬ JobNames.Bears item.id n := by
  rcases h with bare | ⟨y, hy, bears⟩
  · exact ⟨.inl bare, fun bears => bears.not_isBare bare⟩
  · refine ⟨.inr ⟨y, .tail _ hy, bears⟩, fun bears' =>
      (List.nodup_cons.1 discernible.ids).1 (List.mem_map.2 ⟨y, hy, bears.unique bears' ?_⟩)⟩
    exact (discernible.enlisted y (.tail _ hy)).isItemId.length.trans
      (discernible.enlisted item (.head _)).isItemId.length.symm

theorem not_free_fontEntry (enlisted : ∀ y ∈ rest, y.Enlisted) : ¬ Free rest fontEntry := by
  rintro (bare | ⟨y, hy, bears⟩)
  · exact bare 'w' rfl (by decide)
  · exact JobNames.not_bears_fontEntry (enlisted y hy).isItemId bears

/-- The state once an item is announced. -/
def announced (item : QueueItem) (j : State σ κ) : State σ κ :=
  { j with client := { j.client with queue := j.client.queue.update item.id started } }

theorem announce_none (item : QueueItem) (j : State σ κ) :
    (liftM (announce none item : Action (Caller (Desk κ)) Unit) : Action (State σ κ) Unit).run j =
      (.returned (), announced item j) := rfl

/-- What is kept of an item's job is a change of the item. -/
theorem settle_returned {o : Except Failure JobResult} {d d' : Caller (Desk κ)}
    (h : (settle item o).run d = (.returned (), d')) : ∃ change : ItemChange, change.id = none ∧
      (settle item o : Action (Caller (Desk κ)) Unit) = updateQueue (·.update item.id change) := by
  unfold settle at h ⊢
  split at h
  · exact ⟨_, rfl, rfl⟩
  · exact ⟨_, rfl, rfl⟩
  · cases h

/-- The export of an item from the end of its job. -/
theorem renderItem_none {o : Except Failure JobResult} {change : ItemChange}
    (ran : (Job.run e probe (requestFor directory s attachments item)
      (some (onProgress none item))).attempt.run (announced item j) = (.returned o, i))
    (settled : (settle item o : Action (Caller (Desk κ)) Unit) =
      updateQueue (·.update item.id change)) :
    (renderItem e probe directory s attachments none item).run j = (.returned (),
      { i with client := { i.client with queue := i.client.queue.update item.id change } }) := by
  unfold renderItem
  rw [Action.run_bind_of_returned (announce_none item j), Action.run_bind_of_returned ran, settled]
  rfl

/-- An item whose export returns: its job has ended, and what is kept of that is a change of the item. -/
theorem renderItem_returned
    (ran : (renderItem e probe directory s attachments none item).run j = (.returned (), j')) :
    ∃ o i change, (Job.run e probe (requestFor directory s attachments item)
        (some (onProgress none item))).attempt.run (announced item j) = (.returned o, i) ∧
      change.id = none ∧
      (settle item o : Action (Caller (Desk κ)) Unit) = updateQueue (·.update item.id change) := by
  unfold renderItem at ran
  rw [Action.run_bind_of_returned (announce_none item j)] at ran
  obtain ⟨o, i, ended, ran⟩ := Action.bind_returned ran
  obtain ⟨_, l, settled, -⟩ := Action.bind_returned ran
  obtain ⟨d, hd, -⟩ := Action.zoom_eq settled
  obtain ⟨change, keepsId, settled⟩ := settle_returned hd
  exact ⟨o, i, change, ended, keepsId, settled⟩

/-- An item whose export returns: its job has begun. -/
theorem renderItem_begins (distinct : j.client.queue.Distinct) (here : item ∈ j.client.queue.items)
    (ran : (renderItem e probe directory s attachments none item).run j = (.returned (), j')) :
    ∃ s' b, Job.Begins (requestFor directory s attachments item) s' (announced item j) b := by
  by_cases fits : FitsLog j.runner.config
  · rcases Job.refused_or_begins e probe (requestFor directory s attachments item)
      (some (onProgress none item)) (announced item j) with ⟨f, why, -⟩ | begins
    · obtain ⟨s', hs⟩ := Settings.sanitize_record s attachments.image.isSome
      exact absurd why (not_refused fits hs)
    · exact begins
  · have nobody : Attends (none : Option (ItemListener κ)) := fun _ _ => ⟨rfl, rfl⟩
    obtain ⟨f, m, unfit, -⟩ :=
      renderItem_unfit e probe s directory attachments nobody fits distinct here
    cases ran.symm.trans unfit

section
variable (isolated : e.Isolated v Usual)
  (surroundings : Surroundings Usual (fun t => ∃ N, Stage N t) probe loader attachments.font)
  (has : ∀ s', Settings.sanitize (.record s.record) attachments.image.isSome = .ok s' →
    Job.HasFont v Usual (fun t => ∃ N, Stage N t) loader attachments.font s' F)
  (keeps : Keeps Stage directory attachments items)
include isolated surroundings has keeps

/-- An item is exported in the same way wherever it is its turn: whatever other items are still on the
queue, and whatever was done before. -/
theorem renderItem_isolated (mem : item ∈ items) (discernible : Discernible (item :: rest))
    (left : Awaits v Usual c loader F Stage (item :: rest) N j)
    (right : Awaits v Usual c loader F Stage [item] N' k) (same : N item.outputName = N' item.outputName)
    (ran : (renderItem e probe directory s attachments none item).run j = (.returned (), j')) :
    ∃ x n k', (renderItem e probe directory s attachments none item).run k = (.returned (), k') ∧
      Queue.Slot j.client.queue item x ∧ j'.client.queue = j.client.queue.replace x ∧
      Awaits v Usual c loader F Stage rest (Function.update N item.outputName n) j' ∧
      k'.client.queue = k.client.queue.replace x ∧
      Stage (Function.update N' item.outputName n) k'.host.files := by
  have here : item ∈ j.client.queue.items := left.mem item (.head _)
  have there : item ∈ k.client.queue.items := right.mem item (.head _)
  obtain ⟨o, i, change, ended, keepsId, settled⟩ := renderItem_returned ran
  obtain ⟨p, ran₁, ends, -, attempts⟩ := Action.attempt_returned ended
  obtain ⟨s', b, begins⟩ := renderItem_begins left.distinct here ran
  have files : SameOutput Stage N N' item j.host.files k.host.files := by
    refine ⟨N item.outputName, ?_, ?_⟩
    · rw [Function.update_eq_self]
      exact left.files
    · rw [same, Function.update_eq_self]
      exact right.files
  have client : SamePlace j.client.queue k.client.queue item (announced item j).client
      (announced item k).client :=
    ⟨item.apply started, (Queue.Slot.self left.distinct here).apply rfl,
      (Queue.Slot.self right.distinct there).apply rfl, left.distinct.update_eq here started,
      right.distinct.update_eq there started⟩
  have left' : Job.Resting v Usual c loader (Free (item :: rest)) F (announced item j) :=
    left.resting.of_client _
  have right' : Job.Resting v Usual c loader (Free [item]) F (announced item k) :=
    right.resting.of_client _
  have font := has _ begins.settings
  obtain ⟨k₁, ran₂, resting, ⟨n, hi, hk⟩, x, slot, slot', queue, queue'⟩ := Job.run_isolated isolated
    surroundings font (accord keeps mem)
    (fun _ _ ⟨_, ht, hu⟩ => ⟨⟨_, ht⟩, _, hu⟩)
    (fun _ bears => ⟨.inr ⟨item, .head _, bears⟩, .inr ⟨item, .head _, bears⟩⟩)
    (fun _ bare => ⟨.inl bare, .inl bare⟩) (not_free_fontEntry discernible.enlisted)
    (not_free_fontEntry fun y hy => discernible.enlisted y (List.mem_singleton.1 hy ▸ .head _)) begins
    left' right' files client ran₁ ends
  obtain rfl := (Prod.mk.inj (ran.symm.trans (renderItem_none ended settled))).2
  have became : i.client.queue.update item.id change = j.client.queue.replace (x.apply change) := by
    rw [queue, slot.update_replace]
  refine ⟨x.apply change, n, _, renderItem_none (attempts ran₂) settled, slot.apply keepsId, became,
    left.next (slot.apply keepsId) became hi ?_ (List.nodup_cons.1 discernible.tickets).1, ?_, hk⟩
  · exact (resting.of_client _).mono fun n hn => hn.of_rest discernible
  · show k₁.client.queue.update item.id change = _
    rw [queue', slot'.update_replace]

omit isolated surroundings has keeps in
theorem renderItems_cons {total position : Nat}
    (ran : (renderItems e probe directory s attachments none total position (item :: rest)).run j =
      (.returned (), j')) : ∃ l i,
      (renderItem e probe directory s attachments none item).run
        { j with host := { j.host with journal := l } } = (.returned (), i) ∧
      (renderItems e probe directory s attachments none total (position + 1) rest).run i =
        (.returned (), j') := by
  unfold renderItems at ran
  obtain ⟨_, a, logged, ran⟩ := Action.bind_returned ran
  cases logged
  obtain ⟨_, i, rendered, ran⟩ := Action.bind_returned ran
  exact ⟨_, i, rendered, ran⟩

/-- The export of items leaves what stands in place of other outputs, and other items of the queue. -/
theorem renderItems_frame (total : Nat) : ∀ {rest : List QueueItem} (position : Nat)
    {N : String → Option FileNode} {j j' : State σ κ}, (∀ y ∈ rest, y ∈ items) → Discernible rest →
    Awaits v Usual c loader F Stage rest N j →
    (renderItems e probe directory s attachments none total position rest).run j = (.returned (), j') →
    ∃ N₁, Stage N₁ j'.host.files ∧ (∀ name ∉ rest.map (·.outputName), N₁ name = N name) ∧
      j'.client.queue.Distinct ∧
      ∀ y ∈ j.client.queue.items, y.ticket ∉ rest.map (·.ticket) → y ∈ j'.client.queue.items
  | [], _, N, j, _, _, _, awaits, ran => by
    cases ran
    exact ⟨N, awaits.files, fun _ _ => rfl, awaits.distinct, fun _ hy _ => hy⟩
  | item :: rest, position, N, j, j', mem, discernible, awaits, ran => by
    obtain ⟨l, i, first, ran⟩ := renderItems_cons ran
    have awaits := awaits.journal isolated l
    obtain ⟨x, n, -, -, slot, queue, next, -⟩ := renderItem_isolated isolated surroundings has keeps
      (mem item (.head _)) discernible awaits (awaits.only (.head _)) rfl first
    obtain ⟨N₁, files, others, distinct, kept⟩ := renderItems_frame total (position + 1)
      (fun y hy => mem y (.tail _ hy)) discernible.tail next ran
    refine ⟨N₁, files, fun name hn => ?_, distinct, fun y hy ht => ?_⟩
    · rw [List.map_cons, List.mem_cons, not_or] at hn
      rw [others name hn.2, Function.update_of_ne hn.1]
    · rw [List.map_cons, List.mem_cons, not_or] at ht
      refine kept y ?_ ht.2
      rw [queue]
      exact Queue.mem_replace_of_ne hy fun h => ht.1 (h.trans slot.ticket)

/-- What an item becomes in its turn, and its output, are what they are when it is exported alone. -/
theorem renderItems_isolated (total : Nat) : ∀ {rest : List QueueItem} (position : Nat)
    {N : String → Option FileNode} {j j' : State σ κ}, (∀ y ∈ rest, y ∈ items) → Discernible rest →
    Awaits v Usual c loader F Stage rest N j →
    (renderItems e probe directory s attachments none total position rest).run j = (.returned (), j') →
    ∀ y ∈ rest, ∀ N' k, Awaits v Usual c loader F Stage [y] N' k → N y.outputName = N' y.outputName →
      ∃ x k', (renderItem e probe directory s attachments none y).run k = (.returned (), k') ∧
        j'.client.queue.ofTicket? y.ticket = some x ∧ Queue.Slot k.client.queue y x ∧
        k'.client.queue = k.client.queue.replace x ∧
        j'.host.files.octets (outputOf directory y).toString =
          k'.host.files.octets (outputOf directory y).toString
  | [], _, _, _, _, _, _, _, _, _, hy, _, _, _, _ => absurd hy List.not_mem_nil
  | item :: rest, position, N, j, j', mem, discernible, awaits, ran, y, hy, N', k, right, same => by
    obtain ⟨l, i, first, later⟩ := renderItems_cons ran
    have waits := awaits.journal isolated l
    rcases List.mem_cons.1 hy with rfl | hy
    · obtain ⟨x, n, k', ran', slot, queue, next, queue', files'⟩ := renderItem_isolated isolated
        surroundings has keeps (mem y (.head _)) discernible waits right same first
      obtain ⟨N₁, files, others, distinct, kept⟩ := renderItems_frame isolated surroundings has keeps total
        (position + 1) (fun y hy => mem y (.tail _ hy)) discernible.tail next later
      have there : x ∈ j'.client.queue.items := by
        refine kept x ?_ (slot.ticket ▸ (List.nodup_cons.1 discernible.tickets).1)
        rw [queue]
        exact slot.mem_replace
      refine ⟨x, k', ran', slot.ticket ▸ distinct.ofTicket?_eq there,
        ⟨right.distinct, right.mem y (.head _), slot.ticket, slot.id⟩, queue',
        keeps.octets y (mem y (.head _)) _ _ _ _ files files' ?_⟩
      rw [others _ discernible.output, Function.update_self, Function.update_self]
    · obtain ⟨x, n, -, -, slot, queue, next, -⟩ := renderItem_isolated isolated surroundings has keeps
        (mem item (.head _)) discernible waits (waits.only (.head _)) rfl first
      refine renderItems_isolated total (position + 1) (fun y hy => mem y (.tail _ hy)) discernible.tail
        next later y hy N' k right ?_
      rw [← same, Function.update_of_ne fun h => ?_]
      exact discernible.output (List.mem_map.2 ⟨y, hy, h⟩)

end

/-! ## A whole batch -/

section
variable {settings : Raw} {tickets : List Nat}

theorem log_journal (level : Level) (source message : String) (j : State σ κ) : ∃ l,
    (liftM (Host.log level source message) : Action (State σ κ) Unit).run j =
      (.returned (), { j with host := { j.host with journal := l } }) := ⟨_, rfl⟩

/-- Work that returns has exported the items that were not done. -/
theorem work_returned (ran : (work e probe directory s attachments none).run j = (.returned tickets, j')) :
    ∃ l, (renderItems e probe directory s attachments none j.client.queue.pending.length 1
      j.client.queue.pending).run { j with host := { j.host with journal := l } } = (.returned (), j') := by
  unfold work at ran
  obtain ⟨_, _, read, ran⟩ := Action.bind_returned ran
  cases read
  obtain ⟨_, _, logged, ran⟩ := Action.bind_returned ran
  cases logged
  obtain ⟨_, _, rendered, done⟩ := Action.bind_returned ran
  cases done
  exact ⟨_, rendered⟩

/-- A batch that returns has exported its items. -/
theorem render_returned (idle : j.client.busy = false)
    (ran : (render e probe directory settings attachments none).run j = (.returned tickets, j')) :
    ∃ s l i, Settings.sanitize settings attachments.image.isSome = .ok s ∧
      (renderItems e probe directory s attachments none j.client.queue.pending.length 1
        j.client.queue.pending).run { marked true j with host := { j.host with journal := l } } =
          (.returned (), i) ∧
      j'.client.queue = i.client.queue ∧ j'.host.files = i.host.files := by
  cases hs : Settings.sanitize settings attachments.image.isSome with
  | error f =>
    cases (render_unsanitized hs idle).symm.trans ran
  | ok s =>
    rw [render_begin hs idle] at ran
    obtain ⟨_, m, ensured, reported⟩ := Action.bind_returned ran
    cases reported
    obtain ⟨_, u, worked, -, ⟨marks, rfl⟩ | ⟨f, -, ⟨⟩⟩⟩ := Action.ensuring_eq ensured nofun
    cases marks
    obtain ⟨l, rendered⟩ := work_returned worked
    exact ⟨s, l, u, rfl, rendered, rfl, rfl⟩

variable (e probe directory) in
/-- A batch with a single item exports that. -/
theorem render_alone (hs : Settings.sanitize settings attachments.image.isSome = .ok s)
    (idle : k.client.busy = false) (pending : k.client.queue.pending = [item]) :
    ∃ l, ∀ {k' : State σ κ}, (renderItem e probe directory s attachments none item).run
        { marked true k with host := { k.host with journal := l } } = (.returned (), k') →
      ∃ k'', (render e probe directory settings attachments none).run k = (.returned [item.ticket], k'') ∧
        k''.client.queue = k'.client.queue ∧ k''.host.files = k'.host.files := by
  obtain ⟨l, logged⟩ := log_journal .info logSource s!"Iniciando lote com {[item].length} itens"
    (marked true k)
  obtain ⟨l', logged'⟩ := log_journal .info logSource
    s!"Processando item {1}/{[item].length}: {item.source.name}"
    { marked true k with host := { k.host with journal := l } }
  refine ⟨l', fun {k'} rendered => ?_⟩
  have exported : (renderItems e probe directory s attachments none [item].length 1 [item]).run
      { marked true k with host := { k.host with journal := l } } = (.returned (), k') := by
    unfold renderItems
    rw [Action.run_bind_of_returned logged', Action.run_bind_of_returned rendered]
    rfl
  have worked : (work e probe directory s attachments none).run (marked true k) =
      (.returned [item.ticket], k') := by
    unfold work
    rw [Action.run_bind_of_returned (Action.run_read _ _),
      show (marked true k).client.queue.pending = [item] from pending]
    refine (Action.run_bind_of_returned logged).trans ?_
    exact Action.run_bind_of_returned exported
  obtain ⟨h, reported, files⟩ := report_run [item.ticket] (marked false k')
  refine ⟨{ marked false k' with host := h }, ?_, rfl, files⟩
  rw [render_begin hs idle,
    Action.run_bind_of_returned (Action.run_ensuring_of_returned worked (setBusy_run false k'))]
  exact reported

end

/-! ## Isolation -/

/-- The state before a batch for which nothing was done yet: the engine's storage is empty, no font is
remembered, and the files are as in `t`. -/
structure Unused (v : StorageView e) (Usual : World σ → Prop) (c : Config) (loader : FontLoader)
    (t : FileTree) (j : State σ κ) : Prop where
  usual : Usual j.toWorld
  entries : ∀ n, v.entry j.toWorld n = none
  config : j.runner.config = c
  fonts : j.runner.fonts = loader.holding none
  files : j.host.files = t
  idle : j.client.busy = false
  distinct : j.client.queue.Distinct

variable (F items) in
theorem Unused.awaits (isolated : e.Isolated v Usual) {t : FileTree} (h : Unused v Usual c loader t j)
    (staged : Stage N t) (mem : ∀ x ∈ items, x ∈ j.client.queue.items) (l : Journal) :
    Awaits v Usual c loader F Stage items N
      { marked true j with host := { j.host with journal := l } } := by
  have rests : Job.Rests v Usual c loader (Free items) none j :=
    ⟨h.usual, h.config, h.fonts, h.entries _, fun _ _ => h.entries _⟩
  have awaits : Awaits v Usual c loader F Stage items N (marked true j) :=
    { resting := Job.Resting.of_client ⟨none, .inl rfl, rests⟩ _
      files := h.files ▸ staged
      distinct := h.distinct
      mem }
  exact awaits.journal isolated l

theorem discernible_pending (distinct : q.Distinct) (enlisted : ∀ x ∈ q.pending, x.Enlisted) :
    Discernible q.pending where
  ids := distinct.ids.sublist (List.filter_sublist.map _)
  tickets := distinct.pendingTickets
  enlisted

/-- The first two items that are drawn. -/
def firstItem (source : String) : QueueItem :=
  { ticket := 0, id := "00000001", source := ⟨.ofString source, ""⟩ }

def secondItem (source : String) : QueueItem :=
  { ticket := 1, id := "00000002", source := ⟨.ofString source, ""⟩ }

theorem firstItem_enlisted (source : String) : (firstItem source).Enlisted :=
  ⟨⟨source, rfl⟩, {}, _, nofun, rfl⟩

theorem secondItem_enlisted (source : String) : (secondItem source).Enlisted :=
  ⟨⟨source, rfl⟩, { drawn := 1 }, _, nofun, rfl⟩

/-- Two videos of an octet each. -/
def twoClips : FileTree :=
  .ofList [(.ofString "clip.mp4", .file { content := ⟨#[0]⟩ }),
    (.ofString "other.mp4", .file { content := ⟨#[0]⟩ })]

/-- The state before a batch of items on an engine in memory; there is no default font. -/
def beforeItems (items : List QueueItem) : State MemoryEngine Unit where
  host := { files := twoClips }
  engine := {}
  runner := .ofConfig { fontUrl := "" }
  client := { queue := { items, tickets := 2 }, client := () }

/-- Worlds as they come up in such a batch. -/
abbrev Quiet : World MemoryEngine → Prop := MemoryEngine.Like (beforeItems []).toWorld

theorem isolated_quiet : MemoryEngine.engine.Isolated MemoryEngine.storage Quiet :=
  MemoryEngine.isolated ⟨rfl, by decide⟩

/-- A probe that knows no length. -/
def unknownLength : DurationProbe (Desk Unit) := fun _ => pure none

/-- The loader of a batch without default font. -/
abbrev noFont : FontLoader := (beforeItems []).runner.fonts

theorem surroundings_quiet (Staged : FileTree → Prop) :
    Surroundings Quiet Staged unknownLength noFont none where
  probe _ := ⟨_, fun w _ usual _ => ⟨w.host, rfl, rfl, usual⟩⟩
  key := ⟨_, fun w usual _ => ⟨w.host, rfl, usual⟩⟩
  content := ⟨.raised .noDefaultFont, fun w usual _ => ⟨w.host, rfl, usual⟩⟩

theorem unused_beforeItems {items : List QueueItem} (ids : (items.map (·.id)).Nodup)
    (tickets : (items.map (·.ticket)).Nodup) :
    Unused MemoryEngine.storage Quiet { fontUrl := "" } noFont twoClips (beforeItems items) where
  usual := .refl _
  entries _ := rfl
  config := rfl
  fonts := rfl
  files := rfl
  idle := rfl
  distinct := ⟨ids, by simpa [beforeItems] using tickets⟩

/-- A batch of items into a directory. -/
def batchOf (directory : String) (items : List QueueItem) :
    Outcome (List Nat) × State MemoryEngine Unit :=
  (render MemoryEngine.engine unknownLength (.ofString directory) (.record Settings.default.record) {}
    none).run (beforeItems items)

/-- The files once the directory for the outputs is there. -/
def outputsMade : FileTree := ((Host.ensureDirectory (.ofString "out")).run { files := twoClips }).2.files

theorem separable_clips : Separable twoClips "out" {} [firstItem "missing.mp4", secondItem "clip.mp4"]
    (.returned ()) outputsMade where
  made := rfl
  again := rfl
  reads x hx m hm := by
    simp only [List.mem_cons, List.not_mem_nil, or_false] at hx
    rcases hx with rfl | rfl <;> rcases hm with rfl | hm
    · rfl
    · cases hm
    · rfl
    · cases hm
  outputs x hx := by
    simp only [List.mem_cons, List.not_mem_nil, or_false] at hx
    rcases hx with rfl | rfl <;> rfl
  apart x hx y hy ne m hm := by
    simp only [List.mem_cons, List.not_mem_nil, or_false] at hx hy
    rcases hx with rfl | rfl <;> rcases hy with rfl | rfl <;> rcases hm with rfl | hm <;>
      first
      | exact absurd rfl ne
      | cases hm
      | decide +kernel

/-- The message of the item of a ticket after a batch. -/
def messageOf (ticket : Nat) (batch : Outcome (List Nat) × State MemoryEngine Unit) : Option String :=
  (batch.2.client.queue.ofTicket? ticket).bind (·.message)

end VideoExport.Batch
