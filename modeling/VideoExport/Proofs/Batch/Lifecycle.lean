import VideoExport.Proofs.Batch.Item

/-!
# The life of a batch

A batch exports the items of its queue that are not done, one after another (`Course`), and each of
them comes to its end. What is left is a queue of items that are done or have failed, on which the next
batch exports those that have failed (`render_lifecycle`). All of this hangs on one thing: a list must
be able to have the length that the log is to keep. If it cannot, the first job is refused, and the
batch ends there, with its item still being processed.
-/

set_option autoImplicit false

namespace VideoExport.Batch

variable {σ κ : Type} {listener : Option (ItemListener κ)} {item x : QueueItem} {q : Queue}
  {R : List QueueItem → κ → Prop} {c : Config} {told : List QueueItem} {e : Engine σ}
  {probe : DurationProbe (Desk κ)} {s : Settings} {i j k : State σ κ} {directory : Path}
  {attachments : Attachments}

/-! ## One item after another -/

/-- A batch exports items one after another, which become `xs`, and `news` is told; between the exports
nothing changes but the host and the client. -/
inductive Course (e : Engine σ) (probe : DurationProbe (Desk κ)) (directory : Path) (s : Settings)
    (attachments : Attachments) (listener : Option (ItemListener κ)) :
    List QueueItem → List QueueItem → List QueueItem → State σ κ → State σ κ → Prop
  | nil {j k : State σ κ} (aside : Aside j k) :
    Course e probe directory s attachments listener [] [] [] j k
  | cons {item x : QueueItem} {items xs news told : List QueueItem} {j i k : State σ κ}
      (first : Episode e probe directory s attachments listener item x news j i)
      (rest : Course e probe directory s attachments listener items xs told i k) :
    Course e probe directory s attachments listener (item :: items) (x :: xs) (news ++ told) j k

theorem Aside.trans (h : Aside i j) (h' : Aside j k) : Aside i k := by
  unfold Aside at h h' ⊢
  rw [h', h]

variable {items xs news : List QueueItem}

theorem Course.after (h : Course e probe directory s attachments listener items xs news j k)
    (before : Aside i j) : Course e probe directory s attachments listener items xs news i k := by
  cases h with
  | nil aside => exact .nil (before.trans aside)
  | cons first rest =>
    obtain ⟨a, o, b, ha, ran⟩ := first.ran
    exact .cons ⟨first.ended, first.told, a, o, b, before.trans ha, ran⟩ rest

theorem Course.before (h : Course e probe directory s attachments listener items xs news i j)
    (after : Aside j k) : Course e probe directory s attachments listener items xs news i k := by
  induction h with
  | nil aside => exact .nil (aside.trans after)
  | cons first _ ih => exact .cons first (ih after)

theorem Course.ended (h : Course e probe directory s attachments listener items xs news j k) :
    List.Forall₂ (Ended directory) items xs := by
  induction h with
  | nil _ => exact .nil
  | cons first _ ih => exact .cons first.ended ih

theorem Episode.replaced (h : Episode e probe directory s attachments listener item x news j k)
    (distinct : q.Distinct) (mem : item ∈ q.items) : (q.replace x).Distinct :=
  distinct.replace mem h.ended.ticket h.ended.id

theorem log_run (level : Level) (source message : String) (j : State σ κ) : ∃ h,
    (liftM (Host.log level source message) : Action (State σ κ) Unit).run j =
      (.returned (), { j with host := h }) := ⟨_, rfl⟩

variable (s directory attachments) in
/-- Items of the queue are exported one after another, and each of them is put back in its place. -/
theorem renderItems_run (he : e.Responsive c) (apart : Apart probe) (attends : Attends listener)
    (tells : Tells listener R) (total : Nat) :
    ∀ {items : List QueueItem} (position : Nat) {told : List QueueItem} {j : State σ κ},
      (items = [] ∨ FitsLog c) → (items.map (·.ticket)).Nodup → j.runner.config = c →
      j.client.queue.Distinct → (∀ item ∈ items, item ∈ j.client.queue.items) →
      R told j.client.client → ∃ xs news k,
        (renderItems e probe directory s attachments listener total position items).run j =
          (.returned (), k) ∧
        Course e probe directory s attachments listener items xs news j k ∧
        k.runner.config = c ∧ k.client.queue = j.client.queue.replaceAll xs ∧
        k.client.queue.Distinct ∧ R (told ++ news) k.client.client
  | [], _, _, j, _, _, config, distinct, _, hr =>
    ⟨[], [], j, rfl, .nil rfl, config, rfl, distinct, (List.append_nil _).symm ▸ hr⟩
  | item :: items, position, told, j, fits, nodup, config, distinct, mem, hr => by
    obtain ⟨hitem, nodup⟩ := List.nodup_cons.1 nodup
    have fits : FitsLog c := fits.resolve_left nofun
    obtain ⟨h, logged⟩ := log_run .info logSource
      s!"Processando item {position}/{total}: {item.source.name}" j
    obtain ⟨x, news, i, ran, episode, config', queue, hr'⟩ :=
      renderItem_run s directory attachments (j := { j with host := h }) he apart attends tells fits
        config distinct (mem item (.head _)) hr
    have distinct' : i.client.queue.Distinct := queue ▸ episode.replaced distinct (mem item (.head _))
    -- the items that are left are not the one that was exported
    have mem' : ∀ y ∈ items, y ∈ i.client.queue.items := by
      intro y hy
      rw [queue]
      refine Queue.mem_replace_of_ne (mem y (.tail _ hy)) fun ht => hitem ?_
      exact List.mem_map.2 ⟨y, hy, ht.trans episode.ended.ticket⟩
    obtain ⟨xs, more, k, ran', course, config'', queue', distinct'', hr''⟩ :=
      renderItems_run he apart attends tells total (position + 1) (.inr fits)
        nodup config' distinct' mem' hr'
    refine ⟨x :: xs, news ++ more, k, ?_, (Course.cons episode course).after rfl, config'', ?_,
      distinct'', ?_⟩
    · unfold renderItems
      rw [Action.run_bind_of_returned logged, Action.run_bind_of_returned ran]
      exact ran'
    · rw [queue', queue]
      rfl
    · rwa [← List.append_assoc]

/-! ## A whole batch -/

/-- What becomes of an item in a batch: nothing, if it is done already. -/
def Fate (directory : Path) (item x : QueueItem) : Prop :=
  if item.status = .done then x = item else Ended directory item x

theorem fates (distinct : q.Distinct) (h : List.Forall₂ (Ended directory) q.pending xs) :
    List.Forall₂ (Fate directory) q.items (q.replaceAll xs).items := by
  rw [Queue.replaceAll_items, List.forall₂_map_right_iff, List.forall₂_same]
  intro y hy
  unfold Fate
  split
  · rename_i finished
    refine Queue.successor_of_notMem ?_
    rw [Queue.tickets_of_forall₂ Ended.ticket h]
    intro ht
    obtain ⟨z, hz, ht⟩ := List.mem_map.1 ht
    obtain ⟨hz, unfinished⟩ := List.mem_filter.1 hz
    rw [List.inj_on_of_nodup_map distinct.itemTickets hz hy ht] at unfinished
    exact absurd finished (by simpa using unfinished)
  · rename_i unfinished
    exact Queue.successor_of_forall₂ Ended.ticket h distinct.pendingTickets y
      (List.mem_filter.2 ⟨hy, by simpa using unfinished⟩)

/-- What a batch makes of its queue. Items that are done stay as they are. The others are exported in
the order of the queue, and what became of them is what is found under their tickets. -/
structure Lifecycle (e : Engine σ) (probe : DurationProbe (Desk κ)) (directory : Path) (s : Settings)
    (attachments : Attachments) (listener : Option (ItemListener κ)) (news : List QueueItem)
    (j k : State σ κ) : Prop where
  fates : List.Forall₂ (Fate directory) j.client.queue.items k.client.queue.items
  removed : k.client.queue.removed = j.client.queue.removed
  course : Course e probe directory s attachments listener j.client.queue.pending
    (k.client.queue.ofTickets (j.client.queue.pending.map (·.ticket))) news j k

theorem Fate.terminal (h : Fate directory item x) : x.status = .done ∨ x.status = .error := by
  unfold Fate at h
  split at h
  · rename_i finished
    exact .inl (h ▸ finished)
  · exact h.outcome.imp And.left And.left

theorem terminal_of_fates (h : List.Forall₂ (Fate directory) items xs) :
    ∀ x ∈ xs, x.status = .done ∨ x.status = .error := by
  induction h with
  | nil => exact fun _ h => absurd h List.not_mem_nil
  | cons fate _ ih =>
    intro x hx
    rcases List.mem_cons.1 hx with rfl | hx
    · exact fate.terminal
    · exact ih x hx

/-- Nothing becomes of items that are done. -/
theorem eq_of_fates (h : List.Forall₂ (Fate directory) items xs)
    (finished : ∀ item ∈ items, item.status = .done) : xs = items := by
  induction h with
  | nil => rfl
  | cons fate _ ih =>
    unfold Fate at fate
    rw [if_pos (finished _ (.head _))] at fate
    rw [fate, ih fun y hy => finished y (.tail _ hy)]

/-- After a batch, the items that are not done are those that failed. -/
theorem Lifecycle.pending_eq
    (h : Lifecycle e probe directory s attachments listener news j k) :
    k.client.queue.pending = k.client.queue.items.filter (·.status = .error) := by
  refine List.filter_congr fun x hx => ?_
  rcases terminal_of_fates h.fates x hx with ended | ended <;> rw [ended] <;> rfl

variable {settings : Raw}

/-- What a batch does once its settings are accepted, up to its report. -/
def work (e : Engine σ) (probe : DurationProbe (Desk κ)) (directory : Path) (s : Settings)
    (attachments : Attachments) (listener : Option (ItemListener κ)) :
    Action (State σ κ) (List Nat) := do
  let items ← Action.read fun j : State σ κ => j.client.queue.pending
  Host.log .info logSource s!"Iniciando lote com {items.length} itens"
  renderItems e probe directory s attachments listener items.length 1 items
  return items.map (·.ticket)

/-- What a batch reports when it has worked. -/
def report (tickets : List Nat) : Action (State σ κ) (List Nat) := do
  let q ← Action.read fun j : State σ κ => j.client.queue
  let done := (tickets.filter (isDone q)).length
  Host.log .info logSource s!"Lote finalizado: {done}/{tickets.length} concluídos"
  return tickets

theorem report_run (tickets : List Nat) (j : State σ κ) :
    ∃ h, (report tickets).run j = (.returned tickets, { j with host := h }) ∧
      h.files = j.host.files := ⟨_, rfl, rfl⟩

/-- The desk is marked as busy, or no longer. -/
def marked (busy : Bool) (j : State σ κ) : State σ κ := { j with client := { j.client with busy } }

theorem setBusy_run (busy : Bool) (j : State σ κ) :
    (liftM (setBusy busy : Action (Caller (Desk κ)) Unit) : Action (State σ κ) Unit).run j =
      (.returned (), marked busy j) := rfl

theorem begin_run (idle : j.client.busy = false) :
    (liftM (begin? : Action (Caller (Desk κ)) Bool) : Action (State σ κ) Bool).run j =
      (.returned true, j) := by
  refine (Job.caller_run (c := ⟨j.host, j.client⟩) (o := .returned true) ?_).trans rfl
  unfold begin?
  rw [Action.run_bind_of_returned (Action.run_read _ _)]
  show (if j.client.busy = true then _ else _ : Action (Caller (Desk κ)) Bool).run _ = _
  rw [if_neg (by rw [idle]; exact Bool.false_ne_true)]
  rfl

/-- While a batch is running, another is refused. -/
theorem begin_busy (busy : j.client.busy = true) : ∃ h,
    (liftM (begin? : Action (Caller (Desk κ)) Bool) : Action (State σ κ) Bool).run j =
      (.returned false, { j with host := h }) := by
  let logged := (Host.log .warning logSource "Lote já em andamento; ignorando").run j.host
  refine ⟨logged.2, Job.caller_run (c := ⟨logged.2, j.client⟩) ?_⟩
  unfold begin?
  rw [Action.run_bind_of_returned (Action.run_read _ _)]
  show (if j.client.busy = true then _ else _ : Action (Caller (Desk κ)) Bool).run _ = _
  rw [if_pos busy]
  rfl

/-- A batch works between two marks, unless one is running. -/
theorem render_begin (hs : Settings.sanitize settings attachments.image.isSome = .ok s)
    (idle : j.client.busy = false) :
    (render e probe directory settings attachments listener).run j =
      ((work e probe directory s attachments listener).ensuring
        (liftM (setBusy false : Action (Caller (Desk κ)) Unit)) >>= report).run (marked true j) := by
  unfold render
  rw [Action.run_bind_of_returned (begin_run idle), hs]
  rfl

/-- A batch whose settings are refused does nothing. -/
theorem render_unsanitized {f : NumericError}
    (hs : Settings.sanitize settings attachments.image.isSome = .error f)
    (idle : j.client.busy = false) :
    (render e probe directory settings attachments listener).run j = (.raised (.numeric f), j) := by
  unfold render
  rw [Action.run_bind_of_returned (begin_run idle), hs]
  rfl

/-- While a batch is running, another does nothing but say so. -/
theorem render_busy (busy : j.client.busy = true) : ∃ h,
    (render e probe directory settings attachments listener).run j =
      (.returned [], { j with host := h }) := by
  obtain ⟨h, refused⟩ := begin_busy busy
  refine ⟨h, ?_⟩
  unfold render
  rw [Action.run_bind_of_returned refused]
  rfl

variable (directory) in
/-- A batch that is not refused comes to its end. -/
theorem render_run (he : e.Responsive j.runner.config) (apart : Apart probe)
    (attends : Attends listener) (tells : Tells listener R)
    (hs : Settings.sanitize settings attachments.image.isSome = .ok s) (idle : j.client.busy = false)
    (distinct : j.client.queue.Distinct) (hr : R told j.client.client)
    (fits : j.client.queue.pending = [] ∨ FitsLog j.runner.config) : ∃ news k,
      (render e probe directory settings attachments listener).run j =
        (.returned (j.client.queue.pending.map (·.ticket)), k) ∧
      Lifecycle e probe directory s attachments listener news j k ∧
      k.runner.config = j.runner.config ∧ k.client.busy = false ∧ k.client.queue.Distinct ∧
      R (told ++ news) k.client.client := by
  obtain ⟨h, logged⟩ := log_run .info logSource
    s!"Iniciando lote com {j.client.queue.pending.length} itens" (marked true j)
  obtain ⟨xs, news, m, ran, course, config, queue, distinct', hr'⟩ :=
    renderItems_run s directory attachments he apart attends tells j.client.queue.pending.length 1
      (j := { marked true j with host := h }) fits distinct.pendingTickets rfl distinct
      (fun _ h => List.mem_of_mem_filter h) hr
  have worked : (work e probe directory s attachments listener).run (marked true j) =
      (.returned (j.client.queue.pending.map (·.ticket)), m) := by
    unfold work
    rw [Action.run_bind_of_returned (Action.run_read _ _)]
    refine (Action.run_bind_of_returned logged).trans ?_
    exact Action.run_bind_of_returned ran
  have tickets : xs.map (·.ticket) = j.client.queue.pending.map (·.ticket) :=
    Queue.tickets_of_forall₂ Ended.ticket course.ended
  have places : ∀ x ∈ xs, x.ticket ∈ j.client.queue.items.map (·.ticket) := by
    intro x hx
    obtain ⟨y, hy, ht⟩ := List.mem_map.1 (tickets ▸ List.mem_map_of_mem hx)
    exact List.mem_map.2 ⟨y, List.mem_of_mem_filter hy, ht⟩
  have found : m.client.queue.ofTickets (j.client.queue.pending.map (·.ticket)) = xs := by
    rw [← tickets]
    refine distinct'.ofTickets_eq fun x hx => ?_
    rw [queue]
    exact Queue.mem_replaceAll (tickets ▸ distinct.pendingTickets) places hx
  obtain ⟨h', reported, -⟩ := report_run (j.client.queue.pending.map (·.ticket)) (marked false m)
  refine ⟨news, { marked false m with host := h' }, ?_, ⟨?_, ?_, ?_⟩, config, rfl, distinct', hr'⟩
  · rw [render_begin hs idle,
      Action.run_bind_of_returned (Action.run_ensuring_of_returned worked (setBusy_run false m))]
    exact reported
  · show List.Forall₂ _ _ m.client.queue.items
    rw [queue]
    exact fates distinct course.ended
  · show m.client.queue.removed = _
    rw [queue]
    exact Queue.replaceAll_removed xs _
  · show Course _ _ _ _ _ _ _ (m.client.queue.ofTickets _) _ _ _
    rw [found]
    have opened : Aside j { marked true j with host := h } := rfl
    exact (course.after opened).before rfl

variable (e probe directory attachments) in
/-- If no list can have the length that the log is to keep, a batch ends with the first item that it
exports, and leaves this one as it was announced. -/
theorem render_unfit (attends : Attends listener)
    (hs : Settings.sanitize settings attachments.image.isSome = .ok s) (idle : j.client.busy = false)
    (distinct : j.client.queue.Distinct) (unfit : ¬ FitsLog j.runner.config) {rest : List QueueItem}
    (pending : j.client.queue.pending = item :: rest) : ∃ f k,
      (render e probe directory settings attachments listener).run j = (.raised f, k) ∧
      k.client.queue = j.client.queue.replace (cleared item) := by
  obtain ⟨h, logged⟩ := log_run .info logSource
    s!"Iniciando lote com {(marked true j).client.queue.pending.length} itens" (marked true j)
  obtain ⟨h', logged'⟩ := log_run .info logSource
    s!"Processando item {1}/{(item :: rest).length}: {item.source.name}"
    { marked true j with host := h }
  have first : item ∈ j.client.queue.pending := by
    rw [pending]
    exact .head _
  have mem : item ∈ j.client.queue.items := List.mem_of_mem_filter first
  obtain ⟨f, k, ran, queue⟩ := renderItem_unfit e probe s directory attachments
    (j := { marked true j with host := h' }) attends unfit distinct mem
  have worked : (work e probe directory s attachments listener).run (marked true j) =
      (.raised f, k) := by
    unfold work
    rw [Action.run_bind_of_returned (Action.run_read _ _), Action.run_bind_of_returned logged]
    refine Action.run_bind_of_raised ?_
    rw [show (marked true j).client.queue.pending = item :: rest from pending]
    unfold renderItems
    rw [Action.run_bind_of_returned logged']
    exact Action.run_bind_of_raised ran
  refine ⟨f, marked false k, ?_, queue⟩
  rw [render_begin hs idle]
  exact Action.run_bind_of_raised (Action.run_ensuring_of_raised worked (setBusy_run false k))

variable (directory attachments) in
/-- The life of a batch, and of the next one. A batch comes to its end exactly if it has nothing to
export or a list can have the length that the log is to keep: it gives the items that were not done,
each of which has come to its own end, and the next batch exports those that failed. -/
theorem render_lifecycle (he : e.Responsive j.runner.config) (apart : Apart probe)
    (attends : Attends listener) (tells : Tells listener R)
    (hs : Settings.sanitize settings attachments.image.isSome = .ok s) (idle : j.client.busy = false)
    (distinct : j.client.queue.Distinct) (hr : R told j.client.client) :
    (j.client.queue.pending = [] ∨ FitsLog j.runner.config → ∃ news k,
      (render e probe directory settings attachments listener).run j =
        (.returned (j.client.queue.pending.map (·.ticket)), k) ∧
      Lifecycle e probe directory s attachments listener news j k ∧
      R (told ++ news) k.client.client ∧
      ∃ more l, (render e probe directory settings attachments listener).run k =
          (.returned ((k.client.queue.items.filter (·.status = .error)).map (·.ticket)), l) ∧
        Lifecycle e probe directory s attachments listener more k l ∧
        R (told ++ news ++ more) l.client.client) ∧
    ∀ item rest, j.client.queue.pending = item :: rest → ¬ FitsLog j.runner.config → ∃ f k,
      (render e probe directory settings attachments listener).run j = (.raised f, k) ∧
      k.client.queue = j.client.queue.replace (cleared item) := by
  refine ⟨fun fits => ?_, fun item rest pending unfit =>
    render_unfit e probe directory attachments attends hs idle distinct unfit pending⟩
  obtain ⟨news, k, ran, life, config, idle', distinct', hr'⟩ :=
    render_run directory he apart attends tells hs idle distinct hr fits
  have fits' : k.client.queue.pending = [] ∨ FitsLog k.runner.config := by
    refine fits.imp (fun none => ?_) fun fits => config.symm ▸ fits
    have finished : ∀ item ∈ j.client.queue.items, item.status = .done := by
      simpa [Queue.pending] using none
    unfold Queue.pending at none ⊢
    rw [eq_of_fates life.fates finished, none]
  obtain ⟨more, l, ran', life', -, -, -, hr''⟩ :=
    render_run directory (config ▸ he) apart attends tells hs idle' distinct' hr' fits'
  exact ⟨news, k, ran, life, hr', more, l, life.pending_eq ▸ ran', life', hr''⟩

/-! ## A batch that ends and one that does not -/

/-- A listener that keeps what it is told. -/
def recording : ItemListener (List QueueItem) := fun item =>
  .modify fun d => { d with client := { d.client with client := d.client.client ++ [item] } }

theorem attends_recording : Attends (some recording) := fun _ _ => ⟨rfl, rfl⟩

theorem tells_recording : Tells (some recording) fun told items => items = told :=
  fun item _ _ => congrArg (· ++ [item])

/-- A probe that knows no length. -/
def noLength : DurationProbe (Desk (List QueueItem)) := fun _ => pure none

theorem apart_noLength : Apart noLength := ⟨fun _ _ => nofun, fun _ => .pure _⟩

/-- Items of each kind: one is done, one has failed, and one is pending, whose source is missing. -/
def mixedQueue : Queue where
  items := [
    { ticket := 0, id := "a", source := ⟨.ofString "clip.mp4", ""⟩, status := .done },
    { ticket := 1, id := "b", source := ⟨.ofString "clip.mp4", ""⟩, status := .error
      message := some "Falha no processamento" },
    { ticket := 2, id := "c", source := ⟨.ofString "missing.mp4", ""⟩ }]
  tickets := 3

/-- The state before a batch of these items, with the length that the log is to keep. -/
def beforeBatch (length : Int) : State MemoryEngine (List QueueItem) where
  host := ((Host.writeFile "clip.mp4" ⟨#[0]⟩).run {}).2
  engine := {}
  runner := .ofConfig { logBuffer := some length }
  client := { queue := mixedQueue, client := [] }

theorem beforeBatch_responsive (length : Int) :
    MemoryEngine.engine.Responsive (beforeBatch length).runner.config :=
  have load : (Deadline.limit? (some ({} : Config).loadLimit)).isSome = true := by decide +kernel
  have render : (Deadline.limit? (some ({} : Config).renderLimit)).isSome = true := by decide +kernel
  MemoryEngine.responsive load render

theorem mixedQueue_distinct : mixedQueue.Distinct := ⟨by decide, by decide⟩

/-- A batch of these items. -/
def mixedBatch (j : State MemoryEngine (List QueueItem)) :
    Outcome (List Nat) × State MemoryEngine (List QueueItem) :=
  (render MemoryEngine.engine noLength (.ofString "out") (.record Settings.default.record) {}
    (some recording)).run j

theorem render_lifecycle_of_mixedBatch : ∃ s news k,
    mixedBatch (beforeBatch 200) = (.returned [1, 2], k) ∧
      Lifecycle MemoryEngine.engine noLength (.ofString "out") s {} (some recording) news
        (beforeBatch 200) k ∧ k.client.client = news ∧
      ∃ more l, mixedBatch k =
          (.returned ((k.client.queue.items.filter (·.status = .error)).map (·.ticket)), l) ∧
        Lifecycle MemoryEngine.engine noLength (.ofString "out") s {} (some recording) more k l ∧
        l.client.client = news ++ more := by
  obtain ⟨s, hs⟩ := Settings.sanitize_record .default false
  have fits : FitsLog (beforeBatch 200).runner.config := by
    rintro n ⟨⟩
    decide
  have untold : (beforeBatch 200).client.client = [] := rfl
  obtain ⟨news, k, ran⟩ := (render_lifecycle (.ofString "out") {} (j := beforeBatch 200)
    (beforeBatch_responsive 200) apart_noLength attends_recording tells_recording hs rfl
    mixedQueue_distinct untold).1 (.inr fits)
  exact ⟨s, news, k, ran⟩

/-- With a log that is to keep more lines than a list can have, the batch fails at its first item, which
is still being processed. -/
theorem oversized_log_unfinished : (0 : Int) ≤ 9223372036854775808 ∧
    MemoryEngine.engine.Responsive (beforeBatch 9223372036854775808).runner.config ∧
    Apart noLength ∧ Attends (some recording) ∧ mixedQueue.Distinct ∧
    ∃ f k, mixedBatch (beforeBatch 9223372036854775808) = (.raised f, k) ∧
      (k.client.queue.get? "b").map (·.status) = some .processing := by
  obtain ⟨s, hs⟩ := Settings.sanitize_record .default false
  have unfit : ¬ FitsLog (beforeBatch 9223372036854775808).runner.config := fun fits =>
    absurd (fits _ rfl).2 (by decide)
  obtain ⟨f, k, ran, queue⟩ := render_unfit MemoryEngine.engine noLength (.ofString "out") {}
    (j := beforeBatch 9223372036854775808) attends_recording hs rfl mixedQueue_distinct unfit rfl
  refine ⟨by decide, beforeBatch_responsive _, apart_noLength, attends_recording, mixedQueue_distinct,
    f, k, ran, ?_⟩
  rw [queue]
  rfl

end VideoExport.Batch
