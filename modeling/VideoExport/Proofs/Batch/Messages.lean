import VideoExport.Proofs.Batch.Lifecycle
import VideoExport.Proofs.Job.Client
import VideoExport.Proofs.Job.Log

/-!
# The messages of items

A batch runs the jobs of its items one after another (`Row`), and however it ends, an item whose job
failed is left with a message that quotes what the failure shows of the log (`Overlooks.render`). All
that this asks of the probe and of the listener is that they leave the queue alone (`Overlooks`): they
may fail, or never end. `failures_quote_log` puts it together with what a failure shows of the log.
-/

set_option autoImplicit false

namespace VideoExport

variable {σ κ : Type}

/-! ## Messages -/

/-- What is told of a cause. -/
def Failure.told (cause : Failure) : String :=
  if cause.message = "" then "Falha no processamento" else cause.message

/-- A message tells a cause, and after it the last of some lines, if there are any. -/
inductive Failure.Quotes (cause : Failure) : List String → String → Prop
  | bare : Quotes cause [] cause.told
  | last (lines : List String) (line : String) :
    Quotes cause (lines ++ [line]) (cause.told ++ ": " ++ line)

theorem Failure.summary_quotes (cause : Failure) (lines : List String) :
    cause.Quotes lines (cause.summary lines) := by
  have told : (if cause.message.isEmpty then "Falha no processamento" else cause.message) =
      cause.told := by simp [Failure.told]
  unfold summary
  rw [told]
  rcases List.eq_nil_or_concat lines with rfl | ⟨lines, line, rfl⟩
  · exact .bare
  · rw [List.concat_eq_append, List.getLast?_concat]
    exact .last lines line

namespace Batch

variable {listener : Option (ItemListener κ)} {item x : QueueItem} {q : Queue} {e : Engine σ}
  {probe : DurationProbe (Desk κ)} {directory : Path} {s : Settings} {attachments : Attachments}
  {i j k : State σ κ}

/-! ## The queue during a job -/

/-- The queue stays as it is. -/
def unqueued : Evolution (Caller (Desk κ)) := (Evolution.same Desk.queue).on Caller.client

/-- Neither the probe nor the listener changes the queue, whatever else they do. -/
structure Overlooks (probe : DurationProbe (Desk κ)) (listener : Option (ItemListener κ)) : Prop where
  asked : ∀ path, (probe path).Follows unqueued
  told : ∀ item, (tellOf listener item).Follows unqueued

theorem Overlooks.notified (h : Overlooks probe listener) (ticket : Nat) :
    (notify listener ticket).Follows unqueued := by
  intro c
  cases found : c.client.queue.ofTicket? ticket with
  | some x =>
    rw [notify_run found]
    exact h.told x c
  | none =>
    unfold notify
    rw [Action.run_bind, Action.run_read]
    dsimp only
    rw [found]
    cases listener <;> rfl

/-- Something stands in the place of an item. -/
def Placed (q : Queue) (item : QueueItem) (m : Desk κ) : Prop :=
  ∃ x, Queue.Slot q item x ∧ m.queue = q.replace x

theorem placed_of_unqueued {c c' : Caller (Desk κ)} (h : unqueued c c') :
    (Evolution.keeping (Placed q item)).on Caller.client c c' := by
  rintro ⟨x, slot, queue⟩
  exact ⟨x, slot, Eq.trans h queue⟩

theorem Overlooks.advanced (h : Overlooks probe listener) (value : Binary64) :
    (onProgress listener item value).Follows ((Evolution.keeping (Placed q item)).on Caller.client) := by
  refine .bind (.modify fun c => ?_) fun _ => (h.notified _).mono fun _ _ => placed_of_unqueued
  rintro ⟨x, slot, queue⟩
  have ticket : (x.advance (.real value)).ticket = x.ticket := rfl
  refine ⟨x.advance (.real value), ⟨slot.distinct, slot.mem, slot.ticket, slot.id⟩, ?_⟩
  show c.client.queue.updateTicket _ _ = _
  rw [queue, slot.updateTicket_replace (f := (·.advance (.real value))) ticket]

/-- However the announcement of an item ends, the item stands on the queue as one that is processed. -/
theorem Overlooks.announced (h : Overlooks probe listener) {c c' : Caller (Desk κ)} {o : Outcome Unit}
    (distinct : c.client.queue.Distinct) (mem : item ∈ c.client.queue.items)
    (ran : (announce listener item).run c = (o, c')) :
    c'.client.queue = c.client.queue.replace (item.apply started) := by
  obtain ⟨_, d, hd, ran⟩ := Action.bind_total ran ⟨_, _, rfl⟩
  cases hd
  refine Eq.trans ((h.notified _).of_run ran) ?_
  exact distinct.update_eq mem started

/-! ## Jobs in a row -/

/-- A job of an item, from a state to another. -/
structure Stint (σ κ : Type) where
  item : QueueItem
  before : State σ κ
  outcome : Outcome JobResult
  after : State σ κ

/-- The job was run so. -/
def Stint.Ran (e : Engine σ) (probe : DurationProbe (Desk κ)) (directory : Path) (s : Settings)
    (attachments : Attachments) (listener : Option (ItemListener κ)) (t : Stint σ κ) : Prop :=
  (Job.run e probe (requestFor directory s attachments t.item) (some (onProgress listener t.item))).run
    t.before = (t.outcome, t.after)

/-- What is found of a job in the place of its item: a failure is marked, and its message quotes it. -/
def Stint.Shown (t : Stint σ κ) (x : QueueItem) : Prop :=
  ∀ cause tail, t.outcome = .raised (.exportFailed cause tail) →
    x.status = .error ∧ ∃ m, x.message = some m ∧ cause.Quotes tail m

/-- From one state to another, jobs are run one after another, and between them nothing changes but the
host and the client. -/
inductive Row (e : Engine σ) (probe : DurationProbe (Desk κ)) (directory : Path) (s : Settings)
    (attachments : Attachments) (listener : Option (ItemListener κ)) :
    List (Stint σ κ) → State σ κ → State σ κ → Prop
  | nil {j k : State σ κ} (aside : Aside j k) : Row e probe directory s attachments listener [] j k
  | cons {t : Stint σ κ} {stints : List (Stint σ κ)} {j k : State σ κ} (aside : Aside j t.before)
      (ran : t.Ran e probe directory s attachments listener)
      (rest : Row e probe directory s attachments listener stints t.after k) :
    Row e probe directory s attachments listener (t :: stints) j k

theorem Row.after {stints : List (Stint σ κ)}
    (h : Row e probe directory s attachments listener stints j k) (before : Aside i j) :
    Row e probe directory s attachments listener stints i k := by
  cases h with
  | nil aside => exact .nil (before.trans aside)
  | cons aside ran rest => exact .cons (before.trans aside) ran rest

theorem Row.before {stints : List (Stint σ κ)}
    (h : Row e probe directory s attachments listener stints i j) (after : Aside j k) :
    Row e probe directory s attachments listener stints i k := by
  induction h with
  | nil aside => exact .nil (aside.trans after)
  | cons aside ran _ ih => exact .cons aside ran (ih after)

/-- No job changes the configuration. -/
theorem Row.config {stints : List (Stint (Recorded σ) κ)} {j k : State (Recorded σ) κ}
    (h : Row e.recorded probe directory s attachments listener stints j k) :
    ∀ t ∈ stints, t.Ran e.recorded probe directory s attachments listener ∧
      t.before.runner.config = j.runner.config := by
  induction h with
  | nil _ => exact fun _ h => absurd h List.not_mem_nil
  | @cons t stints j k aside ran _ ih =>
    have config : t.before.runner.config = j.runner.config := by
      unfold Aside at aside
      rw [aside]
    intro u hu
    rcases List.mem_cons.1 hu with rfl | hu
    · exact ⟨ran, config⟩
    · obtain ⟨ran', config'⟩ := ih u hu
      exact ⟨ran', config'.trans ((Job.run_config ran).trans config)⟩

/-! ## One item -/

/-- Only the host and the client change. -/
def aside : Evolution (State σ κ) := ⟨Aside, fun _ => rfl, Aside.trans⟩

theorem aside_caller {α : Type} (x : Action (Caller (Desk κ)) α) :
    (liftM x : Action (State σ κ) α).Follows aside := .zoom (.any x) fun _ _ _ => rfl

/-- A job of an item changes nothing on the queue but what stands in the place of the item. -/
theorem Overlooks.worked (h : Overlooks probe listener) {r : JobRequest} {o : Outcome JobResult}
    (ran : (Job.run e probe r (some (onProgress listener item))).run i = (o, j))
    (placed : Placed q item i.client) : Placed q item j.client := by
  have told : ∀ tell, some (onProgress listener item) = some tell → ∀ value,
      (tell value).Follows ((Evolution.keeping (Placed q item)).on Caller.client) := by
    rintro _ ⟨⟩ value
    exact h.advanced value
  have asked : ∀ path, (probe path).Follows ((Evolution.keeping (Placed q item)).on Caller.client) :=
    fun path => (h.asked path).mono fun _ _ => placed_of_unqueued
  exact (Job.follows_run asked told).of_run ran placed

variable {r : Except Failure JobResult} {o : Outcome Unit}

/-- What becomes of an item after its job. -/
theorem Overlooks.settled (h : Overlooks probe listener) (placed : Placed q item j.client)
    (ran : ((liftM (settle item r : Action (Caller (Desk κ)) Unit) : Action (State σ κ) Unit) >>=
      fun _ => liftM (notify listener item.ticket)).run j = (o, k)) :
    ∃ x, Queue.Slot q item x ∧ k.client.queue = q.replace x ∧ ∀ cause tail,
      r = .error (.exportFailed cause tail) →
        x.status = .error ∧ ∃ m, x.message = some m ∧ cause.Quotes tail m := by
  obtain ⟨x, slot, queue⟩ := placed
  -- a change of the item is kept, and whoever is told of it leaves it alone
  have kept (change : ItemChange) (keeps : change.id = none)
      (hr : (settle item r : Action (Caller (Desk κ)) Unit) =
        updateQueue (·.update item.id change)) :
      Queue.Slot q item (x.apply change) ∧ k.client.queue = q.replace (x.apply change) := by
    rw [hr] at ran
    obtain ⟨_, i, hi, ran⟩ := Action.bind_total ran ⟨_, _, rfl⟩
    cases hi
    obtain ⟨c, hc, rfl⟩ := Action.zoom_eq ran
    refine ⟨slot.apply keeps, Eq.trans ((h.notified _).of_run hc) ?_⟩
    show j.client.queue.update _ _ = _
    rw [queue, slot.update_replace]
  match r with
  | .ok result =>
    obtain ⟨slot', queue'⟩ := kept (succeeded result.output) rfl rfl
    exact ⟨_, slot', queue', nofun⟩
  | .error f =>
    by_cases failure : ∃ cause tail, f = .exportFailed cause tail
    · obtain ⟨cause, tail, rfl⟩ := failure
      obtain ⟨slot', queue'⟩ := kept (failed cause tail) rfl rfl
      refine ⟨_, slot', queue', ?_⟩
      rintro _ _ ⟨⟩
      exact ⟨rfl, _, rfl, cause.summary_quotes tail⟩
    · have plain : ∀ cause tail, f ≠ .exportFailed cause tail :=
        fun cause tail same => failure ⟨cause, tail, same⟩
      rw [settle_plain plain] at ran
      cases ran
      refine ⟨x, slot, queue, ?_⟩
      rintro cause tail ⟨⟩
      exact absurd rfl (plain cause tail)

/-- However the export of an item ends, only what stands in its place is changed on the queue, and that
shows its job, unless none was run. -/
theorem Overlooks.exported (h : Overlooks probe listener) (distinct : j.client.queue.Distinct)
    (mem : item ∈ j.client.queue.items)
    (ran : (renderItem e probe directory s attachments listener item).run j = (o, k)) :
    ∃ x, Queue.Slot j.client.queue item x ∧ k.client.queue = j.client.queue.replace x ∧
      (Aside j k ∧ (∀ u, o ≠ .returned u) ∨ ∃ t : Stint σ κ, t.item = item ∧ Aside j t.before ∧
        t.Ran e probe directory s attachments listener ∧ Aside t.after k ∧ t.Shown x) := by
  have slot : Queue.Slot j.client.queue item (item.apply started) :=
    (Queue.Slot.self distinct mem).apply rfl
  unfold renderItem at ran
  rcases hi : (liftM (announce listener item) : Action (State σ κ) Unit).run j with ⟨p, i⟩
  obtain ⟨c, hc, rfl⟩ := Action.zoom_eq hi
  have queue : c.client.queue = j.client.queue.replace (item.apply started) :=
    h.announced distinct mem hc
  have before : Aside j { j with host := c.host, client := c.client } := rfl
  rcases Action.bind_eq ran with ⟨_, _, hi', ran⟩ | ⟨f, hi', rfl⟩ | ⟨hi', rfl⟩ <;>
    cases hi.symm.trans hi'
  on_goal 2 => exact ⟨_, slot, queue, .inl ⟨before, nofun⟩⟩
  on_goal 2 => exact ⟨_, slot, queue, .inl ⟨before, nofun⟩⟩
  rcases Action.attempt_bind_eq ran with ⟨result, b, hb, ran⟩ | ⟨f, b, hb, ran⟩ | ⟨hb, rfl⟩
  · obtain ⟨x, slot, queue, -⟩ := h.settled (h.worked hb ⟨_, slot, queue⟩) ran
    refine ⟨x, slot, queue, .inr ⟨⟨item, _, _, b⟩, rfl, before, hb, ?_, nofun⟩⟩
    exact (Action.Follows.bind (aside_caller _) fun _ => aside_caller _).of_run ran
  · obtain ⟨x, slot, queue, shown⟩ := h.settled (h.worked hb ⟨_, slot, queue⟩) ran
    refine ⟨x, slot, queue, .inr ⟨⟨item, _, _, b⟩, rfl, before, hb, ?_, ?_⟩⟩
    · exact (Action.Follows.bind (aside_caller _) fun _ => aside_caller _).of_run ran
    · rintro cause tail ⟨⟩
      exact shown cause tail rfl
  · obtain ⟨x, slot, queue⟩ := h.worked hb ⟨_, slot, queue⟩
    exact ⟨x, slot, queue, .inr ⟨⟨item, _, _, _⟩, rfl, before, hb, rfl, nofun⟩⟩

/-! ## All items -/

/-- Items are exported in turn, from the state `j` to `k`, maybe not to the last: their jobs are run one
after another, each of them is found on the queue in the place of its item, and nothing else was changed
there. -/
structure Series (e : Engine σ) (probe : DurationProbe (Desk κ)) (directory : Path) (s : Settings)
    (attachments : Attachments) (listener : Option (ItemListener κ)) (items : List QueueItem)
    (stints : List (Stint σ κ)) (j k : State σ κ) : Prop where
  row : Row e probe directory s attachments listener stints j k
  turns : stints.map (·.item) <+: items
  distinct : k.client.queue.Distinct
  others : ∀ y ∈ j.client.queue.items, y.ticket ∉ items.map (·.ticket) → y ∈ k.client.queue.items
  shown : ∀ t ∈ stints, ∃ x ∈ k.client.queue.items, x.ticket = t.item.ticket ∧ t.Shown x

/-- Only the host and the client change, but not the queue. -/
def between : Evolution (State σ κ) := aside.and (.same fun j => j.client.queue)

theorem Series.within {items : List QueueItem} {stints : List (Stint σ κ)} {l : State σ κ}
    (h : Series e probe directory s attachments listener items stints i j) (before : between k i)
    (after : between j l) : Series e probe directory s attachments listener items stints k l := by
  have queue : i.client.queue = k.client.queue := before.2
  have queue' : l.client.queue = j.client.queue := after.2
  exact ⟨(h.row.after before.1).before after.1, h.turns, queue' ▸ h.distinct,
    queue' ▸ queue ▸ h.others, queue' ▸ h.shown⟩

theorem Series.empty (items : List QueueItem) (distinct : j.client.queue.Distinct) :
    Series e probe directory s attachments listener items [] j j :=
  ⟨.nil rfl, List.nil_prefix, distinct, fun _ hy _ => hy, fun _ h => absurd h List.not_mem_nil⟩

/-- However an export of items in turn ends: it ends early, or the jobs of all items were run. -/
theorem Overlooks.series (h : Overlooks probe listener) (total : Nat) :
    ∀ {items : List QueueItem} (position : Nat) {j : State σ κ} {o : Outcome Unit},
      (items.map (·.ticket)).Nodup → j.client.queue.Distinct →
      (∀ item ∈ items, item ∈ j.client.queue.items) →
      (renderItems e probe directory s attachments listener total position items).run j = (o, k) →
      ∃ stints, Series e probe directory s attachments listener items stints j k ∧
        ∀ u, o = .returned u → stints.map (·.item) = items
  | [], _, j, _, _, distinct, _, ran => by
    cases ran
    exact ⟨[], .empty [] distinct, fun _ _ => rfl⟩
  | item :: items, position, j, o, nodup, distinct, mem, ran => by
    obtain ⟨hitem, hitems⟩ := List.nodup_cons.1 nodup
    obtain ⟨l, logged⟩ := log_run .info logSource
      s!"Processando item {position}/{total}: {item.source.name}" j
    unfold renderItems at ran
    rw [Action.run_bind_of_returned logged] at ran
    rcases hi : (renderItem e probe directory s attachments listener item).run { j with host := l }
      with ⟨p, i⟩
    obtain ⟨x, slot, queue, shows⟩ :=
      h.exported (j := { j with host := l }) distinct (mem item (.head _)) hi
    have opened : Aside j { j with host := l } := rfl
    have standing : x ∈ i.client.queue.items := queue ▸ slot.mem_replace
    have others : ∀ y ∈ j.client.queue.items, y.ticket ≠ item.ticket → y ∈ i.client.queue.items := by
      intro y hy ht
      rw [queue]
      exact Queue.mem_replace_of_ne hy (slot.ticket ▸ ht)
    -- the export of the item is the last of them
    have last : ∃ stints,
        Series e probe directory s attachments listener (item :: items) stints j i := by
      have rest : ∀ y ∈ j.client.queue.items, y.ticket ∉ (item :: items).map (·.ticket) →
          y ∈ i.client.queue.items := by
        intro y hy ht
        refine others y hy fun same => ht ?_
        simp [same]
      rcases shows with ⟨aside, -⟩ | ⟨t, rfl, before, hran, after, shown⟩
      · exact ⟨[], .nil (opened.trans aside), List.nil_prefix, queue ▸ slot.distinct_replace, rest,
          fun _ h => absurd h List.not_mem_nil⟩
      · refine ⟨[t], .cons (opened.trans before) hran (.nil after), by simp,
          queue ▸ slot.distinct_replace, rest, fun u hu => ?_⟩
        cases List.mem_singleton.1 hu
        exact ⟨x, standing, slot.ticket, shown⟩
    rcases Action.bind_eq ran with ⟨_, _, hi', next⟩ | ⟨f, hi', rfl⟩ | ⟨hi', rfl⟩ <;>
      cases hi.symm.trans hi'
    · obtain ⟨t, rfl, before, hran, after, shown⟩ := shows.resolve_left fun h => h.2 _ rfl
      have mem' : ∀ y ∈ items, y ∈ i.client.queue.items := by
        intro y hy
        refine others y (mem y (.tail _ hy)) fun same => hitem ?_
        exact List.mem_map.2 ⟨y, hy, same⟩
      obtain ⟨stints, series, whole⟩ :=
        h.series total (position + 1) hitems (queue ▸ slot.distinct_replace) mem' next
      refine ⟨t :: stints, ⟨.cons (opened.trans before) hran (series.row.after after), ?_,
        series.distinct, ?_, ?_⟩, fun u hu => congrArg _ (whole u hu)⟩
      · exact List.cons_prefix_cons.2 ⟨rfl, series.turns⟩
      · intro y hy ht
        simp only [List.map_cons, List.mem_cons, not_or] at ht
        exact series.others y (others y hy ht.1) ht.2
      · intro u hu
        rcases List.mem_cons.1 hu with rfl | hu
        · exact ⟨x, series.others x standing (slot.ticket ▸ hitem), slot.ticket, shown⟩
        · exact series.shown u hu
    all_goals
      obtain ⟨stints, series⟩ := last
      refine ⟨stints, series, ?_⟩
      rintro _ ⟨⟩

/-- However the work of a batch ends: the tickets that it gives are those of the items whose jobs were
run. -/
theorem Overlooks.work (h : Overlooks probe listener) {o : Outcome (List Nat)}
    (distinct : j.client.queue.Distinct)
    (ran : (work e probe directory s attachments listener).run j = (o, k)) :
    ∃ stints, Series e probe directory s attachments listener j.client.queue.pending stints j k ∧
      ∀ tickets, o = .returned tickets → tickets = stints.map (·.item.ticket) := by
  obtain ⟨l, logged⟩ := log_run .info logSource
    s!"Iniciando lote com {j.client.queue.pending.length} itens" j
  unfold Batch.work at ran
  rw [Action.run_bind_of_returned (Action.run_read _ _)] at ran
  replace ran := (Action.run_bind_of_returned logged).symm.trans ran
  have series {p : Outcome Unit} {i : State σ κ}
      (hi : (renderItems e probe directory s attachments listener j.client.queue.pending.length 1
        j.client.queue.pending).run { j with host := l } = (p, i)) :
      ∃ stints, Series e probe directory s attachments listener j.client.queue.pending stints j i ∧
        ∀ u, p = .returned u → stints.map (·.item) = j.client.queue.pending := by
    obtain ⟨stints, series, whole⟩ := h.series (j := { j with host := l }) _ 1 distinct.pendingTickets
      distinct (fun _ h => List.mem_of_mem_filter h) hi
    exact ⟨stints, series.within ⟨rfl, rfl⟩ (between.refl _), whole⟩
  rcases Action.bind_eq ran with ⟨_, i, hi, done⟩ | ⟨f, hi, rfl⟩ | ⟨hi, rfl⟩
  · obtain ⟨stints, series, whole⟩ := series hi
    cases done
    refine ⟨stints, series, ?_⟩
    rintro _ ⟨⟩
    rw [← whole _ rfl, List.map_map]
    rfl
  · obtain ⟨stints, series, -⟩ := series hi
    exact ⟨stints, series, nofun⟩
  · obtain ⟨stints, series, -⟩ := series hi
    exact ⟨stints, series, nofun⟩

/-- However a batch ends: the tickets that it gives are those of the items whose jobs were run, with the
settings that it accepted. -/
theorem Overlooks.render (h : Overlooks probe listener) {settings : Raw} {o : Outcome (List Nat)}
    (distinct : j.client.queue.Distinct)
    (ran : (render e probe directory settings attachments listener).run j = (o, k)) :
    ∃ s stints, Series e probe directory s attachments listener j.client.queue.pending stints j k ∧
      (stints ≠ [] → Settings.sanitize settings attachments.image.isSome = .ok s) ∧
      ∀ tickets, o = .returned tickets → tickets = stints.map (·.item.ticket) := by
  have kept (busy : Bool) : (liftM (setBusy busy : Action (Caller (Desk κ)) Unit) :
      Action (State σ κ) Unit).Follows between := fun _ => ⟨rfl, rfl⟩
  by_cases idle : j.client.busy = false
  · cases hs : Settings.sanitize settings attachments.image.isSome with
    | error f =>
      cases (render_unsanitized hs idle).symm.trans ran
      exact ⟨.default, [], .empty _ distinct, nofun, nofun⟩
    | ok s =>
      rw [render_begin hs idle] at ran
      rcases hu : ((Batch.work e probe directory s attachments listener).ensuring
        (liftM (setBusy false : Action (Caller (Desk κ)) Unit))).run (marked true j) with ⟨p, u⟩
      obtain ⟨q, t, ht, after, returned⟩ := Action.ensuring_split (kept false) hu
      obtain ⟨stints, series, given⟩ := h.work (j := marked true j) distinct ht
      have series' : Series e probe directory s attachments listener j.client.queue.pending stints j u :=
        series.within ⟨rfl, rfl⟩ after
      refine ⟨s, stints, ?_⟩
      rcases Action.bind_eq ran with ⟨tickets, _, hu', reports⟩ | ⟨f, hu', rfl⟩ | ⟨hu', rfl⟩ <;>
        cases hu.symm.trans hu'
      · obtain ⟨l, reported, -⟩ := report_run tickets u
        cases reported.symm.trans reports
        refine ⟨series'.within (between.refl _) ⟨rfl, rfl⟩, fun _ => rfl, ?_⟩
        rintro _ ⟨⟩
        exact given _ (returned _ rfl)
      · exact ⟨series', fun _ => rfl, nofun⟩
      · exact ⟨series', fun _ => rfl, nofun⟩
  · obtain ⟨_, refused⟩ := render_busy (j := j) (by simpa using idle)
    cases refused.symm.trans ran
    refine ⟨.default, [], .within (.empty _ distinct) (between.refl _) ⟨rfl, rfl⟩, nofun, ?_⟩
    rintro _ ⟨⟩
    rfl

/-! ## What a failure quotes -/

/-- What a failure shows of the log of its run, and what of it is found on the queue. However many
events a run was handed, its failure shows the last lines that they told: as many as are kept and to be
shown, but all that are kept if none are to be shown. In a batch, however it ends, an item whose job
failed has a message that tells the cause, and then the last of the lines that the failure shows. -/
theorem failures_quote_log (e : Engine σ) (kept shown : Nat) :
    (∀ (probe : DurationProbe κ) (r : JobRequest) (listener : Option (ProgressListener κ))
        (j k : Job (Recorded σ) κ) (cause : Failure) (tail : List String),
      j.runner.config.logBuffer = some (kept : Int) → j.runner.config.logTail = (shown : Int) →
      (Job.run e.recorded probe r listener).run j = (.raised (.exportFailed cause tail), k) →
      k.runner.state = .error → ∃ events, Job.Delivered e probe r j k events ∧
        Job.Tail kept shown (events.filterMap EngineEvent.line?) tail) ∧
    ∀ (probe : DurationProbe (Desk κ)) (directory : Path) (settings : Raw) (attachments : Attachments)
        (listener : Option (ItemListener κ)) (j k : State (Recorded σ) κ) (o : Outcome (List Nat)),
      j.runner.config.logBuffer = some (kept : Int) → j.runner.config.logTail = (shown : Int) →
      Overlooks probe listener → j.client.queue.Distinct →
      (render e.recorded probe directory settings attachments listener).run j = (o, k) →
      ∃ s stints, Row e.recorded probe directory s attachments listener stints j k ∧
        stints.map (·.item) <+: j.client.queue.pending ∧
        (stints ≠ [] → Settings.sanitize settings attachments.image.isSome = .ok s) ∧
        (∀ tickets, o = .returned tickets → tickets = stints.map (·.item.ticket)) ∧
        ∀ t ∈ stints, ∀ cause tail, t.outcome = .raised (.exportFailed cause tail) →
          (∃ x m, k.client.queue.ofTicket? t.item.ticket = some x ∧ x.status = .error ∧
            x.message = some m ∧ cause.Quotes tail m) ∧
          (t.after.runner.state = .error → ∃ events,
            Job.Delivered e probe (requestFor directory s attachments t.item) t.before t.after events ∧
              Job.Tail kept shown (events.filterMap EngineEvent.line?) tail) := by
  refine ⟨fun _ _ _ _ _ _ _ keeps shows ran failed => Job.run_logTail keeps shows ran failed, ?_⟩
  intro probe directory settings attachments listener j k o keeps shows overlooks distinct ran
  obtain ⟨s, stints, series, accepted, given⟩ := overlooks.render distinct ran
  refine ⟨s, stints, series.row, series.turns, accepted, given, ?_⟩
  refine fun t ht cause tail outcome => ⟨?_, ?_⟩
  · obtain ⟨x, mem, ticket, found⟩ := series.shown t ht
    obtain ⟨status, m, message, quotes⟩ := found cause tail outcome
    exact ⟨x, m, ticket ▸ series.distinct.ofTicket?_eq mem, status, message, quotes⟩
  · intro failed
    obtain ⟨hran, config⟩ := series.row.config t ht
    unfold Stint.Ran at hran
    rw [outcome] at hran
    exact Job.run_logTail (by rw [config]; exact keeps) (by rw [config]; exact shows) hran failed

/-! ## Three lines, and a failure -/

/-- A queue of one item. -/
def singleQueue : Queue where
  items := [{ ticket := 0, id := "a", source := ⟨.ofString "clip.mp4", ""⟩ }]
  tickets := 1

theorem singleQueue_distinct : singleQueue.Distinct := ⟨by decide, by decide⟩

/-- The state before a batch of this item, whose engine tells three lines before it fails. -/
def beforeLines (kept shown : Nat) : State (Recorded MemoryEngine) Unit where
  host := ((Host.writeFile "clip.mp4" ⟨#[0]⟩).run {}).2
  engine := { engine := { executions := [{ steps := [.emits (.log "frame=1"),
    .emits (.log "frame=2"), .emits (.log "frame=3"),
    .raises (.raised .runtime "engine failed")] }] } }
  runner := .ofConfig { logBuffer := some kept, logTail := shown }
  client := { queue := singleQueue, client := () }

/-- A probe that knows nothing. -/
def blankProbe : DurationProbe (Desk Unit) := fun _ => pure none

/-- A job on this engine. -/
def linesRun (kept shown : Nat) : Outcome JobResult × State (Recorded MemoryEngine) Unit :=
  (Job.run MemoryEngine.engine.recorded blankProbe Job.octetClip none).run (beforeLines kept shown)

/-- The batch. -/
def linesBatch (kept shown : Nat) : Outcome (List Nat) × State (Recorded MemoryEngine) Unit :=
  (render MemoryEngine.engine.recorded blankProbe (.ofString "out") (.record Settings.default.record) {}
    none).run (beforeLines kept shown)

/-- The text of the cause and the lines that a failure of the export shows. -/
def reported? : Outcome JobResult → Option (String × List String)
  | .raised (.exportFailed cause tail) => some (cause.message, tail)
  | _ => none

theorem reported?_eq {o : Outcome JobResult} {text : String} {tail : List String}
    (h : reported? o = some (text, tail)) : ∃ cause, o = .raised (.exportFailed cause tail) := by
  unfold reported? at h
  split at h
  · cases h
    exact ⟨_, rfl⟩
  · cases h

theorem overlooks_blank : Overlooks blankProbe none :=
  ⟨fun _ => .pure _, fun _ => .pure _⟩

/-- Of three lines two are kept, and the last of them is shown, also on the queue. -/
theorem linesRun_quoted :
    (∃ cause k events, linesRun 2 1 = (.raised (.exportFailed cause ["frame=3"]), k) ∧
      k.runner.state = .error ∧
      Job.Delivered MemoryEngine.engine blankProbe Job.octetClip (beforeLines 2 1) k events ∧
      Job.Tail 2 1 (events.filterMap EngineEvent.line?) ["frame=3"]) ∧
    Overlooks blankProbe none ∧ singleQueue.Distinct ∧
    (∃ s stints, Row MemoryEngine.engine.recorded blankProbe (.ofString "out") s {} none stints
      (beforeLines 2 1) (linesBatch 2 1).2 ∧ [0] = stints.map (·.item.ticket)) ∧
    ((linesBatch 2 1).2.client.queue.ofTicket? 0).map (·.message) =
      some (some "engine failed: frame=3") := by
  have reported : reported? (linesRun 2 1).1 = some ("engine failed", ["frame=3"]) := by decide +kernel
  have failed : (linesRun 2 1).2.runner.state = .error := by decide +kernel
  obtain ⟨cause, raised⟩ := reported?_eq reported
  have ran : linesRun 2 1 = (.raised (.exportFailed cause ["frame=3"]), (linesRun 2 1).2) :=
    Prod.ext raised rfl
  obtain ⟨events, delivered, tail⟩ := (failures_quote_log MemoryEngine.engine 2 1).1 blankProbe
    Job.octetClip none (beforeLines 2 1) _ _ _ rfl rfl ran failed
  have returned : (linesBatch 2 1).1.returned? = some [0] := by decide +kernel
  have queue : (beforeLines 2 1).client.queue.Distinct := singleQueue_distinct
  obtain ⟨s, stints, row, -, -, tickets, -⟩ := (failures_quote_log MemoryEngine.engine 2 1).2
    blankProbe (.ofString "out") (.record Settings.default.record) {} none (beforeLines 2 1) _ _ rfl rfl
    overlooks_blank queue rfl
  exact ⟨⟨cause, _, events, ran, failed, delivered, tail⟩, overlooks_blank, singleQueue_distinct,
    ⟨s, stints, row, tickets _ (Outcome.returned?_eq_some.1 returned)⟩, by decide +kernel⟩

/-- If none are to be shown of three lines, all of them are, and the last of them is on the queue. -/
theorem unshown_lines_quoted :
    reported? (linesRun 200 0).1 = some ("engine failed", ["frame=1", "frame=2", "frame=3"]) ∧
    (linesRun 200 0).2.runner.state = .error ∧
    ["frame=1", "frame=2", "frame=3"].length ≠ min (min 0 200) 3 ∧
    ((linesBatch 200 0).2.client.queue.ofTicket? 0).map (·.message) =
      some (some "engine failed: frame=3") := by
  refine ⟨?_, ?_, ?_, ?_⟩ <;> decide +kernel

end Batch

end VideoExport
