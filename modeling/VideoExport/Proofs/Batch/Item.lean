import VideoExport.Batch
import VideoExport.Proofs.Job.Report
import VideoExport.Proofs.Progress
import VideoExport.Proofs.Queue
import VideoExport.Proofs.Settings

/-!
# The export of an item

What becomes of one item of a batch. While its job runs, the item shows the history of the job's
tracker (`Underway`), which nothing else in the run changes; so it ends in one of two ways (`Ended`):
it is done and shows all of its progress, or it has failed, with a message, and shows the progress that
was made. `Attends`, `Apart` and `Tells` say what is asked of the listener, of the probe, and of what
the listener's state tells about the items that it was told.
-/

set_option autoImplicit false

namespace VideoExport

variable {σ κ : Type}

theorem Failure.summary_ne_empty (cause : Failure) (logTail : List String) :
    summary cause logTail ≠ "" := by
  have told : (if cause.message.isEmpty then "Falha no processamento" else cause.message) ≠ "" := by
    split
    · decide
    · rename_i h
      rintro he
      rw [he] at h
      exact h rfl
  unfold summary
  dsimp only
  split
  · intro h
    have := congrArg String.toList h
    simp [toString, String.toList_append] at this
  · exact told

/-- What an action of the caller does is done to the host and the client. -/
theorem Job.caller_run {α : Type} {x : Action (Caller κ) α} {j : Job σ κ} {o : Outcome α}
    {c : Caller κ} (h : x.run ⟨j.host, j.client⟩ = (o, c)) :
    (liftM x : Action (Job σ κ) α).run j = (o, { j with host := c.host, client := c.client }) := by
  show (Action.zoom _ _ x).run j = _
  rw [Action.run_zoom, h]

namespace Batch

variable {listener : Option (ItemListener κ)} {item x : QueueItem} {q : Queue}
  {R : List QueueItem → κ → Prop}

/-! ## Who takes part in a batch -/

/-- What is told of an item, if anyone listens. -/
def tellOf (listener : Option (ItemListener κ)) (item : QueueItem) : Action (Caller (Desk κ)) Unit :=
  match listener with
  | some tell => tell item
  | none => pure ()

/-- The listener returns and leaves the queue alone. -/
def Attends (listener : Option (ItemListener κ)) : Prop :=
  ∀ item c, ((tellOf listener item).run c).1 = .returned () ∧
    ((tellOf listener item).run c).2.client.queue = c.client.queue

/-- The probe ends and leaves the desk alone. -/
structure Apart (probe : DurationProbe (Desk κ)) : Prop where
  responds : ∀ path, (probe path).Responds
  still : ∀ path, (probe path).Follows (.same Caller.client)

/-- `R` relates the items that were told so far to the state of the client. -/
def Tells (listener : Option (ItemListener κ)) (R : List QueueItem → κ → Prop) : Prop :=
  ∀ item told (c : Caller (Desk κ)), R told c.client.client →
    R (told ++ [item]) ((tellOf listener item).run c).2.client.client

/-- To notify is to tell of the item as it stands on the queue. -/
theorem notify_run {ticket : Nat} {c : Caller (Desk κ)}
    (h : c.client.queue.ofTicket? ticket = some x) :
    (notify listener ticket).run c = (tellOf listener x).run c := by
  unfold notify
  rw [Action.run_bind, Action.run_read]
  dsimp only
  rw [h]
  cases listener <;> rfl

/-- The item of a ticket is told, which stands on the queue as `x`. -/
theorem notify_told (attends : Attends listener) (tells : Tells listener R) {c : Caller (Desk κ)}
    (slot : Queue.Slot q item x) (hc : c.client.queue = q.replace x) {told : List QueueItem}
    (hr : R told c.client.client) : ∃ c', (notify listener item.ticket).run c = (.returned (), c') ∧
      c'.client.queue = q.replace x ∧ R (told ++ [x]) c'.client.client := by
  have found : c.client.queue.ofTicket? item.ticket = some x := by
    rw [hc]
    exact slot.ofTicket?_replace
  obtain ⟨returned, queue⟩ := attends x c
  exact ⟨_, (notify_run found).trans (Prod.ext returned rfl), queue.trans hc, tells _ _ _ hr⟩

/-! ## What an item shows -/

/-- The item when its export starts: nothing is left of an earlier one. -/
def cleared (item : QueueItem) : QueueItem :=
  { item with
    status := .processing, progress := .real (.zero false), output := none, message := none,
    history := [] }

/-- The item, being processed, with a history. -/
def shown (item : QueueItem) (history : List Binary64) : QueueItem :=
  { cleared item with
    progress := .real (history.getLast?.getD (.zero false)), history := history.map .real }

theorem advance_shown (history : List Binary64) (value : Binary64) :
    (shown item history).advance (.real value) = shown item (history ++ [value]) := by
  simp [shown, QueueItem.advance]

theorem slot_shown (distinct : q.Distinct) (mem : item ∈ q.items) (history : List Binary64) :
    Queue.Slot q item (shown item history) := ⟨distinct, mem, rfl, rfl⟩

/-- Items that were told, all of a ticket. -/
def OfTicket (ticket : Nat) (told : List QueueItem) : Prop := ∀ y ∈ told, y.ticket = ticket

theorem OfTicket.snoc {ticket : Nat} {told : List QueueItem} (h : OfTicket ticket told)
    (hx : x.ticket = ticket) : OfTicket ticket (told ++ [x]) := by
  intro y hy
  rcases List.mem_append.1 hy with hy | hy
  · exact h y hy
  · rw [List.mem_singleton.1 hy, hx]

/-- The item shows a history in the place that it has in the queue `q`, and besides what was told
before, only of this item was told. -/
structure Shows (c : Config) (q : Queue) (item : QueueItem) (R : List QueueItem → κ → Prop)
    (told : List QueueItem) (history : List Binary64) (j : State σ κ) : Prop where
  config : j.runner.config = c
  queue : j.client.queue = q.replace (shown item history)
  told : ∃ more, R (told ++ more) j.client.client ∧ OfTicket item.ticket more

/-- While the job of an item runs, the item shows the history of the tracker. -/
structure Underway (c : Config) (q : Queue) (item : QueueItem) (R : List QueueItem → κ → Prop)
    (told : List QueueItem) (j : State σ κ) : Prop where
  shows : Shows c q item R told j.tracker.history j
  sound : j.tracker.Sound

variable {c : Config} {told : List QueueItem}

theorem steady_shows (history : List Binary64) :
    Job.Steady c (Shows (σ := σ) c q item R told history) where
  config h := h.config
  storage _ h := ⟨h.config, h.queue, h.told⟩
  runner _ _ _ h := ⟨h.config, h.queue, h.told⟩
  log _ h := ⟨h.config, h.queue, h.told⟩

theorem steady_underway : Job.Steady c (Underway (σ := σ) c q item R told) where
  config h := h.shows.config
  storage s h := ⟨(steady_shows _).storage s h.shows, h.sound⟩
  runner state trusted fonts h := ⟨(steady_shows _).runner state trusted fonts h.shows, h.sound⟩
  log log h := ⟨(steady_shows _).log log h.shows, h.sound⟩

section
variable {e : Engine σ} {probe : DurationProbe (Desk κ)} {r : JobRequest} {s : Settings}
  {i j k : State σ κ}

/-- Progress that is told is shown by the item. -/
theorem Shows.tell (attends : Attends listener) (tells : Tells listener R) (distinct : q.Distinct)
    (mem : item ∈ q.items) {history : List Binary64} (h : Shows c q item R told history j)
    (value : Binary64) : ∃ k, (Job.tellProgress (some (onProgress listener item)) value :
        Action (State σ κ) Unit).run j = (.returned (), k) ∧
      Shows c q item R told (history ++ [value]) k ∧ k.tracker = j.tracker := by
  obtain ⟨more, hr, hmore⟩ := h.told
  let updated : Queue := j.client.queue.updateTicket item.ticket (·.advance (.real value))
  have shows : updated = q.replace (shown item (history ++ [value])) := by
    have := (slot_shown distinct mem history).updateTicket_replace (f := (·.advance (.real value))) rfl
    rw [← h.queue] at this
    rw [← advance_shown]
    exact this
  let d : Caller (Desk κ) := ⟨j.host, { j.client with queue := updated }⟩
  obtain ⟨d', hd', queue, hr'⟩ := notify_told (c := d) attends tells
    (slot_shown distinct mem (history ++ [value])) shows hr
  have ran : (onProgress listener item value).run ⟨j.host, j.client⟩ = (.returned (), d') := hd'
  have ofTicket := hmore.snoc (x := shown item (history ++ [value])) rfl
  refine ⟨_, Job.caller_run ran, ⟨h.config, queue, _, ?_, ofTicket⟩, rfl⟩
  rwa [← List.append_assoc]

/-- Handling progress keeps the item and the tracker together. -/
theorem ends_handle_progress (attends : Attends listener) (tells : Tells listener R)
    (distinct : q.Distinct) (mem : item ∈ q.items) (id : String) (report : ProgressReport) :
    (Job.handle id (some (onProgress listener item)) (.progress report) :
      Action (State σ κ) Deadline.Demand).Ends (Underway c q item R told) := by
  intro j hj
  unfold Job.handle
  rw [Action.run_bind_of_returned (Action.run_read j _)]
  cases hu : j.tracker.update report.number? with
  | error f => exact ⟨nofun, hj⟩
  | ok u =>
    obtain ⟨sound, history⟩ := hj.sound.update hu
    rw [Action.run_bind_of_returned (Action.run_ofNumeric_ok j u),
      Action.run_bind_of_returned (Action.run_modify j _)]
    have before : Shows c q item R told j.tracker.history { j with tracker := u } :=
      ⟨hj.shows.config, hj.shows.queue, hj.shows.told⟩
    obtain ⟨k, ran, shows, tracker⟩ := before.tell attends tells distinct mem u.value
    rw [Action.run_bind_of_returned ran]
    rw [← history] at shows
    exact ⟨nofun, tracker ▸ shows, tracker ▸ sound⟩

/-! ## The job of an item -/

/-- What is asked of the configuration so that a job begins: a list can have the length that the log is
to keep. -/
def FitsLog (c : Config) : Prop := ∀ n, c.logBuffer = some n → 0 ≤ n ∧ n ≤ Job.lengthLimit

theorem not_refused (fits : FitsLog c)
    (hs : Settings.sanitize r.settings r.attachments.image.isSome = .ok s) {f : Failure} :
    ¬ Job.Refused r c f := by
  rintro (⟨why⟩ | ⟨-, limit, why⟩)
  · exact nomatch hs.symm.trans why
  · exact nomatch (Job.checkLength_ok_iff.2 (fits _ limit)).symm.trans why

theorem fitsLog_of_begins (begins : Job.Begins r s j i) : FitsLog j.runner.config := by
  intro n limit
  have checked := begins.limit
  rw [limit, Option.mapM_some] at checked
  refine Job.checkLength_ok_iff.1 ?_
  cases h : Job.checkLength n with
  | error f =>
    rw [h] at checked
    cases checked
  | ok _ => rfl

/-- A job whose work is done has all of its progress shown. -/
theorem complete_shows (attends : Attends listener) (tells : Tells listener R)
    (distinct : q.Distinct) (mem : item ∈ q.items) {history : List Binary64}
    (hj : Shows c q item R told history j) (content : ByteArray) :
    ∃ result k, (Job.complete r content (some (onProgress listener item))).run j =
        (.returned result, k) ∧ result.output = r.output ∧
      Shows c q item R told (history ++ [.one]) k := by
  obtain ⟨-, entered⟩ := Job.ends_enter (steady_shows history) r.id .done j hj
  rcases hi : (Job.enter r.id .done : Action (State σ κ) Unit).run j with ⟨o, i⟩
  obtain ⟨rfl, -⟩ := Job.enter_state hi
  rw [hi] at entered
  obtain ⟨k, ran, shows, -⟩ := entered.tell attends tells distinct mem .one
  obtain ⟨-, noted⟩ := Job.ends_note (steady_shows _) .info
    s!"Job {r.id} concluído: {r.output} ({content.size} bytes)" k shows
  unfold Job.complete
  rw [Action.run_bind_of_returned hi, Action.run_bind_of_returned ran]
  exact ⟨_, _, rfl, rfl, noted⟩

/-- The job of an item ends in one of two ways, and the item shows what its listener was told: all of
the progress, if the job is done. -/
theorem run_shows (attends : Attends listener) (tells : Tells listener R) (apart : Apart probe)
    (he : e.Responsive c) (fits : FitsLog c)
    (hs : Settings.sanitize r.settings r.attachments.image.isSome = .ok s)
    (distinct : q.Distinct) (mem : item ∈ q.items) (hj : Shows c q item R told [] j) :
    ∃ o k t, (Job.run e probe r (some (onProgress listener item))).run j = (o, k) ∧
      Progress.Tracker.Sound t ∧ Shows c q item R told t.history k ∧
      ((∃ result, o = .returned result ∧ result.output = r.output ∧
          t.history.getLast? = some .one) ∨ ∃ cause tail, o = .raised (.exportFailed cause tail)) := by
  obtain ⟨f, why, -⟩ | ⟨s', i, begins⟩ := Job.refused_or_begins e probe r
    (some (onProgress listener item)) j
  · exact (not_refused fits hs (hj.config ▸ why)).elim
  have underway : Underway c q item R told i := by
    have begun := begins.begun
    cases begun
    exact ⟨⟨hj.config, hj.queue, hj.told⟩, Progress.Tracker.sound_new⟩
  have probed : (liftM (probe r.source.path) : Action (State σ κ) (Option Number)).Ends
      (Underway c q item R told) := by
    intro i hi
    have still := apart.still r.source.path ⟨i.host, i.client⟩
    obtain ⟨more, hr, hmore⟩ := hi.shows.told
    exact ⟨apart.responds _ _, ⟨hi.shows.config, (congrArg Desk.queue still).trans hi.shows.queue,
      more, (congrArg Desk.client still).symm ▸ hr, hmore⟩, hi.sound⟩
  have handled (ev : EngineEvent) : (Job.handle r.id (some (onProgress listener item)) ev :
      Action (State σ κ) Deadline.Demand).Ends (Underway c q item R told) :=
    Job.ends_handle steady_underway (ends_handle_progress attends tells distinct mem r.id) ev
  obtain ⟨ends, after⟩ :=
    Job.ends_perform (s := s') (r := r) steady_underway he probed handled i underway
  rw [Job.run_of_begins begins]
  rcases hp : (Job.perform e probe r s' (some (onProgress listener item))).run i with
    ⟨content | cause | _, t⟩ <;> rw [hp] at ends after
  · obtain ⟨result, k, ran, output, shows⟩ :=
      complete_shows (r := r) attends tells distinct mem after.shows content
    rw [Action.run_bind_of_returned (Action.attempt_ok.2 hp)]
    exact ⟨_, k, _, ran, after.sound.extend Binary64.isFraction_one after.sound.fraction.atMost_one,
      shows, .inl ⟨result, rfl, output, List.getLast?_concat⟩⟩
  · rw [Action.run_bind_of_returned (Action.attempt_error.2 hp)]
    obtain ⟨-, failed⟩ := Job.ends_fail (α := JobResult) steady_underway r.id cause t after
    rcases hf : (Job.fail r.id cause : Action (State σ κ) JobResult).run t with ⟨o, k⟩
    rw [hf] at failed
    obtain ⟨tail, rfl⟩ := (Job.fail_reports hf).1
    exact ⟨_, k, k.tracker, hf, failed.sound, failed.shows, .inr ⟨cause, tail, rfl⟩⟩
  · exact absurd rfl ends

/-! ## What becomes of an item -/

/-- What becomes of an item that is exported into a directory: it is done, or it has failed. -/
structure Ended (directory : Path) (item x : QueueItem) : Prop where
  ticket : x.ticket = item.ticket
  id : x.id = item.id
  source : x.source = item.source
  ascends : Progress.Ascends x.history
  outcome :
    (x.status = .done ∧ x.output = some (directory.child item.outputName) ∧ x.message = none ∧
        x.progress = .real .one ∧ x.history.getLast? = some (.real .one)) ∨
      (x.status = .error ∧ x.output = none ∧ (∃ m, x.message = some m ∧ m ≠ "") ∧
        x.progress = x.history.getLast?.getD (.real (.zero false)))

/-- Only the host and the client changed. -/
def Aside (j k : State σ κ) : Prop := k = { j with host := k.host, client := k.client }

/-- The export of an item that became `x`: its job ran once, with the item cleared, and `news` was told,
all of it of this item, which was first told as it started and last as it ended. -/
structure Episode (e : Engine σ) (probe : DurationProbe (Desk κ)) (directory : Path) (s : Settings)
    (attachments : Attachments) (listener : Option (ItemListener κ)) (item x : QueueItem)
    (news : List QueueItem) (j k : State σ κ) : Prop where
  ended : Ended directory item x
  told : ∃ more, news = cleared item :: more ++ [x] ∧ OfTicket item.ticket more
  ran : ∃ a o b, Aside j a ∧ a.client.queue.ofTicket? item.ticket = some (cleared item) ∧
    (Job.run e probe (requestFor directory s attachments item) (some (onProgress listener item))).run a
      = (o, b) ∧ (x.status = .done ↔ ∃ result, o = .returned result) ∧ Aside b k

theorem ended_done {directory : Path} {t : Progress.Tracker} (sound : t.Sound)
    (last : t.history.getLast? = some .one) :
    Ended directory item
      ((shown item t.history).apply (succeeded (directory.child item.outputName))) where
  ticket := rfl
  id := rfl
  source := rfl
  ascends := sound.ascends_map
  outcome := .inl ⟨rfl, rfl, rfl, rfl, by
    show (t.history.map Number.real).getLast? = _
    rw [List.getLast?_map, last]
    rfl⟩

theorem ended_error {directory : Path} {t : Progress.Tracker} (sound : t.Sound) (cause : Failure)
    (tail : List String) :
    Ended directory item ((shown item t.history).apply (failed cause tail)) where
  ticket := rfl
  id := rfl
  source := rfl
  ascends := sound.ascends_map
  outcome := .inr ⟨rfl, rfl, ⟨_, rfl, Failure.summary_ne_empty cause tail⟩, by
    show Number.real (t.history.getLast?.getD _) = (t.history.map Number.real).getLast?.getD _
    rw [List.getLast?_map]
    cases t.history.getLast? <;> rfl⟩

variable (told) in
/-- The item is announced: it is cleared on the queue, and told as such. -/
theorem announce_run (attends : Attends listener) (tells : Tells listener R) {c : Caller (Desk κ)}
    (distinct : c.client.queue.Distinct) (mem : item ∈ c.client.queue.items)
    (hr : R told c.client.client) : ∃ c', (announce listener item).run c = (.returned (), c') ∧
      c'.client.queue = c.client.queue.replace (cleared item) ∧
      R (told ++ [cleared item]) c'.client.client := by
  let d : Caller (Desk κ) :=
    { c with client := { c.client with queue := c.client.queue.update item.id started } }
  exact notify_told (c := d) attends tells (slot_shown distinct mem [])
    (distinct.update_eq mem started) hr

/-- What became of the item is kept on the queue, and told. -/
theorem settle_run (attends : Attends listener) (tells : Tells listener R) {change : ItemChange}
    (keeps : change.id = none) {o : Except Failure JobResult}
    (ho : (settle item o : Action (Caller (Desk κ)) Unit) = updateQueue (·.update item.id change))
    (slot : Queue.Slot q item x) {d : Caller (Desk κ)} (queue : d.client.queue = q.replace x)
    (hr : R told d.client.client) : ∃ d₁ d₂, (settle item o).run d = (.returned (), d₁) ∧
      (notify listener item.ticket).run d₁ = (.returned (), d₂) ∧
      d₂.client.queue = q.replace (x.apply change) ∧
      R (told ++ [x.apply change]) d₂.client.client := by
  let d₁ : Caller (Desk κ) :=
    { d with client := { d.client with queue := d.client.queue.update item.id change } }
  have kept : d₁.client.queue = q.replace (x.apply change) := by
    show d.client.queue.update item.id change = _
    rw [queue, slot.update_replace]
  obtain ⟨d₂, ran, after⟩ := notify_told (c := d₁) attends tells (slot.apply keeps) kept hr
  rw [ho]
  exact ⟨d₁, d₂, rfl, ran, after⟩

variable {directory : Path} {attachments : Attachments}

variable (s directory attachments) in
/-- An item is exported: it becomes done, or it has failed, in its place on the queue. -/
theorem renderItem_run (he : e.Responsive c) (apart : Apart probe) (attends : Attends listener)
    (tells : Tells listener R) (fits : FitsLog c) (config : j.runner.config = c)
    (distinct : j.client.queue.Distinct) (mem : item ∈ j.client.queue.items)
    (hr : R told j.client.client) : ∃ x news k,
      (renderItem e probe directory s attachments listener item).run j = (.returned (), k) ∧
      Episode e probe directory s attachments listener item x news j k ∧
      k.runner.config = c ∧ k.client.queue = j.client.queue.replace x ∧
      R (told ++ news) k.client.client := by
  obtain ⟨a, announced, queue, hra⟩ :=
    announce_run told (c := ⟨j.host, j.client⟩) attends tells distinct mem hr
  have starts : Shows c j.client.queue item R (told ++ [cleared item]) []
      { j with host := a.host, client := a.client } :=
    ⟨config, queue, [], (List.append_nil _).symm ▸ hra, fun _ h => absurd h List.not_mem_nil⟩
  obtain ⟨s', hs⟩ := Settings.sanitize_record s attachments.image.isSome
  obtain ⟨o, b, t, ran, sound, shows, outcome⟩ := run_shows
    (r := requestFor directory s attachments item) attends tells apart he fits hs distinct mem starts
  obtain ⟨more, hrb, hmore⟩ := shows.told
  have before : Aside j { j with host := a.host, client := a.client } := rfl
  have first : a.client.queue.ofTicket? item.ticket = some (cleared item) := by
    rw [queue]
    exact (slot_shown distinct mem []).ofTicket?_replace
  -- whatever change the outcome makes of the item, it is kept and told
  have settled {o' : Except Failure JobResult} (change : ItemChange) (keeps : change.id = none)
      (ho : (Job.run e probe (requestFor directory s attachments item)
        (some (onProgress listener item))).attempt.run
          { j with host := a.host, client := a.client } = (.returned o', b))
      (ho' : (settle item o' : Action (Caller (Desk κ)) Unit) = updateQueue (·.update item.id change)) :
      ∃ k, (renderItem e probe directory s attachments listener item).run j = (.returned (), k) ∧
        Aside b k ∧ k.runner.config = c ∧
        k.client.queue = j.client.queue.replace ((shown item t.history).apply change) ∧
        R (told ++ [cleared item] ++ more ++ [(shown item t.history).apply change])
          k.client.client := by
    obtain ⟨d₁, d₂, kept, notified, queue', hr'⟩ := settle_run (d := ⟨b.host, b.client⟩) attends tells
      keeps ho' (slot_shown distinct mem t.history) shows.queue hrb
    refine ⟨{ b with host := d₂.host, client := d₂.client }, ?_, rfl, shows.config, queue', hr'⟩
    unfold renderItem
    rw [Action.run_bind_of_returned (Job.caller_run announced), Action.run_bind_of_returned ho,
      Action.run_bind_of_returned (Job.caller_run kept)]
    exact Job.caller_run notified
  have collected (x : QueueItem) : told ++ [cleared item] ++ more ++ [x] =
      told ++ (cleared item :: more ++ [x]) := by simp
  obtain ⟨result, rfl, output, last⟩ | ⟨cause, tail, rfl⟩ := outcome
  · obtain ⟨k, renders, aside, config', queue', hr'⟩ := settled (succeeded result.output) rfl
      (Action.attempt_ok.2 ran) rfl
    rw [output] at queue' hr'
    refine ⟨_, _, k, renders, ⟨ended_done sound last, ⟨more, rfl, hmore⟩,
      _, _, _, before, first, ran, ⟨fun _ => ⟨result, rfl⟩, fun _ => rfl⟩, aside⟩, config', queue', ?_⟩
    rwa [← collected]
  · obtain ⟨k, renders, aside, config', queue', hr'⟩ := settled (failed cause tail) rfl
      (Action.attempt_error.2 ran) rfl
    refine ⟨_, _, k, renders, ⟨ended_error sound cause tail, ⟨more, rfl, hmore⟩,
      _, _, _, before, first, ran, ⟨nofun, nofun⟩, aside⟩, config', queue', ?_⟩
    rwa [← collected]

/-- Any failure but one of the export is raised. -/
theorem settle_plain {f : Failure} (plain : ∀ cause tail, f ≠ .exportFailed cause tail) :
    (settle item (.error f) : Action (Caller (Desk κ)) Unit) = .raise f := by
  unfold settle
  split
  · contradiction
  · rename_i h
    cases h
    exact absurd rfl (plain _ _)
  · rename_i h
    cases h
    rfl

variable (e probe s directory attachments) in
/-- If no list can have the length that the log is to keep, the export of an item fails, and the item is
left as it was announced. -/
theorem renderItem_unfit (attends : Attends listener) (unfit : ¬ FitsLog j.runner.config)
    (distinct : j.client.queue.Distinct) (mem : item ∈ j.client.queue.items) : ∃ f k,
      (renderItem e probe directory s attachments listener item).run j = (.raised f, k) ∧
      k.client.queue = j.client.queue.replace (cleared item) := by
  obtain ⟨a, announced, queue, -⟩ := announce_run [] (R := fun _ _ => True)
    (c := ⟨j.host, j.client⟩) attends (fun _ _ _ h => h) distinct mem trivial
  unfold renderItem
  rw [Action.run_bind_of_returned (Job.caller_run announced)]
  obtain ⟨f, why, ran⟩ | ⟨s', i, begins⟩ := Job.refused_or_begins e probe
    (requestFor directory s attachments item) (some (onProgress listener item))
    ({ j with host := a.host, client := a.client } : State σ κ)
  · refine ⟨f, { j with host := a.host, client := a.client }, ?_, queue⟩
    rw [Action.run_bind_of_returned (Action.attempt_error.2 ran), settle_plain fun _ _ => why.plain]
    rfl
  · exact absurd (fitsLog_of_begins begins) unfit

end

end Batch

end VideoExport
