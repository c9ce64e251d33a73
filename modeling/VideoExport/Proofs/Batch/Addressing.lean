import VideoExport.Proofs.Batch.Lifecycle
import VideoExport.Proofs.Batch.Names
import VideoExport.Proofs.Job.Client
import VideoExport.Proofs.Queue.Identifiers

/-!
# Items addressed by a batch

A batch addresses the items of its queue by their identifiers. Where these tell the items apart, what it makes
of an item's job is kept on this item, and on no other, however the batch ends (`render_keeps`). Identifiers
tell the items apart exactly if the random ones do of which they are the beginnings (`ids_address_items`).
-/

set_option autoImplicit false

namespace VideoExport.Batch

variable {σ κ : Type} {e : Engine σ} {probe : DurationProbe (Desk κ)}
  {listener : Option (ItemListener κ)} {directory : Path} {settings : Raw} {attachments : Attachments}
  {item x : QueueItem} {q : Queue} {s : Settings} {j k : State σ κ}

/-! ## Who leaves the queue alone -/

/-- The queue of a desk stays as it is. -/
def queueKept : Evolution (Caller (Desk κ)) := .same fun c => c.client.queue

/-- Neither the probe nor the listener changes the queue. -/
structure LeavesQueue (probe : DurationProbe (Desk κ)) (listener : Option (ItemListener κ)) : Prop where
  probe : ∀ path, (probe path).Follows queueKept
  listener : ∀ tell, listener = some tell → ∀ item, (tell item).Follows queueKept

theorem notify_kept (leaves : LeavesQueue probe listener) (ticket : Nat) :
    (notify listener ticket).Follows queueKept := by
  refine .bind (.read _) fun q => ?_
  split
  · exact leaves.listener _ rfl _
  · exact .pure _

/-! ## One item -/

/-- An item on which what became of its job is kept. -/
def keep (x : QueueItem) : Except Failure JobResult → QueueItem
  | .ok result => x.apply (succeeded result.output)
  | .error (.exportFailed cause tail) => x.apply (failed cause tail)
  | .error _ => x

theorem keep_label (x : QueueItem) (result : Except Failure JobResult) :
    (keep x result).ticket = x.ticket ∧ (keep x result).id = x.id := by
  cases result with
  | ok result => exact ⟨rfl, rfl⟩
  | error f => cases f <;> exact ⟨rfl, rfl⟩

/-- An item that is being processed, with the progress that it shows. -/
def showing (item : QueueItem) (progress : Number) (history : List Number) : QueueItem :=
  { cleared item with progress, history }

/-- What an item is when its job has ended so. -/
def resultOf (shown : QueueItem) : Outcome JobResult → QueueItem
  | .returned result => keep shown (.ok result)
  | .raised f => keep shown (.error f)
  | .stalled => shown

/-- What a batch makes of an item: it announces the item, and if nothing fails there, it keeps on it what
became of its own job. -/
inductive Turned (e : Engine σ) (probe : DurationProbe (Desk κ)) (directory : Path) (settings : Raw)
    (attachments : Attachments) (listener : Option (ItemListener κ)) (item : QueueItem) :
    QueueItem → Prop
  | announced {c c' : Caller (Desk κ)} {o : Outcome Unit}
      (ran : (announce listener item).run c = (o, c')) (failed : o ≠ .returned ()) :
      Turned e probe directory settings attachments listener item (cleared item)
  | exported {s : Settings} {a t : State σ κ} {p : Outcome JobResult} (progress : Number)
      (history : List Number)
      (settled : Settings.sanitize settings attachments.image.isSome = .ok s)
      (ran : (Job.run e probe (requestFor directory s attachments item)
        (some (onProgress listener item))).run a = (p, t)) :
      Turned e probe directory settings attachments listener item
        (resultOf (showing item progress history) p)

theorem Turned.label (h : Turned e probe directory settings attachments listener item x) :
    x.ticket = item.ticket ∧ x.id = item.id := by
  cases h with
  | announced => exact ⟨rfl, rfl⟩
  | @exported _ _ _ p _ _ _ _ =>
    cases p with
    | returned result => exact keep_label _ _
    | raised f => exact keep_label _ _
    | stalled => exact ⟨rfl, rfl⟩

theorem slot_showing (distinct : q.Distinct) (mem : item ∈ q.items) (progress : Number)
    (history : List Number) : Queue.Slot q item (showing item progress history) :=
  ⟨distinct, mem, rfl, rfl⟩

/-- The item shows more progress in its place, and nothing else changes. -/
def progressing (q : Queue) (item : QueueItem) : Evolution (Desk κ) where
  Holds d d' := ∀ x, Queue.Slot q item x → d.queue = q.replace x →
    ∃ progress history, d'.queue = q.replace { x with progress, history }
  refl _ x _ h := ⟨x.progress, x.history, h⟩
  trans h₁ h₂ x slot h := by
    obtain ⟨progress, history, h⟩ := h₁ x slot h
    exact h₂ { x with progress, history } ⟨slot.distinct, slot.mem, slot.ticket, slot.id⟩ h

theorem progressing_of_kept {d d' : Desk κ} (h : d'.queue = d.queue) : progressing q item d d' :=
  fun x _ hd => ⟨x.progress, x.history, h.trans hd⟩

theorem onProgress_progressing (leaves : LeavesQueue probe listener) (value : Binary64) :
    (onProgress listener item value).Follows ((progressing q item).on Caller.client) := by
  refine .bind (.modify fun c x slot hd => ?_) fun _ =>
    (notify_kept leaves item.ticket).mono fun _ _ h => progressing_of_kept h
  refine ⟨.real value, x.history ++ [.real value], ?_⟩
  show c.client.queue.updateTicket item.ticket (·.advance (.real value)) = _
  rw [show c.client.queue = q.replace x from hd, slot.updateTicket_replace rfl]
  rfl

/-- What an action of the caller does to the queue. -/
theorem caller_kept {α : Type} {x : Action (Caller (Desk κ)) α} (h : x.Follows queueKept) {o : Outcome α}
    (ran : (liftM x : Action (State σ κ) α).run j = (o, k)) : k.client.queue = j.client.queue := by
  obtain ⟨t, ht, rfl⟩ := Action.zoom_eq ran
  exact h.of_run ht

theorem announce_kept (leaves : LeavesQueue probe listener) (distinct : j.client.queue.Distinct)
    (mem : item ∈ j.client.queue.items) {o : Outcome Unit}
    (ran : (liftM (announce listener item) : Action (State σ κ) Unit).run j = (o, k)) :
    k.client.queue = j.client.queue.replace (cleared item) := by
  obtain ⟨t, ht, rfl⟩ := Action.zoom_eq ran
  have told : (notify listener item.ticket).run
      ⟨j.host, { j.client with queue := j.client.queue.update item.id started }⟩ = (o, t) := ht
  have kept : t.client.queue = j.client.queue.update item.id started :=
    (notify_kept leaves _).of_run told
  show t.client.queue = _
  rw [kept, distinct.update_eq mem]
  rfl

/-- What became of an item's job is kept in the place of the item. -/
theorem settle_keeps (slot : Queue.Slot q item x) (hj : j.client.queue = q.replace x)
    {result : Except Failure JobResult} {o : Outcome Unit}
    (ran : (liftM (settle (κ := κ) item result) : Action (State σ κ) Unit).run j = (o, k)) :
    k.client.queue = q.replace (keep x result) := by
  obtain ⟨t, ht, rfl⟩ := Action.zoom_eq ran
  have changed (change : ItemChange) :
      j.client.queue.update item.id change = q.replace (x.apply change) := by
    rw [hj, slot.update_replace]
  cases result with
  | ok result =>
    cases ht
    exact changed _
  | error f =>
    cases f <;> cases ht <;> first | exact changed _ | exact hj

theorem conclude_keeps (leaves : LeavesQueue probe listener) (slot : Queue.Slot q item x)
    (hj : j.client.queue = q.replace x) {result : Except Failure JobResult} {o : Outcome Unit}
    (ran : (liftM (settle (κ := κ) item result) >>= fun _ =>
      (liftM (notify listener item.ticket) : Action (State σ κ) Unit)).run j = (o, k)) :
    k.client.queue = q.replace (keep x result) := by
  rcases Action.bind_eq ran with ⟨_, t, ht, ran⟩ | ⟨f, ht, -⟩ | ⟨ht, -⟩
  · exact (caller_kept (notify_kept leaves _) ran).trans (settle_keeps slot hj ht)
  · exact settle_keeps slot hj ht
  · exact settle_keeps slot hj ht

/-- However its export ends: the item is replaced by what became of it, and nothing else changes. -/
theorem renderItem_keeps (leaves : LeavesQueue probe listener)
    (settled : Settings.sanitize settings attachments.image.isSome = .ok s)
    (distinct : j.client.queue.Distinct) (mem : item ∈ j.client.queue.items) {o : Outcome Unit}
    (ran : (renderItem e probe directory s attachments listener item).run j = (o, k)) :
    ∃ x, Turned e probe directory settings attachments listener item x ∧
      k.client.queue = j.client.queue.replace x := by
  have announced {p : Outcome Unit} {a : State σ κ}
      (ha : (liftM (announce listener item) : Action (State σ κ) Unit).run j = (p, a)) :
      a.client.queue = j.client.queue.replace (cleared item) := announce_kept leaves distinct mem ha
  have told : ∀ tell, some (onProgress listener item) = some tell → ∀ value,
      (tell value).Follows ((progressing j.client.queue item).on Caller.client) := by
    rintro _ ⟨⟩ value
    exact onProgress_progressing leaves value
  rcases Action.bind_eq ran with ⟨_, a, ha, ran⟩ | ⟨f, ha, rfl⟩ | ⟨ha, rfl⟩
  · have exported {p : Outcome JobResult} {t : State σ κ}
        (ht : (Job.run e probe (requestFor directory s attachments item)
          (some (onProgress listener item))).run a = (p, t)) :
        ∃ progress history, t.client.queue = j.client.queue.replace (showing item progress history) ∧
          Turned e probe directory settings attachments listener item
            (resultOf (showing item progress history) p) := by
      have asked (path : Path) : (probe path).Follows
          ((progressing j.client.queue item).on Caller.client) :=
        (leaves.probe path).mono fun _ _ h => progressing_of_kept h
      obtain ⟨progress, history, queue⟩ := (Job.follows_run asked told).of_run ht (cleared item)
        (slot_showing distinct mem _ _) (announced ha)
      exact ⟨progress, history, queue, .exported _ _ settled ht⟩
    rcases Action.attempt_bind_eq ran with ⟨result, t, ht, ran⟩ | ⟨f, t, ht, ran⟩ | ⟨ht, -⟩
    · obtain ⟨progress, history, queue, turned⟩ := exported ht
      exact ⟨_, turned, conclude_keeps leaves (slot_showing distinct mem _ _) queue ran⟩
    · obtain ⟨progress, history, queue, turned⟩ := exported ht
      exact ⟨_, turned, conclude_keeps leaves (slot_showing distinct mem _ _) queue ran⟩
    · obtain ⟨progress, history, queue, turned⟩ := exported ht
      exact ⟨_, turned, queue⟩
  · obtain ⟨t, ht, -⟩ := Action.zoom_eq ha
    exact ⟨_, .announced ht nofun, announced ha⟩
  · obtain ⟨t, ht, -⟩ := Action.zoom_eq ha
    exact ⟨_, .announced ht nofun, announced ha⟩

/-! ## A batch -/

/-- However the exports of items end: each of those that the batch has turned to is replaced by what became
of it, and nothing else changes. -/
theorem renderItems_keeps (leaves : LeavesQueue probe listener)
    (settled : Settings.sanitize settings attachments.image.isSome = .ok s) (total : Nat) :
    ∀ {items : List QueueItem} (position : Nat) {j : State σ κ} {o : Outcome Unit},
      (items.map (·.ticket)).Nodup → j.client.queue.Distinct →
      (∀ item ∈ items, item ∈ j.client.queue.items) →
      (renderItems e probe directory s attachments listener total position items).run j = (o, k) →
      ∃ reached xs, reached <+: items ∧
        List.Forall₂ (Turned e probe directory settings attachments listener) reached xs ∧
        k.client.queue = j.client.queue.replaceAll xs ∧ (o = .returned () → reached = items)
  | [], _, _, _, _, _, _, ran => by
    cases ran
    exact ⟨[], [], List.prefix_refl _, .nil, rfl, fun _ => rfl⟩
  | item :: items, position, j, o, nodup, distinct, mem, ran => by
    obtain ⟨hitem, nodup⟩ := List.nodup_cons.1 nodup
    obtain ⟨_, i, hi, ran⟩ := Action.bind_total ran ⟨_, _, rfl⟩
    have same : i.client.queue = j.client.queue := by
      cases hi
      rfl
    have first {p : Outcome Unit} {t : State σ κ}
        (ht : (renderItem e probe directory s attachments listener item).run i = (p, t)) :
        ∃ x, Turned e probe directory settings attachments listener item x ∧
          t.client.queue = j.client.queue.replace x := by
      rw [← same] at distinct mem ⊢
      exact renderItem_keeps leaves settled distinct (mem item (.head _)) ht
    have only : [item] <+: item :: items := List.prefix_append [item] items
    rcases Action.bind_eq ran with ⟨_, t, ht, ran⟩ | ⟨f, ht, rfl⟩ | ⟨ht, rfl⟩
    · obtain ⟨x, turned, queue⟩ := first ht
      obtain ⟨ticket, id⟩ := turned.label
      have distinct' : t.client.queue.Distinct :=
        queue ▸ distinct.replace (mem item (.head _)) ticket id
      -- the items that are left are not the one that was exported
      have mem' : ∀ y ∈ items, y ∈ t.client.queue.items := by
        intro y hy
        rw [queue]
        refine Queue.mem_replace_of_ne (mem y (.tail _ hy)) fun same => hitem ?_
        exact List.mem_map.2 ⟨y, hy, same.trans ticket⟩
      obtain ⟨reached, xs, pre, all, queue', whole⟩ :=
        renderItems_keeps leaves settled total (position + 1) nodup distinct' mem' ran
      refine ⟨item :: reached, x :: xs, List.cons_prefix_cons.2 ⟨rfl, pre⟩, .cons turned all, ?_,
        fun ho => congrArg (item :: ·) (whole ho)⟩
      rw [queue', queue]
      rfl
    · obtain ⟨x, turned, queue⟩ := first ht
      exact ⟨[item], [x], only, .cons turned .nil, queue, nofun⟩
    · obtain ⟨x, turned, queue⟩ := first ht
      exact ⟨[item], [x], only, .cons turned .nil, queue, nofun⟩

/-- The queue `q` has become `q'`: a batch has turned to items of it that are not done, in order, and has
replaced each of them by what became of it, and nothing else has changed. It has turned to all of them if it
is `whole`. -/
def Kept (e : Engine σ) (probe : DurationProbe (Desk κ)) (directory : Path) (settings : Raw)
    (attachments : Attachments) (listener : Option (ItemListener κ)) (whole : Prop) (q q' : Queue) : Prop :=
  ∃ reached xs, reached <+: q.pending ∧
    List.Forall₂ (Turned e probe directory settings attachments listener) reached xs ∧
    q' = q.replaceAll xs ∧ (whole → reached = q.pending)

theorem kept_none {whole : Prop} (part : ¬ whole) :
    Kept e probe directory settings attachments listener whole q q :=
  ⟨[], [], List.nil_prefix, .nil, rfl, fun h => absurd h part⟩

theorem Kept.mono {whole whole' : Prop} {q q' : Queue}
    (h : Kept e probe directory settings attachments listener whole q q') (back : whole' → whole) :
    Kept e probe directory settings attachments listener whole' q q' := by
  obtain ⟨reached, xs, pre, all, queue, every⟩ := h
  exact ⟨reached, xs, pre, all, queue, fun h => every (back h)⟩

theorem work_keeps (leaves : LeavesQueue probe listener)
    (settled : Settings.sanitize settings attachments.image.isSome = .ok s)
    (distinct : j.client.queue.Distinct) {o : Outcome (List Nat)}
    (ran : (work e probe directory s attachments listener).run j = (o, k)) :
    Kept e probe directory settings attachments listener (∃ tickets, o = .returned tickets)
      j.client.queue k.client.queue := by
  obtain ⟨_, _, ⟨⟩, ran⟩ := Action.bind_total ran ⟨_, _, Action.run_read _ _⟩
  obtain ⟨h, logged⟩ := log_run .info logSource
    s!"Iniciando lote com {j.client.queue.pending.length} itens" j
  obtain ⟨_, _, rfl, ran⟩ : ∃ _ : Unit, ∃ i, i = { j with host := h } ∧ (do
      renderItems e probe directory s attachments listener j.client.queue.pending.length 1
        j.client.queue.pending
      return j.client.queue.pending.map QueueItem.ticket).run i = (o, k) :=
    ⟨(), _, rfl, (Action.run_bind_of_returned logged).symm.trans ran⟩
  have exported {p : Outcome Unit} {t : State σ κ}
      (ht : (renderItems e probe directory s attachments listener j.client.queue.pending.length 1
        j.client.queue.pending).run { j with host := h } = (p, t)) :
      Kept e probe directory settings attachments listener (p = .returned ()) j.client.queue
        t.client.queue :=
    renderItems_keeps leaves settled _ 1 (j := { j with host := h }) distinct.pendingTickets distinct
      (fun _ h => List.mem_of_mem_filter h) ht
  rcases Action.bind_eq ran with ⟨_, t, ht, ran⟩ | ⟨f, ht, rfl⟩ | ⟨ht, rfl⟩
  · cases ran
    exact (exported ht).mono fun _ => rfl
  · exact (exported ht).mono nofun
  · exact (exported ht).mono nofun

/-- However a batch ends: what became of the items that it has turned to is kept on them, and nothing else
changes. It turns to all items that are not done if it returns, unless another batch was running. -/
theorem render_keeps (leaves : LeavesQueue probe listener) (distinct : j.client.queue.Distinct)
    {o : Outcome (List Nat)}
    (ran : (render e probe directory settings attachments listener).run j = (o, k)) :
    Kept e probe directory settings attachments listener
      (j.client.busy = false ∧ ∃ tickets, o = .returned tickets) j.client.queue k.client.queue := by
  by_cases busy : j.client.busy = true
  · obtain ⟨h, refused⟩ := render_busy busy
    cases refused.symm.trans ran
    exact kept_none fun idle => absurd (busy.symm.trans idle.1) (by decide)
  have idle : j.client.busy = false := Bool.eq_false_iff.2 busy
  cases hs : Settings.sanitize settings attachments.image.isSome with
  | error f =>
    cases (render_unsanitized hs idle).symm.trans ran
    exact kept_none fun ended => nomatch ended.2
  | ok s =>
    rw [render_begin hs idle] at ran
    have marks : (liftM (setBusy false : Action (Caller (Desk κ)) Unit) :
        Action (State σ κ) Unit).Follows (.same fun j => j.client.queue) := .modify fun _ => rfl
    have worked {p : Outcome (List Nat)} {t : State σ κ}
        (ht : ((work e probe directory s attachments listener).ensuring
          (liftM (setBusy false : Action (Caller (Desk κ)) Unit))).run (marked true j) = (p, t)) :
        Kept e probe directory settings attachments listener (∃ tickets, p = .returned tickets)
          j.client.queue t.client.queue := by
      obtain ⟨p', u, hu, same, returned⟩ := Action.ensuring_split marks ht
      have kept := work_keeps leaves hs (j := marked true j) distinct hu
      rw [show t.client.queue = u.client.queue from same]
      exact kept.mono fun ⟨tickets, hp⟩ => ⟨tickets, returned tickets hp⟩
    rcases Action.bind_eq ran with ⟨tickets, t, ht, ran⟩ | ⟨f, ht, rfl⟩ | ⟨ht, rfl⟩
    · obtain ⟨h, reported, -⟩ := report_run tickets t
      rw [reported] at ran
      cases ran
      exact (worked ht).mono fun _ => ⟨tickets, rfl⟩
    · exact (worked ht).mono fun ended => nomatch ended.2
    · exact (worked ht).mono fun ended => nomatch ended.2

/-! ## Identifiers of a queue -/

theorem itemId_length (h : Host) (n : Nat) : (h.itemId n).toList.length = itemIdDigits := by
  unfold Host.itemId Host.identifier
  split
  · exact Host.length_of_full _
  · exact Host.length_of_full _

/-- Where identifiers tell the items of a queue apart, so do the names of the files that are made of them. -/
theorem outputNames_nodup {h : Host} {shelf : Queue.Shelf} (numbered : Queue.Numbered h shelf)
    (ids : (shelf.2.items.map (·.id)).Nodup) : (shelf.2.items.map (·.outputName)).Nodup := by
  refine List.Nodup.map_on (fun x hx y hy same => ?_) ids.of_map
  refine List.inj_on_of_nodup_map ids hx hy (QueueItem.outputName_inj ?_ same)
  rw [numbered.id_eq hx, numbered.id_eq hy, itemId_length, itemId_length]

/-- A queue whose items are addressed by their identifiers: what is done by the identifier of an item is done
to this item, and to no other. -/
structure Addressed (q : Queue) : Prop where
  found : ∀ x ∈ q.items, q.get? x.id = some x
  updated : ∀ x ∈ q.items, ∀ change, q.update x.id change = q.replace (x.apply change)
  removed : ∀ x ∈ q.items, (q.remove x.id).items = q.items.filter fun y => y.ticket ≠ x.ticket
  outputs : (q.items.map (·.outputName)).Nodup

/-- Whatever was done to a queue: an item has the beginning of the random identifier that was drawn after as
many others as its ticket tells. Exactly if these beginnings differ, identifiers tell the items apart, and
then everything that is done by the identifier of an item is done to this item alone, and a batch keeps on
each item what became of its own job, however the batch ends. -/
theorem ids_address_items (e : Engine σ) (leaves : LeavesQueue probe listener) (directory : Path)
    (settings : Raw) (attachments : Attachments) (h : Host) (limit : Option Number)
    (operations : List Queue.Operation) {q : Queue}
    (left : (Queue.afterAll operations (h, { maxSize := limit })).2 = q) :
    (q.items.map (·.ticket)).Nodup ∧ (∀ x ∈ q.items, x.id = h.itemId x.ticket) ∧
    ((q.items.map (·.id)).Nodup ↔ ∀ x ∈ q.items, ∀ y ∈ q.items,
      h.itemId x.ticket = h.itemId y.ticket → x.ticket = y.ticket) ∧
    ((q.items.map (·.id)).Nodup ↔ Addressed q) ∧
    ((q.items.map (·.id)).Nodup → ∀ (j k : State σ κ) (o : Outcome (List Nat)), j.client.queue = q →
      (render e probe directory settings attachments listener).run j = (o, k) →
      Kept e probe directory settings attachments listener
        (j.client.busy = false ∧ ∃ tickets, o = .returned tickets) q k.client.queue) := by
  have numbered : Queue.Numbered h (Queue.afterAll operations (h, { maxSize := limit })) :=
    (Queue.numbered_empty h limit).afterAll operations
  subst left
  have tickets := numbered.itemTickets_nodup
  refine ⟨tickets, fun x hx => numbered.id_eq hx, numbered.ids_nodup_iff, ⟨fun ids => ?_,
    fun addressed => (Queue.get?_iff tickets).1 addressed.found⟩, fun ids j k o hj ran => ?_⟩
  · have distinct := numbered.distinct ids
    exact ⟨(Queue.get?_iff tickets).2 ids, fun x hx change => distinct.update_eq hx change,
      fun x hx => distinct.remove_items hx, outputNames_nodup numbered ids⟩
  · rw [← hj]
    exact render_keeps leaves (hj ▸ numbered.distinct ids) ran

/-- The host before two files are added to a queue, with random identifiers laid down. -/
def beforeAdding (identifiers : List String) : Host :=
  let write : Action Host Unit := do
    Host.writeFile "a.mp4" ⟨#[0]⟩
    Host.writeFile "b.mp4" ⟨#[1]⟩
  { (write.run {}).2 with identifiers }

/-- The queue with both files. -/
def twoFiles (identifiers : List String) : Queue :=
  (Queue.afterAll [.add ["a.mp4", "b.mp4"]] (beforeAdding identifiers, {})).2

theorem twoFiles_addressed : Addressed (twoFiles []) ∧
    (twoFiles []).items.map (·.id) = ["00000001", "00000002"] := by
  have leaves : LeavesQueue noLength (some recording) :=
    ⟨fun _ => .pure _, fun tell h item => by cases h; exact .modify fun _ => rfl⟩
  obtain ⟨-, -, -, iff, -⟩ := ids_address_items MemoryEngine.engine leaves (.ofString "out")
    (.record Settings.default.record) {} (beforeAdding []) none [.add ["a.mp4", "b.mp4"]]
    (q := twoFiles []) rfl
  exact ⟨iff.1 (by decide +kernel), by decide +kernel⟩

/-- Two random identifiers that begin alike. -/
def twins : List String := ["0f3a5c7e1b2d4f60818293a4b5c6d7e8", "0f3a5c7e9c8b4a69a847362514f3e2d1"]

/-- Items whose random identifiers differ have the same identifier, if these begin alike: what the identifier
of the second item finds is the first, and to take the second off takes both off. -/
theorem twins_not_addressed :
    (beforeAdding twins).identifier 0 ≠ (beforeAdding twins).identifier 1 ∧
      (twoFiles twins).items.map (·.source.name) = ["a.mp4", "b.mp4"] ∧
      (twoFiles twins).items.map (·.id) = ["0f3a5c7e", "0f3a5c7e"] ∧
      ((twoFiles twins).items.map fun x => ((twoFiles twins).get? x.id).map (·.source.name)) =
        [some "a.mp4", some "a.mp4"] ∧
      ((twoFiles twins).remove "0f3a5c7e").items.length = 0 := by
  refine ⟨?_, ?_, ?_, ?_, ?_⟩ <;> decide +kernel

end VideoExport.Batch
