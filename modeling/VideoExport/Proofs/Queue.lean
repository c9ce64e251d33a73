import Mathlib.Data.List.Forall2
import Mathlib.Data.List.Nodup
import VideoExport.Queue

/-!
# Items of a queue

Where identifiers and tickets are distinct (`Queue.Distinct`), each way to change an item is to put
another one in its place (`Queue.replace`): by its identifier (`update_eq`) and by its ticket
(`updateTicket_eq`).
-/

set_option autoImplicit false

namespace VideoExport

theorem QueueItem.apply_ticket (x : QueueItem) (c : ItemChange) : (x.apply c).ticket = x.ticket := rfl

namespace Queue

variable {q : Queue} {x y : QueueItem} {items : List QueueItem}

/-- Identifiers tell the items apart, and tickets tell all items apart that were ever there. -/
structure Distinct (q : Queue) : Prop where
  ids : (q.items.map (·.id)).Nodup
  tickets : ((q.items ++ q.removed).map (·.ticket)).Nodup

/-- The queue with an item in place of the one of the same ticket. -/
def replace (q : Queue) (x : QueueItem) : Queue :=
  { q with items := q.items.map fun y => if y.ticket = x.ticket then x else y }

theorem map_untouched {f : QueueItem → QueueItem} {ticket : Nat}
    (h : ticket ∉ items.map (·.ticket)) :
    (items.map fun y => if y.ticket = ticket then f y else y) = items := by
  refine (List.map_congr_left fun y hy => if_neg fun ht => h ?_).trans (List.map_id items)
  rw [← ht]
  exact List.mem_map_of_mem hy

/-- To change the first item for which a test holds is to change the item of a ticket, if the test
holds for this one alone. -/
theorem changeFirst_eq {test : QueueItem → Bool} (f : QueueItem → QueueItem) :
    ∀ {items : List QueueItem}, (items.map (·.ticket)).Nodup → x ∈ items →
      (∀ y ∈ items, test y = true ↔ y.ticket = x.ticket) →
      changeFirst test f items = items.map fun y => if y.ticket = x.ticket then f x else y
  | a :: rest, nodup, hx, htest => by
    obtain ⟨ha, hrest⟩ := List.nodup_cons.1 nodup
    have first := htest a (.head _)
    unfold changeFirst
    rw [List.map_cons]
    by_cases ht : a.ticket = x.ticket
    · obtain rfl : a = x := List.inj_on_of_nodup_map nodup (.head _) hx ht
      rw [if_pos (first.2 ht), if_pos rfl]
      exact congrArg _ (map_untouched (f := fun _ => f a) ha).symm
    · rw [if_neg fun h => ht (first.1 h), if_neg ht]
      rcases List.mem_cons.1 hx with rfl | hx
      · exact absurd rfl ht
      · rw [changeFirst_eq f hrest hx fun y hy => htest y (.tail _ hy)]

theorem changeFirst_none {test : QueueItem → Bool} (f : QueueItem → QueueItem) :
    ∀ {items : List QueueItem}, (∀ y ∈ items, test y = false) → changeFirst test f items = items
  | [], _ => rfl
  | a :: rest, h => by
    unfold changeFirst
    rw [h a (.head _), changeFirst_none f fun y hy => h y (.tail _ hy)]
    rfl

namespace Distinct

theorem itemTickets (h : q.Distinct) : (q.items.map (·.ticket)).Nodup := by
  have := h.tickets
  rw [List.map_append] at this
  exact (List.nodup_append.1 this).1

theorem pendingTickets (h : q.Distinct) : (q.pending.map (·.ticket)).Nodup :=
  h.itemTickets.sublist (List.filter_sublist.map _)

/-- No item that was taken off has the ticket of one that is on the queue. -/
theorem ne_removed (h : q.Distinct) (hx : x ∈ q.items) (hy : y ∈ q.removed) :
    y.ticket ≠ x.ticket := by
  have := h.tickets
  rw [List.map_append] at this
  exact fun ht => (List.nodup_append.1 this).2.2 _ (List.mem_map_of_mem hx) _
    (List.mem_map_of_mem hy) ht.symm

theorem update_eq (h : q.Distinct) (hx : x ∈ q.items) (c : ItemChange) :
    q.update x.id c = q.replace (x.apply c) := by
  unfold update replace
  rw [changeFirst_eq _ h.itemTickets hx fun y hy => ?_]
  · rfl
  · rw [decide_eq_true_iff]
    exact ⟨fun hi => congrArg _ (List.inj_on_of_nodup_map h.ids hy hx hi),
      fun ht => congrArg _ (List.inj_on_of_nodup_map h.itemTickets hy hx ht)⟩

theorem updateTicket_eq (h : q.Distinct) (hx : x ∈ q.items) {f : QueueItem → QueueItem}
    (hf : (f x).ticket = x.ticket) : q.updateTicket x.ticket f = q.replace (f x) := by
  unfold updateTicket replace
  dsimp only
  rw [changeFirst_eq f h.itemTickets hx fun y _ => decide_eq_true_iff,
    changeFirst_none f fun y hy => decide_eq_false (h.ne_removed hx hy), hf]

theorem ofTicket?_eq (h : q.Distinct) (hx : x ∈ q.items) : q.ofTicket? x.ticket = some x := by
  unfold ofTicket?
  rcases hf : (q.items ++ q.removed).find? fun item => item.ticket = x.ticket with _ | y
  · have := List.find?_eq_none.1 hf x (List.mem_append_left _ hx)
    simp at this
  · have ht : y.ticket = x.ticket := by simpa using List.find?_some hf
    rw [hf, List.inj_on_of_nodup_map h.tickets (List.mem_of_find?_eq_some hf)
      (List.mem_append_left _ hx) ht]

end Distinct

/-! ## Another item in place of one -/

theorem replace_tickets : (q.replace y).items.map (·.ticket) = q.items.map (·.ticket) := by
  unfold replace
  rw [List.map_map]
  refine List.map_congr_left fun z _ => ?_
  simp only [Function.comp]
  split
  · rename_i ht
    exact ht.symm
  · rfl

theorem replace_ids (h : q.Distinct) (hx : x ∈ q.items) (ht : y.ticket = x.ticket)
    (hi : y.id = x.id) : (q.replace y).items.map (·.id) = q.items.map (·.id) := by
  unfold replace
  rw [List.map_map]
  refine List.map_congr_left fun z hz => ?_
  simp only [Function.comp]
  split
  · rename_i hz'
    rw [List.inj_on_of_nodup_map h.itemTickets hz hx (hz'.trans ht), hi]
  · rfl

theorem Distinct.replace (h : q.Distinct) (hx : x ∈ q.items) (ht : y.ticket = x.ticket)
    (hi : y.id = x.id) : (q.replace y).Distinct where
  ids := by
    rw [replace_ids h hx ht hi]
    exact h.ids
  tickets := by
    show (((q.replace y).items ++ q.removed).map (·.ticket)).Nodup
    rw [List.map_append, replace_tickets, ← List.map_append]
    exact h.tickets

theorem mem_replace (hx : x ∈ q.items) (ht : y.ticket = x.ticket) : y ∈ (q.replace y).items :=
  List.mem_map.2 ⟨x, hx, if_pos ht.symm⟩

theorem mem_replace_of_ne (hx : x ∈ q.items) (ht : x.ticket ≠ y.ticket) :
    x ∈ (q.replace y).items := List.mem_map.2 ⟨x, hx, if_neg ht⟩

theorem replace_replace (ht : y.ticket = x.ticket) : (q.replace x).replace y = q.replace y := by
  unfold replace
  simp only [List.map_map, Queue.mk.injEq, and_true]
  refine List.map_congr_left fun z _ => ?_
  by_cases hz : z.ticket = x.ticket
  · simp [hz, ht]
  · simp [hz, ht]

/-! ## The place of an item -/

/-- `x` may stand where `item` stands in the queue. -/
structure Slot (q : Queue) (item x : QueueItem) : Prop where
  distinct : q.Distinct
  mem : item ∈ q.items
  ticket : x.ticket = item.ticket
  id : x.id = item.id

namespace Slot

variable {item : QueueItem}

theorem self (h : q.Distinct) (hx : x ∈ q.items) : Slot q x x := ⟨h, hx, rfl, rfl⟩

theorem mem_replace (h : Slot q item x) : x ∈ (q.replace x).items := Queue.mem_replace h.mem h.ticket

theorem distinct_replace (h : Slot q item x) : (q.replace x).Distinct :=
  h.distinct.replace h.mem h.ticket h.id

theorem ofTicket?_replace (h : Slot q item x) : (q.replace x).ofTicket? item.ticket = some x := by
  rw [← h.ticket]
  exact h.distinct_replace.ofTicket?_eq h.mem_replace

theorem update_replace (h : Slot q item x) (c : ItemChange) :
    (q.replace x).update item.id c = q.replace (x.apply c) := by
  rw [← h.id, h.distinct_replace.update_eq h.mem_replace, replace_replace (x.apply_ticket c)]

theorem updateTicket_replace (h : Slot q item x) {f : QueueItem → QueueItem}
    (hf : (f x).ticket = x.ticket) : (q.replace x).updateTicket item.ticket f = q.replace (f x) := by
  rw [← h.ticket, h.distinct_replace.updateTicket_eq h.mem_replace hf, replace_replace hf]

theorem apply (h : Slot q item x) {c : ItemChange} (hc : c.id = none) : Slot q item (x.apply c) where
  distinct := h.distinct
  mem := h.mem
  ticket := h.ticket
  id := by
    rw [← h.id]
    show c.id.getD x.id = x.id
    rw [hc]
    rfl

end Slot

/-! ## Other items in place of several -/

/-- The queue with items in place of those of the same tickets. -/
def replaceAll (q : Queue) (xs : List QueueItem) : Queue := xs.foldl replace q

/-- What stands in the place of an item then. -/
def successor (xs : List QueueItem) (y : QueueItem) : QueueItem :=
  xs.foldl (fun y x => if y.ticket = x.ticket then x else y) y

theorem replaceAll_items : ∀ (xs : List QueueItem) (q : Queue),
    (q.replaceAll xs).items = q.items.map (successor xs)
  | [], _ => (List.map_id _).symm
  | x :: xs, q => by
    show (replaceAll (q.replace x) xs).items = _
    rw [replaceAll_items]
    exact List.map_map

theorem replaceAll_removed : ∀ (xs : List QueueItem) (q : Queue),
    (q.replaceAll xs).removed = q.removed
  | [], _ => rfl
  | x :: xs, q => replaceAll_removed xs (q.replace x)

theorem successor_of_notMem : ∀ {xs : List QueueItem}, y.ticket ∉ xs.map (·.ticket) →
    successor xs y = y
  | [], _ => rfl
  | x :: xs, h => by
    rw [List.map_cons, List.mem_cons, not_or] at h
    show successor xs (if y.ticket = x.ticket then x else y) = y
    rw [if_neg h.1, successor_of_notMem h.2]

/-- The items that are put in stand on the queue. -/
theorem mem_replaceAll {xs : List QueueItem} (nodup : (xs.map (·.ticket)).Nodup)
    (places : ∀ x ∈ xs, x.ticket ∈ q.items.map (·.ticket)) (hx : x ∈ xs) :
    x ∈ (q.replaceAll xs).items := by
  induction xs generalizing q with
  | nil => exact absurd hx List.not_mem_nil
  | cons a xs ih =>
    obtain ⟨ha, nodup⟩ := List.nodup_cons.1 nodup
    rcases List.mem_cons.1 hx with rfl | hx
    · obtain ⟨y, hy, ht⟩ := List.mem_map.1 (places x (.head _))
      show x ∈ (replaceAll (q.replace x) xs).items
      rw [replaceAll_items]
      exact List.mem_map.2 ⟨x, mem_replace hy ht.symm, successor_of_notMem ha⟩
    · refine ih (q := q.replace a) nodup (fun z hz => ?_) hx
      rw [replace_tickets]
      exact places z (.tail _ hz)

theorem Distinct.ofTickets_eq (h : q.Distinct) {xs : List QueueItem} (mem : ∀ x ∈ xs, x ∈ q.items) :
    q.ofTickets (xs.map (·.ticket)) = xs := by
  unfold ofTickets
  induction xs with
  | nil => rfl
  | cons x xs ih =>
    rw [List.map_cons, List.filterMap_cons_some (h.ofTicket?_eq (mem x (.head _))),
      ih fun y hy => mem y (.tail _ hy)]

section
variable {P : QueueItem → QueueItem → Prop} (hP : ∀ {x y}, P x y → y.ticket = x.ticket)
include hP

theorem tickets_of_forall₂ : ∀ {items xs : List QueueItem}, List.Forall₂ P items xs →
    xs.map (·.ticket) = items.map (·.ticket)
  | _, _, .nil => rfl
  | _, _, .cons h t => by rw [List.map_cons, List.map_cons, hP h, tickets_of_forall₂ t]

/-- Each of the items has its own successor. -/
theorem successor_of_forall₂ : ∀ {items xs : List QueueItem}, List.Forall₂ P items xs →
    (items.map (·.ticket)).Nodup → ∀ y ∈ items, P y (successor xs y)
  | _, _, .nil, _, _, h => absurd h List.not_mem_nil
  | item :: items, x :: xs, .cons hx hxs, nodup, y, hy => by
    obtain ⟨hitem, nodup⟩ := List.nodup_cons.1 nodup
    show P y (successor xs (if y.ticket = x.ticket then x else y))
    rcases List.mem_cons.1 hy with rfl | hy
    · rw [if_pos (hP hx).symm, successor_of_notMem]
      · exact hx
      · rwa [tickets_of_forall₂ hP hxs, hP hx]
    · have other : y.ticket ≠ x.ticket := fun ht =>
        hitem (List.mem_map.2 ⟨y, hy, ht.trans (hP hx)⟩)
      rw [if_neg other]
      exact successor_of_forall₂ hxs nodup y hy

end

end Queue

end VideoExport
