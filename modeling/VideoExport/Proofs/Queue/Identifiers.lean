import Mathlib.Data.List.Nodup
import VideoExport.Proofs.Host
import VideoExport.Proofs.Queue

/-!
# Identifiers of a queue's items

An item's identifier is the beginning of a random one. Whatever is done to a queue, the item of ticket `t` has
the beginning of the one that was drawn after `t` others (`numbered_afterAll`). So the items of a queue are
told apart by their identifiers exactly if these beginnings differ, and then each of them is the one that its
identifier finds (`ids_nodup_iff`, `get?_iff`).
-/

set_option autoImplicit false

namespace VideoExport

namespace Host

/-- The random identifier that is drawn after `n` others. -/
def identifier (h : Host) (n : Nat) : String :=
  match h.identifiers[n]? with
  | some id => fullIdentifier id
  | none => countedIdentifier (h.drawn + n + 1)

/-- The identifier of an item for which one is drawn after `n` others. -/
def itemId (h : Host) (n : Nat) : String := String.ofList ((h.identifier n).toList.take itemIdDigits)

theorem identifier_of_drawn {h h' : Host} (rest : h'.identifiers = h.identifiers.drop 1)
    (drawn : h'.drawn = h.drawn + 1) (n : Nat) : h'.identifier n = h.identifier (n + 1) := by
  unfold identifier
  rw [rest, drawn, List.getElem?_drop, Nat.add_comm 1 n, Nat.add_assoc h.drawn 1 n, Nat.add_comm 1 n]

/-- What is drawn next is no longer drawn then. -/
theorem drawIdentifier_run (h : Host) : ∃ h', drawIdentifier.run h = (.returned (h.identifier 0), h') ∧
    ∀ n, h'.identifier n = h.identifier (n + 1) := by
  show ∃ h', drawIdentifier h = _ ∧ _
  unfold drawIdentifier
  cases hi : h.identifiers with
  | nil =>
    refine ⟨{ h with drawn := h.drawn + 1 }, ?_, identifier_of_drawn ?_ rfl⟩
    · unfold identifier
      rw [hi]
      rfl
    · show h.identifiers = h.identifiers.drop 1
      rw [hi, List.drop_nil]
  | cons id rest =>
    refine ⟨{ h with identifiers := rest, drawn := h.drawn + 1 }, ?_, identifier_of_drawn ?_ rfl⟩
    · unfold identifier
      rw [hi]
      rfl
    · show rest = h.identifiers.drop 1
      rw [hi, List.drop_succ_cons, List.drop_zero]

theorem drawItemId_run (h : Host) : ∃ h', drawItemId.run h = (.returned (h.itemId 0), h') ∧
    ∀ n, h'.identifier n = h.identifier (n + 1) := by
  obtain ⟨h', ran, next⟩ := drawIdentifier_run h
  refine ⟨h', ?_, next⟩
  unfold drawItemId
  rw [Action.run_bind_of_returned ran]
  rfl

end Host

namespace Queue

/-! ## Operations -/

/-- What is done to a queue from outside. A change leaves the identifier of an item alone. -/
inductive Operation where
  | add (paths : List String)
  | update (id : String) (change : ItemChange) (keepsId : change.id = none)
  | remove (id : String)
  | clear

namespace Operation

def run : Operation → Action Shelf Unit
  | .add paths => do let _ ← Queue.add paths
  | .update id change _ => .modify fun s => (s.1, s.2.update id change)
  | .remove id => .modify fun s => (s.1, s.2.remove id)
  | .clear => .modify fun s => (s.1, s.2.clear)

end Operation

/-- The host and the queue after operations, whichever of them fail. -/
def afterAll (operations : List Operation) (s : Shelf) : Shelf :=
  operations.foldl (fun s operation => (operation.run.run s).2) s

/-- The tickets and identifiers of all items that were ever there. -/
def labels (q : Queue) : List (Nat × String) := (q.items ++ q.removed).map fun x => (x.ticket, x.id)

/-- The identifiers of a queue's items are those that `h₀` gives for their tickets, and the ones that are
drawn next are those for the next tickets. -/
structure Numbered (h₀ : Host) (s : Shelf) : Prop where
  next : ∀ n, s.1.identifier n = h₀.identifier (s.2.tickets + n)
  labels : ∀ p ∈ s.2.labels, p.2 = h₀.itemId p.1 ∧ p.1 < s.2.tickets
  tickets : (s.2.labels.map Prod.fst).Nodup

variable {h₀ h h' : Host} {q q' : Queue} {x y : QueueItem} {s : Shelf}

theorem numbered_empty (h₀ : Host) (limit : Option Number) :
    Numbered h₀ (h₀, { maxSize := limit }) where
  next n := by rw [Nat.zero_add]
  labels := List.forall_mem_nil _
  tickets := .nil

/-- The order of the items, and what else is known of them, does not matter. -/
theorem Numbered.perm (n : Numbered h₀ (h, q)) (ids : ∀ n, h'.identifier n = h.identifier n)
    (same : q'.tickets = q.tickets) (perm : q'.labels.Perm q.labels) : Numbered h₀ (h', q') where
  next m := by
    show h'.identifier m = h₀.identifier (q'.tickets + m)
    rw [ids, same]
    exact n.next m
  labels p hp := by
    show p.2 = _ ∧ p.1 < q'.tickets
    rw [same]
    exact n.labels p (perm.mem_iff.1 hp)
  tickets := (perm.map _).nodup_iff.2 n.tickets

theorem labels_changeFirst {test : QueueItem → Bool} {f : QueueItem → QueueItem}
    (hf : ∀ x, ((f x).ticket, (f x).id) = (x.ticket, x.id)) : ∀ items : List QueueItem,
      (changeFirst test f items).map (fun x => (x.ticket, x.id)) =
        items.map fun x => (x.ticket, x.id)
  | [] => rfl
  | x :: rest => by
    unfold changeFirst
    split
    · rw [List.map_cons, List.map_cons, hf]
    · rw [List.map_cons, List.map_cons, labels_changeFirst hf rest]

theorem labels_update {id : String} {c : ItemChange} (keepsId : c.id = none) :
    (q.update id c).labels = q.labels := by
  unfold labels update
  rw [List.map_append, List.map_append, labels_changeFirst fun x => ?_]
  show (x.ticket, c.id.getD x.id) = _
  rw [keepsId]
  rfl

theorem labels_remove (id : String) : (q.remove id).labels.Perm q.labels := by
  refine List.Perm.map _ ?_
  show (q.items.filter (fun x => x.id ≠ id) ++ (q.removed ++ q.items.filter fun x => x.id = id)).Perm _
  have parted := List.filter_append_perm (fun x : QueueItem => decide (x.id = id)) q.items
  have negated : (fun x : QueueItem => !decide (x.id = id)) = fun x => decide (x.id ≠ id) := by
    funext x
    simp
  rw [negated] at parted
  refine List.perm_append_comm.trans ?_
  rw [List.append_assoc]
  exact (parted.append_left q.removed).trans List.perm_append_comm

theorem labels_clear : q.clear.labels.Perm q.labels := by
  refine List.Perm.map _ ?_
  exact (List.perm_append_comm : (q.removed ++ q.items).Perm (q.items ++ q.removed))

/-- A new item gets the identifier that is drawn next. -/
theorem Numbered.push (n : Numbered h₀ (h, q)) (ids : ∀ n, h'.identifier n = h.identifier (n + 1))
    (source : MediaFile) : Numbered h₀ (h', q.push (h.itemId 0) source) := by
  have first : h.itemId 0 = h₀.itemId q.tickets := by
    unfold Host.itemId
    rw [n.next 0]
    rfl
  have labels : (q.push (h.itemId 0) source).labels.Perm ((q.tickets, h.itemId 0) :: q.labels) := by
    unfold Queue.labels Queue.push
    simp only [List.map_append, List.map_cons, List.append_assoc, List.singleton_append]
    exact List.perm_middle
  have fresh : q.tickets ∉ q.labels.map Prod.fst := by
    intro hm
    obtain ⟨p, hp, ht⟩ := List.mem_map.1 hm
    exact absurd ht (Nat.ne_of_lt (n.labels p hp).2)
  have nodup := List.nodup_cons.2 ⟨fresh, n.tickets⟩
  refine ⟨fun m => ?_, fun p hp => ?_, (labels.map _).nodup_iff.2 nodup⟩
  · show h'.identifier m = h₀.identifier (q.tickets + 1 + m)
    rw [ids, n.next (m + 1), Nat.add_comm m 1, Nat.add_assoc]
  · rcases List.mem_cons.1 (labels.mem_iff.1 hp) with rfl | hp
    · exact ⟨first, Nat.lt_succ_self _⟩
    · exact ⟨(n.labels p hp).1, Nat.lt_succ_of_lt (n.labels p hp).2⟩

/-- `Numbered` as an evolution. -/
def numbering (h₀ : Host) : Evolution Shelf where
  Holds s t := Numbered h₀ s → Numbered h₀ t
  refl _ := id
  trans h₁ h₂ := h₂ ∘ h₁

theorem numbering_add : ∀ paths : List String, (add paths).Follows (numbering h₀)
  | [] => .pure _
  | path :: rest => by
    have warned (message : String) : (warn message).Follows (numbering h₀) := fun s n =>
      n.perm (h := s.1) (q := s.2) (fun _ => rfl) rfl (.refl _)
    have skipped (p : Path) : (Action.modify fun s : Shelf => (s.1, s.2.skip p)).Follows
        (numbering h₀) := .modify fun s n => n.perm (h := s.1) (q := s.2) (fun _ => rfl) rfl (.refl _)
    have sized : (Action.onHost (Host.size path) : Action Shelf Nat).Follows (numbering h₀) := by
      refine .zoom (F := .still) (.bind (Host.still_ask _ _) fun node => ?_) fun s t ht => ?_
      · cases node <;> exact .pure _
      · cases ht
        exact (numbering h₀).refl s
    refine .bind (.bind sized.attempt fun o => ?_) fun _ => .bind (numbering_add rest) fun _ => .pure _
    match o with
    | .error f =>
      exact .ite (.bind (warned _) fun _ => .bind (skipped _) fun _ => .pure _) (.raise f)
    | .ok size =>
      refine .bind (.read _) fun tooLarge => .ite
        (.bind (warned _) fun _ => .bind (skipped _) fun _ => .pure _) fun s n => ?_
      obtain ⟨h', drawn, ids⟩ := Host.drawItemId_run s.1
      have ran : (liftM Host.drawItemId : Action Shelf String).run s =
          (.returned (s.1.itemId 0), (h', s.2)) := by
        show (Action.zoom _ _ Host.drawItemId).run s = _
        rw [Action.run_zoom]
        show ((Host.drawItemId.run s.1).1, ((Host.drawItemId.run s.1).2, s.2)) = _
        rw [drawn]
      rw [Action.run_bind_of_returned ran]
      exact Numbered.push (h := s.1) (q := s.2) n ids (MediaFile.ofString path)

theorem numbering_operation (operation : Operation) : operation.run.Follows (numbering h₀) := by
  cases operation with
  | add paths => exact .bind (numbering_add paths) fun _ => .pure _
  | update id change keepsId =>
    exact .modify fun s n => n.perm (h := s.1) (q := s.2) (fun _ => rfl) rfl
      (.of_eq (labels_update keepsId))
  | remove id =>
    exact .modify fun s n => n.perm (h := s.1) (q := s.2) (fun _ => rfl) rfl (labels_remove id)
  | clear => exact .modify fun s n => n.perm (h := s.1) (q := s.2) (fun _ => rfl) rfl labels_clear

/-- Whatever is done to a queue, its items stay numbered. -/
theorem Numbered.afterAll (operations : List Operation) {s : Shelf} (n : Numbered h₀ s) :
    Numbered h₀ (Queue.afterAll operations s) := by
  induction operations generalizing s with
  | nil => exact n
  | cons operation rest ih => exact ih (numbering_operation operation s n)

/-! ## Items by their identifiers -/

theorem Numbered.itemTickets (n : Numbered h₀ s) :
    ((s.2.items ++ s.2.removed).map (·.ticket)).Nodup := by
  have tickets := n.tickets
  unfold Queue.labels at tickets
  rwa [List.map_map] at tickets

theorem Numbered.itemTickets_nodup (n : Numbered h₀ s) : (s.2.items.map (·.ticket)).Nodup := by
  have tickets := n.itemTickets
  rw [List.map_append] at tickets
  exact (List.nodup_append.1 tickets).1

theorem Numbered.id_eq (n : Numbered h₀ s) (hx : x ∈ s.2.items) : x.id = h₀.itemId x.ticket :=
  (n.labels (x.ticket, x.id) (List.mem_map.2 ⟨x, List.mem_append_left _ hx, rfl⟩)).1

theorem Numbered.distinct (n : Numbered h₀ s) (ids : (s.2.items.map (·.id)).Nodup) : s.2.Distinct :=
  ⟨ids, n.itemTickets⟩

/-- Identifiers tell the items of a queue apart exactly if those do that their tickets gave. -/
theorem Numbered.ids_nodup_iff (n : Numbered h₀ s) : (s.2.items.map (·.id)).Nodup ↔
    ∀ x ∈ s.2.items, ∀ y ∈ s.2.items, h₀.itemId x.ticket = h₀.itemId y.ticket →
      x.ticket = y.ticket := by
  have tickets := n.itemTickets_nodup
  constructor
  · intro ids x hx y hy same
    rw [← n.id_eq hx, ← n.id_eq hy] at same
    exact congrArg _ (List.inj_on_of_nodup_map ids hx hy same)
  · intro apart
    refine List.Nodup.map_on (fun x hx y hy same => ?_) tickets.of_map
    rw [n.id_eq hx, n.id_eq hy] at same
    exact List.inj_on_of_nodup_map tickets hx hy (apart x hx y hy same)

/-- Every item is the one that its identifier finds, exactly if identifiers tell the items apart. -/
theorem get?_iff (tickets : (q.items.map (·.ticket)).Nodup) :
    (∀ x ∈ q.items, q.get? x.id = some x) ↔ (q.items.map (·.id)).Nodup := by
  constructor
  · intro found
    refine List.Nodup.map_on (fun x hx y hy same => ?_) tickets.of_map
    have first := found x hx
    rw [same, found y hy] at first
    exact (Option.some.inj first).symm
  · intro ids x hx
    unfold get?
    rcases hf : q.items.find? fun item => item.id = x.id with _ | y
    · have other := List.find?_eq_none.1 hf x hx
      simp at other
    · have same : y.id = x.id := by simpa using List.find?_some hf
      obtain rfl : y = x := List.inj_on_of_nodup_map ids (List.mem_of_find?_eq_some hf) hx same
      exact hf

/-- Where identifiers tell the items apart, the item of an identifier is taken off, and no other. -/
theorem Distinct.remove_items (distinct : q.Distinct) (hx : x ∈ q.items) :
    (q.remove x.id).items = q.items.filter fun y => y.ticket ≠ x.ticket := by
  refine List.filter_congr fun y hy =>
    decide_eq_decide.2 (not_congr ⟨fun same => ?_, fun same => ?_⟩)
  · exact congrArg _ (List.inj_on_of_nodup_map distinct.ids hy hx same)
  · exact congrArg _ (List.inj_on_of_nodup_map distinct.itemTickets hy hx same)

end Queue

end VideoExport
