import VideoExport.Proofs.Batch.Names
import VideoExport.Proofs.Queue.Identifiers

/-!
# Files that are added to a queue

Each path becomes a pending item at the end of the queue, or is skipped, and the tickets of the new items are
given (`Queue.add_cases`). Adding fails for one reason only: a path that no file can have.
-/

set_option autoImplicit false

namespace VideoExport

theorem Host.Hexadecimal.drawn {h h' : Host} {o : Outcome String} (hexadecimal : h.Hexadecimal)
    (drawn : drawItemId.run h = (o, h')) : h'.Hexadecimal := by
  have draws : drawIdentifier.Follows (.keeping Hexadecimal) := by
    intro h hexadecimal
    show Hexadecimal (drawIdentifier h).2
    unfold drawIdentifier
    split
    · rename_i rest given
      intro s hs
      refine hexadecimal s ?_
      rw [given]
      exact .tail _ hs
    · exact hexadecimal
  exact Action.Follows.of_run (.bind draws fun _ => .pure _) drawn hexadecimal

/-- The size of what a path leads to cannot be asked for if no file can have the path; any other fault is one
of the system. -/
theorem Host.size_cases {path : String} {h h' : Host} {o : Outcome Nat} (ran : (size path).run h = (o, h')) :
    h' = h ∧ (hasNull path = true ∧ o = .raised .nullCharacter ∨
      hasNull path = false ∧ ((∃ n, o = .returned n) ∨ ∃ f, o = .raised f ∧ f.isSystem = true)) := by
  have still : (size path).Follows .still := .bind (still_ask _ _) fun node => by cases node <;> exact .pure _
  refine ⟨still.of_run ran, ?_⟩
  have asked {p : Outcome FileNode} {i : Host} (hp : (node path).run h = (p, i)) :
      hasNull path = true ∧ p = .raised .nullCharacter ∨
        hasNull path = false ∧ ((∃ n, p = .returned n) ∨ ∃ f, p = .raised f ∧ f.isSystem = true) := by
    unfold node ask Action.run at hp
    split at hp
    · rename_i null
      cases hp
      exact .inl ⟨null, rfl⟩
    · rename_i plain
      refine .inr ⟨Bool.eq_false_iff.2 plain, ?_⟩
      dsimp only at hp
      split at hp <;> cases hp
      · exact .inl ⟨_, rfl⟩
      · exact .inr ⟨_, rfl, rfl⟩
  rcases Action.bind_eq ran with ⟨node, i, hi, measured⟩ | ⟨f, hi, rfl⟩ | ⟨hi, rfl⟩
  · obtain ⟨-, ⟨⟩⟩ | ⟨plain, -⟩ := asked hi
    cases node <;> cases measured <;> exact .inr ⟨plain, .inl ⟨_, rfl⟩⟩
  · obtain ⟨null, raised⟩ | ⟨plain, ⟨_, ⟨⟩⟩ | ⟨_, ⟨⟩, system⟩⟩ := asked hi
    · cases raised
      exact .inl ⟨null, rfl⟩
    · exact .inr ⟨plain, .inr ⟨f, rfl, system⟩⟩
  · obtain ⟨-, ⟨⟩⟩ | ⟨-, ⟨_, ⟨⟩⟩ | ⟨_, ⟨⟩, -⟩⟩ := asked hi

namespace Queue

variable {s t : Shelf}

/-- An item as it is when it was added. -/
def New (x : QueueItem) : Prop := x.status = .pending ∧ x.Enlisted

/-- A path becomes a new item, or none. -/
theorem addPath_cases {written : String} {o : Outcome (Option Nat)} (hexadecimal : s.1.Hexadecimal)
    (ran : (addPath written).run s = (o, t)) :
    Host.hasNull written = true ∧ o = .raised .nullCharacter ∨
      Host.hasNull written = false ∧ t.1.Hexadecimal ∧ ∃ (xs : List QueueItem) (ticket : Option Nat),
        o = .returned ticket ∧ ticket.toList = xs.map (·.ticket) ∧ t.2.items = s.2.items ++ xs ∧
        ∀ x ∈ xs, New x := by
  have skipped {message : String} {p : Path} (plain : Host.hasNull written = false) (hr : (do
        warn message
        Action.modify fun s => (s.1, s.2.skip p)
        return none : Action Shelf (Option Nat)).run s = (o, t)) :
      Host.hasNull written = false ∧ t.1.Hexadecimal ∧ ∃ (xs : List QueueItem) (ticket : Option Nat),
        o = .returned ticket ∧ ticket.toList = xs.map (·.ticket) ∧ t.2.items = s.2.items ++ xs ∧
        ∀ x ∈ xs, New x := by
    cases hr
    exact ⟨plain, hexadecimal, [], none, rfl, rfl, (List.append_nil _).symm, List.forall_mem_nil _⟩
  have sized {p : Outcome Nat} {u : Shelf} (hu : (Action.onHost (Host.size written) :
      Action Shelf Nat).run s = (p, u)) : u = s ∧ (Host.hasNull written = true ∧ p = .raised .nullCharacter ∨
        Host.hasNull written = false ∧ ((∃ n, p = .returned n) ∨ ∃ f, p = .raised f ∧ f.isSystem = true)) := by
    obtain ⟨h, hh, rfl⟩ := Action.zoom_eq hu
    obtain ⟨rfl, cases⟩ := Host.size_cases hh
    exact ⟨rfl, cases⟩
  unfold addPath at ran
  rcases Action.attempt_bind_eq ran with ⟨size, u, hu, rest⟩ | ⟨f, u, hu, rest⟩ | ⟨hu, rfl⟩
  · obtain ⟨rfl, ⟨-, ⟨⟩⟩ | ⟨plain, -⟩⟩ := sized hu
    refine .inr ?_
    rw [Action.run_bind_of_returned (Action.run_read _ _)] at rest
    split at rest
    · exact skipped plain rest
    · obtain ⟨h', drawn, -⟩ := Host.drawItemId_run u.1
      have draws : (liftM Host.drawItemId : Action Shelf String).run u =
          (.returned (u.1.itemId 0), (h', u.2)) := by
        show (Action.zoom _ _ Host.drawItemId).run u = _
        rw [Action.run_zoom]
        show ((Host.drawItemId.run u.1).1, ((Host.drawItemId.run u.1).2, u.2)) = _
        rw [drawn]
      rw [Action.run_bind_of_returned draws] at rest
      cases rest
      refine ⟨plain, hexadecimal.drawn drawn, [_], some u.2.tickets, rfl, rfl, rfl, fun x hx => ?_⟩
      obtain rfl := List.mem_singleton.1 hx
      exact ⟨rfl, ⟨written, rfl⟩, u.1, h', hexadecimal, drawn⟩
  · obtain ⟨rfl, ⟨null, h⟩ | ⟨plain, ⟨_, ⟨⟩⟩ | ⟨g, ⟨⟩, system⟩⟩⟩ := sized hu
    · cases h
      cases rest
      exact .inl ⟨null, rfl⟩
    · dsimp only at rest
      rw [if_pos system] at rest
      exact .inr (skipped plain rest)
  · obtain ⟨-, ⟨-, ⟨⟩⟩ | ⟨-, ⟨_, ⟨⟩⟩ | ⟨_, ⟨⟩, -⟩⟩⟩ := sized hu

/-- The paths become new items at the end of the queue, whose tickets are given, unless no file can have one
of the paths. -/
theorem add_cases : ∀ {paths : List String} {s t : Shelf} {o : Outcome (List Nat)}, s.1.Hexadecimal →
    (add paths).run s = (o, t) →
    (∃ path ∈ paths, Host.hasNull path = true) ∧ o = .raised .nullCharacter ∨
      (∀ path ∈ paths, Host.hasNull path = false) ∧ ∃ xs : List QueueItem,
        o = .returned (xs.map (·.ticket)) ∧ t.2.items = s.2.items ++ xs ∧ ∀ x ∈ xs, New x
  | [], _, _, _, _, ran => by
    cases ran
    exact .inr ⟨List.forall_mem_nil _, [], rfl, (List.append_nil _).symm, List.forall_mem_nil _⟩
  | path :: rest, s, t, o, hexadecimal, ran => by
    unfold add at ran
    have first {p : Outcome (Option Nat)} {u : Shelf} (hu : (addPath path).run s = (p, u)) :=
      addPath_cases hexadecimal hu
    rcases Action.bind_eq ran with ⟨ticket, u, hu, ran⟩ | ⟨f, hu, rfl⟩ | ⟨hu, rfl⟩
    · obtain ⟨-, ⟨⟩⟩ | ⟨plain, hexadecimal', xs, _, ⟨⟩, given, items, new⟩ := first hu
      have later {p : Outcome (List Nat)} {v : Shelf} (hv : (add rest).run u = (p, v)) :=
        add_cases hexadecimal' hv
      rcases Action.bind_eq ran with ⟨more, v, hv, ran⟩ | ⟨f, hv, rfl⟩ | ⟨hv, rfl⟩
      · obtain ⟨-, ⟨⟩⟩ | ⟨plains, ys, ⟨⟩, items', new'⟩ := later hv
        cases ran
        refine .inr ⟨List.forall_mem_cons.2 ⟨plain, plains⟩, xs ++ ys, ?_, ?_,
          List.forall_mem_append.2 ⟨new, new'⟩⟩
        · rw [given, List.map_append]
        · rw [items', items, List.append_assoc]
      · obtain ⟨⟨p, hp, null⟩, raised⟩ | ⟨-, _, ⟨⟩, -⟩ := later hv
        cases raised
        exact .inl ⟨⟨p, .tail _ hp, null⟩, rfl⟩
      · obtain ⟨-, ⟨⟩⟩ | ⟨-, _, ⟨⟩, -⟩ := later hv
    · obtain ⟨null, raised⟩ | ⟨-, -, _, _, ⟨⟩, -⟩ := first hu
      cases raised
      exact .inl ⟨⟨path, .head _, null⟩, rfl⟩
    · obtain ⟨-, ⟨⟩⟩ | ⟨-, -, _, _, ⟨⟩, -⟩ := first hu

end Queue

end VideoExport
