import VideoExport.Proofs.Host
import VideoExport.Staging

/-!
# Claiming and removing entries

Removing an entry asks the engine once to delete it and never raises a failure (`discardAll_eq`).
`release_eq`: what is claimed is removed, the last entry first; `claimAll_eq`: distinct names that
are claimed first are claimed as they stand.
-/

set_option autoImplicit false

namespace VideoExport.Storage

variable {σ : Type} {e : Engine σ} {S : HostFrame} {s t : Storage (Recorded σ)} {o : Outcome Unit}

theorem world_eq {α : Type} {x : Action (World σ) α} {s t : Storage σ} {o : Outcome α}
    (h : (liftM x : Action (Storage σ) α).run s = (o, t)) :
    ∃ w, x.run s.toWorld = (o, w) ∧ t = { s with toWorld := w } := by
  cases h
  exact ⟨_, rfl, rfl⟩

/-- The acts that delete entries, in order. -/
def deletions (names : List String) : List EngineAct := names.map .delete

theorem discard_eq {name : String} (h : (discard e.recorded name).run s = (o, t))
    (ends : o ≠ .stalled) :
    o = .returned () ∧ t.claimed = s.claimed ∧
      ∃ c : EngineStep σ, c.act = .delete name ∧ Span e S s.toWorld [c] t.toWorld := by
  have deleted {p : Outcome Unit} {u : Storage (Recorded σ)}
      (h : (liftM (e.recorded.delete name) : Action (Storage (Recorded σ)) Unit).run s = (p, u)) :
      u.claimed = s.claimed ∧
        ∃ c : EngineStep σ, c.act = .delete name ∧ Span e S s.toWorld [c] u.toWorld := by
    obtain ⟨w, hw, rfl⟩ := world_eq h
    obtain ⟨c, ha, -, hs⟩ := Span.recorded (S := S) hw (.delete _ _)
    exact ⟨rfl, c, ha, hs⟩
  rcases Action.bind_eq h with ⟨a, u, hu, h⟩ | ⟨f, hu, -⟩ | ⟨-, rfl⟩
  · match a with
    | .ok () =>
      cases h
      exact ⟨rfl, deleted (Action.attempt_ok.1 hu)⟩
    | .error f =>
      obtain ⟨hc, c, ha, hs⟩ := deleted (Action.attempt_error.1 hu)
      dsimp only at h
      split at h
      · cases h
        exact ⟨rfl, hc, c, ha, hs⟩
      · cases h
        refine ⟨rfl, hc, c, ha, hs.append (b := []) (.of_host rfl ?_)⟩
        exact (Host.follows_log _ _ _).of_files S _
  · exact absurd hu Action.attempt_not_raised
  · exact absurd rfl ends

/-- Each of the entries is asked to be deleted once, whatever becomes of the others. -/
theorem discardAll_eq : ∀ {names : List String} {s : Storage (Recorded σ)},
    (discardAll e.recorded names).run s = (o, t) → o ≠ .stalled →
    o = .returned () ∧ t.claimed = s.claimed ∧ ∃ new : List (EngineStep σ),
      new.map (·.act) = deletions names ∧ Span e S s.toWorld new t.toWorld
  | [], s, h, _ => by
    cases h
    exact ⟨rfl, rfl, [], rfl, .refl _⟩
  | name :: rest, s, h, ends => by
    rcases Action.bind_eq h with ⟨_, u, hu, h⟩ | ⟨f, hu, rfl⟩ | ⟨-, rfl⟩
    · obtain ⟨-, hc, c, ha, hs⟩ := discard_eq (S := S) hu nofun
      obtain ⟨ho, hc', new, hn, hs'⟩ := discardAll_eq h ends
      refine ⟨ho, hc'.trans hc, c :: new, ?_, hs.append hs'⟩
      rw [List.map_cons, ha, hn]
      rfl
    · obtain ⟨⟨⟩, -⟩ := discard_eq (S := S) hu nofun
    · exact absurd rfl ends

/-- All claimed entries are removed, the last one first, and nothing is claimed any more. -/
theorem release_eq (h : (release e.recorded).run s = (o, t)) (ends : o ≠ .stalled) :
    o = .returned () ∧ t.claimed = [] ∧ ∃ new : List (EngineStep σ),
      new.map (·.act) = deletions s.claimed.reverse ∧ Span e S s.toWorld new t.toWorld := by
  obtain ⟨_, _, ⟨⟩, h⟩ := Action.bind_total h ⟨_, _, Action.run_get s⟩
  rcases Action.bind_eq h with ⟨_, u, hu, h⟩ | ⟨f, hu, rfl⟩ | ⟨-, rfl⟩
  · obtain ⟨-, -, new, hn, hs⟩ := discardAll_eq (S := S) hu nofun
    cases h
    exact ⟨rfl, rfl, new, hn, hs⟩
  · obtain ⟨⟨⟩, -⟩ := discardAll_eq (S := S) hu nofun
  · exact absurd rfl ends

/-- Names that are distinct, not empty and not claimed yet are claimed as they stand. -/
theorem claimAll_eq : ∀ {names : List String} {s : Storage σ}, names.Nodup →
    (∀ n ∈ names, n.isEmpty = false) → (∀ n ∈ names, n ∉ s.claimed) →
    (claimAll names).run s = (.returned (), { s with claimed := s.claimed ++ names })
  | [], s, _, _, _ => by
    rw [List.append_nil]
    rfl
  | name :: rest, s, nodup, nonempty, fresh => by
    obtain ⟨hn, hrest⟩ := List.nodup_cons.1 nodup
    have hc : (claim name).run s = (.returned (), { s with claimed := s.claimed ++ [name] }) := by
      have hnew : name ∉ s.claimed := fresh name (.head _)
      simp [claim, nonempty name (.head _), hnew]
    refine (Action.run_bind_of_returned hc).trans ?_
    rw [claimAll_eq hrest (fun n h => nonempty n (.tail _ h)) fun n h => ?_]
    · rw [List.append_assoc]
      rfl
    · rw [List.mem_append, List.mem_singleton]
      rintro (hm | rfl)
      · exact fresh n (.tail _ h) hm
      · exact hn h

end VideoExport.Storage
