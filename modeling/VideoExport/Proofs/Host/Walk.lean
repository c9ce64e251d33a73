import VideoExport.Proofs.Coupling
import VideoExport.Proofs.Host.FileTree
import VideoExport.Proofs.Path

/-!
# Where paths lead

The places that a path leads through depend on its text alone (`FileTree.trail`); what stands there tells
how far it comes. So trees that agree on these places give it the same end (`FileTree.locate_congr`), and
a path that comes to a directory has passed directories only (`FileTree.follow_directories`).
-/

set_option autoImplicit false

namespace VideoExport

namespace FileTree

/-- The places that a path leads through, with the one that it leads to. -/
def trail (path : String) : List (List String) := (namesOf path).scanl step []

/-- The place that a path leads to. -/
def goal (path : String) : List String := (namesOf path).foldl step []

variable {t u : FileTree} {names at' d : List String} {name : String} {place : Place}

/-- The end of a path depends only on what stands at the places that it leads through. -/
theorem follow_congr : ∀ {names at' : List String},
    (∀ p ∈ names.scanl step at', t.lookup p = u.lookup p) → t.follow at' names = u.follow at' names
  | [], at', h => congrArg (fun node => Except.ok (Place.mk at' node)) (h at' (.head _))
  | name :: rest, at', h => by
    rw [List.scanl_cons] at h
    rw [follow_cons, follow_cons, h at' (.head _), follow_congr fun p hp => h p (.tail _ hp)]

theorem follow_names : ∀ {names at' : List String}, t.follow at' names = .ok place →
    place.names = names.foldl step at'
  | [], _, h => by
    cases h
    rfl
  | _ :: _, _, h => by
    rw [List.foldl_cons, follow_names (follow_cons_ok h).2.2]

/-- What a path passes before its end are directories. -/
theorem follow_passed : ∀ {names at' : List String}, t.follow at' names = .ok place →
    ∀ p ∈ names.scanl step at', t.lookup p = some .directory ∨ p = place.names
  | [], at', h, p, hp => by
    cases h
    exact .inr (List.mem_singleton.1 hp)
  | name :: rest, at', h, p, hp => by
    obtain ⟨here, -, leads⟩ := follow_cons_ok h
    rw [List.scanl_cons] at hp
    rcases List.mem_cons.1 hp with rfl | hp
    · exact .inl here
    · exact follow_passed leads p hp

/-- A path that comes to a directory has passed directories only. -/
theorem follow_directories (h : t.follow at' names = .ok place) (dir : place.node = some .directory) :
    ∀ p ∈ names.scanl step at', t.lookup p = some .directory := by
  intro p hp
  rcases follow_passed h p hp with passed | rfl
  · exact passed
  · rw [← follow_node h, dir]

/-- A longer path goes on from where the shorter one came to. -/
theorem follow_append {rest : List String} : ∀ {names at' : List String},
    t.follow at' names = .ok place → place.node = some .directory →
    t.follow at' (names ++ rest) = t.follow place.names rest
  | [], at', h, _ => by
    cases h
    rfl
  | name :: names, at', h, dir => by
    obtain ⟨here, on, leads⟩ := follow_cons_ok h
    rw [List.cons_append, follow_cons, here]
    dsimp only
    rw [on]
    exact follow_append leads dir

theorem locate_congr {path : String} (h : ∀ p ∈ trail path, t.lookup p = u.lookup p) :
    t.locate path = u.locate path := by
  rw [locate_eq, locate_eq, follow_congr h]

theorem file_congr {path : String} (h : t.locate path = u.locate path) :
    t.file path = u.file path := by
  unfold file node
  rw [h]

end FileTree

end VideoExport
