import VideoExport.Proofs.Host.Found

/-!
# Directories that come and go

Writing and removing files leaves all directories of a tree in their places (`FileTree.SameDirectories`). A
directory that is made stands where nothing stood (`FileTree.lookup_makeDirectory`), and one that is removed
is gone with everything in it, while all else stays (`FileTree.lookup_removeDirectory`).
-/

set_option autoImplicit false

namespace VideoExport

namespace FileTree

variable {t u : FileTree} {names p : List String} {path : String}

/-- Two trees have their directories in the same places. -/
def SameDirectories (t u : FileTree) : Prop :=
  ∀ p, u.lookup p = some .directory ↔ t.lookup p = some .directory

theorem lookup_goal_of_isDirectory (h : t.isDirectory path = true) :
    t.lookup (goal path) = some .directory := by
  obtain ⟨names, located⟩ := isDirectory_iff.1 h
  rw [← locate_names located]
  exact (locate_node located).symm

/-- A change that spares directories, and makes none, leaves them in their places. -/
theorem sameDirectories_edit {change : Option FileNode → Except FileFault (Option FileNode)}
    (spares : Spares change) (plain : ∀ n m, change n = .ok m → m ≠ some .directory)
    (made : t.edit path change = .ok u) : t.SameDirectories u := by
  obtain ⟨node, changed, after⟩ := edit_ok spares made
  intro p
  rw [after]
  split
  · rename_i here
    subst here
    refine iff_of_false (plain _ _ changed) fun directory => ?_
    obtain ⟨fault, refused⟩ := spares
    rw [directory, refused] at changed
    cases changed
  · rfl

theorem sameDirectories_write {content : ByteArray} (made : t.write path content = .ok u) :
    t.SameDirectories u := by
  refine sameDirectories_edit (spares_overwrite content) (fun n m h => ?_) (write_eq content ▸ made)
  rcases n with _ | _ | f <;> cases h <;> exact nofun

theorem sameDirectories_unlink (made : t.unlink path = .ok u) : t.SameDirectories u := by
  refine sameDirectories_edit spares_remove (fun n m h => ?_) (unlink_eq ▸ made)
  rcases n with _ | _ | f <;> cases h
  exact nofun

/-! ## One directory more, or less -/

/-- A directory is made where nothing stands, and nothing else changes. -/
theorem lookup_makeDirectory (made : t.makeDirectory path = .ok u) :
    t.lookup (goal path) = none ∧ u.lookup (goal path) = some .directory ∧
      ∀ p, p ≠ goal path → u.lookup p = t.lookup p := by
  have there := lookup_goal_of_isDirectory (isDirectory_of_makeDirectory made)
  unfold makeDirectory at made
  rcases located : t.locate path with _ | ⟨names, _ | node⟩ <;> rw [located] at made <;> cases made
  have names := locate_names located
  cases names
  exact ⟨(locate_node located).symm, there, fun p other => lookup_put_ne other⟩

theorem lookup_eraseBelow_of_prefix (inner : names ≠ []) (below : names <+: p) :
    (t.eraseBelow names).lookup p = none := by
  have other : p ≠ [] := by
    rintro rfl
    exact inner (List.prefix_nil.1 below)
  unfold eraseBelow lookup
  rw [if_neg other, List.lookup_eq_none_iff]
  intro e he
  have kept := (List.mem_filter.1 he).2
  refine bne_iff_ne.2 fun same => ?_
  rw [← same, List.isPrefixOf_iff_prefix.2 below] at kept
  cases kept

/-- A directory that is removed is gone with everything in it, and nothing else changes. -/
theorem lookup_removeDirectory (there : t.isDirectory path = true) (inner : goal path ≠ []) :
    (∀ p, goal path <+: p → (t.removeDirectory path).lookup p = none) ∧
      ∀ p, ¬ goal path <+: p → (t.removeDirectory path).lookup p = t.lookup p := by
  obtain ⟨names, located⟩ := isDirectory_iff.1 there
  have removed : t.removeDirectory path = t.eraseBelow (goal path) := by
    unfold removeDirectory
    rw [located, ← locate_names located]
  rw [removed]
  exact ⟨fun p => lookup_eraseBelow_of_prefix inner, fun p => lookup_eraseBelow⟩

end FileTree

namespace Host

open FileTree

variable {path : String}

/-- The temporary directories that stand are the same. -/
def keepsTemporaries : HostFrame where
  Holds h h' := ∀ n,
    h'.files.lookup [temporaryName n] = some .directory ↔ h.files.lookup [temporaryName n] = some .directory
  refl _ _ := .rfl
  trans h₁ h₂ n := (h₂ n).trans (h₁ n)
  of_files same _ := by rw [same]

theorem keepsTemporaries_change {f : FileTree → Except FileFault FileTree}
    (kept : ∀ t u, f t = .ok u → t.SameDirectories u) :
    (change path f).Follows keepsTemporaries.toEvolution := by
  intro h
  rw [change_eq]
  split
  · exact keepsTemporaries.refl h
  · split
    · rename_i files made
      exact fun n => kept _ _ made _
    · exact keepsTemporaries.refl h

theorem keepsTemporaries_writeFile (path : String) (content : ByteArray) :
    (writeFile path content).Follows keepsTemporaries.toEvolution :=
  keepsTemporaries_change fun _ _ => sameDirectories_write

theorem keepsTemporaries_unlink (path : String) :
    (unlink path).Follows keepsTemporaries.toEvolution :=
  keepsTemporaries_change fun _ _ => sameDirectories_unlink

/-- A temporary directory is found as long as it stands. -/
theorem isDirectory_temporary {t u : FileTree} {n : Nat}
    (stand : t.lookup [temporaryName n] = some .directory → u.lookup [temporaryName n] = some .directory)
    (h : t.isDirectory (Path.ofString (temporaryName n)).toString = true) :
    u.isDirectory (Path.ofString (temporaryName n)).toString = true := by
  refine isDirectory_of_standing (fun p mem => ?_) h
  rcases mem_trail_temporary mem with rfl | rfl
  · exact fun _ => if_pos rfl
  · exact stand

end Host

end VideoExport
