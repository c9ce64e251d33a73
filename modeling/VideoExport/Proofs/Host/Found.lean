import VideoExport.Proofs.Host.Place

/-!
# Files that stay where they are found

A path to a file passes directories only, so the file is found as long as nothing happens at its place
and the directories on the way stand (`FileTree.file_stays`). Writing or removing another file, and making a
directory, are no danger to it (`Host.keepsFound`); nor is removing a temporary directory with all that is in
it, unless the path passes that (`Host.Lasting`).
-/

set_option autoImplicit false

namespace VideoExport

namespace FileTree

open VideoExport.Path

variable {t u : FileTree} {path other name : String} {place : List String} {f : StoredFile} {D : Path}

/-! ## The way to a file -/

theorem locate_passed {end' : Place} (h : t.locate path = .ok end') :
    ∀ p ∈ trail path, t.lookup p = some .directory ∨ p = goal path := by
  rw [← locate_names h]
  exact follow_passed (locate_ok.1 h).2

theorem locate_of_file (found : t.file path = .ok f) : t.locate path = .ok ⟨goal path, some (.file f)⟩ := by
  unfold file node at found
  cases located : t.locate path with
  | error fault =>
    rw [located] at found
    cases found
  | ok end' =>
    rw [located] at found
    rw [← locate_names located]
    obtain ⟨names, node⟩ := end'
    rcases node with _ | _ | g
    · cases found
    · cases found
    · cases found
      rfl

/-- Where a path leads to a file, it stands. -/
theorem lookup_goal (found : t.file path = .ok f) : t.lookup (goal path) = some (.file f) :=
  (locate_node (locate_of_file found)).symm

theorem file_stays (found : t.file path = .ok f) (same : ∀ p ∈ trail path, u.lookup p = t.lookup p) :
    u.file path = .ok f := by
  rw [file_congr (locate_congr same), found]

/-- A change at a place where neither the file stands nor a directory leaves the file. -/
theorem file_elsewhere (found : t.file path = .ok f) (free : t.lookup place ≠ some .directory)
    (apart : place ≠ goal path) (same : ∀ p, p ≠ place → u.lookup p = t.lookup p) :
    u.file path = .ok f := by
  refine file_stays found fun p hp => same p ?_
  rintro rfl
  rcases locate_passed (locate_of_file found) p hp with directory | there
  · exact free directory
  · exact apart there

theorem file_put (found : t.file path = .ok f) (g : StoredFile) :
    (t.put (goal path) (.file g)).file path = .ok g := by
  have located := locate_put (.file g) (locate_of_file found) nofun
  unfold file node
  rw [located]
  rfl

/-! ## Changes of the tree -/

/-- What is written where a file stands takes the place of its content. -/
theorem file_overwritten {content : ByteArray} (found : t.file path = .ok f)
    (same : goal other = goal path) (made : t.write other content = .ok u) :
    t.file other = .ok f ∧ u.file path = .ok { f with content } := by
  unfold write at made
  cases located : t.locate other with
  | error fault =>
    rw [located] at made
    cases made
  | ok place =>
    have names : place.names = goal path := (locate_names located).trans same
    have stands := (locate_node located).trans (names ▸ lookup_goal found)
    obtain ⟨_, _⟩ := place
    cases names
    cases stands
    rw [located] at made
    cases made
    refine ⟨?_, file_put found _⟩
    unfold file node
    rw [located]
    rfl

theorem file_edit {change : Option FileNode → Except FileFault (Option FileNode)} (spares : Spares change)
    (apart : goal other ≠ goal path) (found : t.file path = .ok f) (made : t.edit other change = .ok u) :
    u.file path = .ok f := by
  obtain ⟨node, changed, after⟩ := edit_ok spares made
  refine file_elsewhere found (fun directory => ?_) apart fun p hp => by rw [after, if_neg hp]
  obtain ⟨fault, refused⟩ := spares
  rw [directory, refused] at changed
  cases changed

/-- A directory is made where nothing stands. -/
theorem file_makeDirectory (found : t.file path = .ok f) (made : t.makeDirectory other = .ok u) :
    u.file path = .ok f := by
  unfold makeDirectory at made
  rcases located : t.locate other with _ | ⟨names, _ | node⟩ <;> rw [located] at made <;> cases made
  have missing : t.lookup names = none := (locate_node located).symm
  refine file_elsewhere found (by rw [missing]; nofun) ?_ fun p hp => lookup_put_ne hp
  rintro rfl
  rw [lookup_goal found] at missing
  cases missing

theorem lookup_eraseBelow {names p : List String} (outside : ¬ names <+: p) :
    (t.eraseBelow names).lookup p = t.lookup p := by
  have kept : (!names.isPrefixOf p) = true := by
    rw [Bool.not_eq_true', Bool.eq_false_iff]
    exact fun below => outside (List.isPrefixOf_iff_prefix.1 below)
  unfold eraseBelow lookup
  split
  · rfl
  · exact @lookup_filter _ _ _ _ t.entries p (fun q => !names.isPrefixOf q) kept

theorem file_removeDirectory (found : t.file path = .ok f)
    (outside : ∀ p ∈ trail path, ¬ goal other <+: p) : (t.removeDirectory other).file path = .ok f := by
  unfold removeDirectory
  split
  · rename_i names located
    rw [show names = goal other from locate_names located]
    exact file_stays found fun p hp => lookup_eraseBelow (outside p hp)
  · exact found

/-- Whatever names lead through, there are only names of theirs on the way. -/
theorem mem_of_mem_scanl {a : String} {q : List String} : ∀ {names p : List String},
    q ∈ names.scanl step p → a ∈ q → a ∈ p ∨ a ∈ names
  | [], p, hq, ha => .inl (List.mem_singleton.1 hq ▸ ha)
  | name :: names, p, hq, ha => by
    rw [List.scanl_cons] at hq
    rcases List.mem_cons.1 hq with rfl | hq
    · exact .inl ha
    · refine (mem_of_mem_scanl hq ha).elim (fun ha => ?_) fun ha => .inr (.tail _ ha)
      unfold step at ha
      split at ha
      · exact .inl ha
      · split at ha
        · exact .inl (List.dropLast_subset p ha)
        · exact (List.mem_append.1 ha).imp id fun ha => List.mem_cons.2 (.inl (List.mem_singleton.1 ha))

end FileTree

namespace Host

open FileTree

variable {path other : String} {f : StoredFile} {h h' : Host}

/-! ## Temporary directories -/

theorem isEntry_temporaryName (n : Nat) : Path.IsEntry (temporaryName n) := by
  have letters : (temporaryName n).toList = "vtransform_tmp".toList ++ Nat.toDigits 10 n := by
    simp [temporaryName, Binary64.digitText, toString, String.toList_append]
  refine Path.isEntry_of_letter letters (by decide) fun slash => ?_
  rw [letters] at slash
  rcases List.mem_append.1 slash with slash | slash
  · exact absurd slash (by decide)
  · exact absurd (Nat.isDigit_of_mem_toDigits (by decide) (by decide) slash) (by decide)

theorem toString_temporary (n : Nat) : (Path.ofString (temporaryName n)).toString = temporaryName n :=
  Path.toString_ofString (isEntry_temporaryName n).toIsName

theorem goal_temporary (n : Nat) : goal (Path.ofString (temporaryName n)).toString = [temporaryName n] := by
  have entry := isEntry_temporaryName n
  rw [goal_toString (Path.plain_ofString _), Path.ofString_name entry.toIsName]
  exact step_entry entry

/-- The way to a temporary directory begins at the top, and is no longer than that. -/
theorem mem_trail_temporary {n : Nat} {p : List String}
    (h : p ∈ trail (Path.ofString (temporaryName n)).toString) : p = [] ∨ p = [temporaryName n] := by
  have entry := isEntry_temporaryName n
  rw [mem_trail_toString (Path.plain_ofString _), Path.ofString_name entry.toIsName] at h
  have way : [temporaryName n].scanl step [] = [[], [temporaryName n]] :=
    congrArg ([[], ·]) (step_entry entry)
  simpa [way] using h

/-- A path does not pass a temporary directory. -/
def Lasting (path : String) : Prop := ∀ n, ∀ p ∈ trail path, ¬ [temporaryName n] <+: p

theorem lasting_child {D : Path} {name : String} (plain : D.Plain) (named : Path.IsName name)
    (apart : ∀ n, temporaryName n ∉ D.parts ∧ temporaryName n ≠ name) :
    Lasting (D.child name).toString := by
  intro n p hp below
  rw [mem_trail_toString (plain.child named), Path.child_name D named] at hp
  have here : temporaryName n ∈ p := below.subset (.head _)
  obtain ⟨other, other'⟩ := apart n
  rcases mem_of_mem_scanl hp here with none | there
  · exact List.not_mem_nil none
  · exact (List.mem_append.1 there).elim other fun same => other' (List.mem_singleton.1 same)

/-! ## A file that is found -/

theorem file?_eq_some : h.file? path = some f ↔ h.files.file path = .ok f := by
  unfold file?
  cases h.files.file path <;> simp [Except.toOption]

/-- A file that is found at a path stays as it is. -/
def keepsFound (path : String) : HostFrame where
  Holds h h' := ∀ f, h.file? path = some f → h'.file? path = some f
  refl _ _ := id
  trans h₁ h₂ f := h₂ f ∘ h₁ f
  of_files same f found := by
    rw [file?_eq_some] at found ⊢
    rw [same]
    exact found

theorem keepsFound_change {change : FileTree → Except FileFault FileTree}
    (kept : ∀ t u f, t.file path = .ok f → change t = .ok u → u.file path = .ok f) :
    (Host.change other change).Follows (keepsFound path).toEvolution := by
  intro h f found
  rw [change_eq]
  split
  · exact found
  · split
    · rename_i files made
      exact file?_eq_some.2 (kept _ _ f (file?_eq_some.1 found) made)
    · exact found

theorem keepsFound_writeFile (content : ByteArray) (apart : goal other ≠ goal path) :
    (writeFile other content).Follows (keepsFound path).toEvolution :=
  keepsFound_change fun _ _ _ found made => file_edit (spares_overwrite content) apart found
    (write_eq content ▸ made)

theorem keepsFound_unlink (apart : goal other ≠ goal path) :
    (unlink other).Follows (keepsFound path).toEvolution :=
  keepsFound_change fun _ _ _ found made => file_edit spares_remove apart found (unlink_eq ▸ made)

theorem keepsFound_makeDirectories : ∀ (fuel : Nat) (p : Path),
    (makeDirectories p fuel).Follows (keepsFound path).toEvolution
  | 0, _ => .pure _
  | fuel + 1, p => by
    have made : (change p.toString (·.makeDirectory p.toString)).Follows (keepsFound path).toEvolution :=
      keepsFound_change fun _ _ _ => file_makeDirectory
    have accepted (f : Failure) : (do
        let h ← Action.get
        if f.isSystem && h.files.isDirectory p.toString then Pure.pure () else Action.raise f :
        Action Host Unit).Follows (keepsFound path).toEvolution :=
      .bind .get fun _ => .ite (.pure _) (.raise _)
    unfold makeDirectories
    refine .bind made.attempt fun o => ?_
    split
    · exact .pure _
    · refine .ite (.raise _) (.bind (keepsFound_makeDirectories fuel _) fun _ =>
        .bind made.attempt fun o => ?_)
      split
      · exact .pure _
      · exact accepted _
    · exact accepted _

theorem keepsFound_ensureDirectory (p : Path) :
    (ensureDirectory p).Follows (keepsFound path).toEvolution := keepsFound_makeDirectories _ _

theorem keepsFound_makeTemporary : makeTemporary.Follows (keepsFound path).toEvolution :=
  .bind .get fun _ => .bind (.modify fun _ => (keepsFound path).of_files rfl) fun _ =>
    .bind (keepsFound_change fun _ _ _ => file_makeDirectory) fun _ => .pure _

theorem keepsFound_removeTemporary (lasting : Lasting path) (n : Nat) :
    (removeTree (.ofString (temporaryName n))).Follows (keepsFound path).toEvolution := by
  have outside : ∀ p ∈ trail path, ¬ goal (Path.ofString (temporaryName n)).toString <+: p := by
    rw [goal_temporary]
    exact lasting n
  exact .modify fun _ _ found => file?_eq_some.2 (file_removeDirectory (file?_eq_some.1 found) outside)

/-! ## Files that grow -/

/-- A file does not lose anything if text is written at the end of some file. -/
theorem appendFile_found {text : String} (found : h.file? path = some f) :
    ∃ g, ((appendFile other text).run h).2.file? path = some g ∧ f.content.size ≤ g.content.size := by
  rw [file?_eq_some] at found
  unfold appendFile
  rw [change_eq]
  split
  · exact ⟨f, file?_eq_some.2 found, Nat.le_refl _⟩
  split
  · rename_i files made
    by_cases apart : goal other = goal path
    · obtain ⟨before, after⟩ := file_overwritten found apart made
      refine ⟨_, file?_eq_some.2 after, ?_⟩
      rw [before, ByteArray.size_append]
      exact Nat.le_add_right _ _
    · exact ⟨f, file?_eq_some.2 (file_edit (spares_overwrite _) apart found (write_eq _ ▸ made)),
        Nat.le_refl _⟩
  · exact ⟨f, file?_eq_some.2 found, Nat.le_refl _⟩

end Host

end VideoExport
