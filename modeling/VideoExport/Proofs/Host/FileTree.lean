import VideoExport.Proofs.Host
import VideoExport.Proofs.Lookup

/-!
# Files that are written

What a path leads to after a change of the tree. Following a path passes through directories only, so
a node that is put where none stood is not on the way to itself (`FileTree.follow_put`), and a file
that was written is there with its content (`Host.writeFile_returned`). `Host.keepsFile path`: the
file that the path leads to stays, or there stays to be none.
-/

set_option autoImplicit false

namespace VideoExport

namespace FileTree

variable {t t' : FileTree} {names at' : List String} {node : FileNode} {place : Place}

theorem lookup_nil (t : FileTree) : t.lookup [] = some .directory := if_pos rfl

theorem lookup_put_self (h : names ≠ []) : (t.put names node).lookup names = some node := by
  unfold lookup put
  rw [if_neg h]
  exact lookup_replaced.trans (if_pos rfl)

theorem lookup_put_ne (h : at' ≠ names) : (t.put names node).lookup at' = t.lookup at' := by
  unfold lookup put
  rw [show List.lookup at' (_ ++ [(names, node)]) = _ from lookup_replaced, if_neg h]

/-! ## Following a path -/

/-- The place to which a name leads from a place. -/
def step (at' : List String) (name : String) : List String :=
  if name = "" || name = "." then at' else if name = ".." then at'.dropLast else at' ++ [name]

/-- What keeps a name from leading on from a directory. -/
def halt? (at' : List String) (name : String) : Option FileFault :=
  if name = "" || name = "." then none
  else if name = ".." then if at' = [] then some .notFound else none
  else if nameLimit < name.utf8ByteSize then some .nameTooLong else none

/-- The names between the slashes of a path's text. -/
def namesOf (path : String) : List String := (Path.splitSlashes path.toList).map String.ofList

section
variable {name path : String} {rest : List String}

theorem follow_cons : t.follow at' (name :: rest) =
    match t.lookup at' with
    | none => .error .notFound
    | some (.file _) => .error .notDirectory
    | some .directory => match halt? at' name with
      | some fault => .error fault
      | none => t.follow (step at' name) rest := by
  rw [follow]
  unfold halt? step
  rcases t.lookup at' with _ | (_ | _)
  · rfl
  · dsimp only
    split
    · rfl
    · split
      · split <;> rfl
      · split <;> rfl
  · rfl

/-- A path that leads somewhere passes a directory, from which its first name leads on. -/
theorem follow_cons_ok (h : t.follow at' (name :: rest) = .ok place) :
    t.lookup at' = some .directory ∧ halt? at' name = none ∧
      t.follow (step at' name) rest = .ok place := by
  rw [follow_cons] at h
  split at h
  · cases h
  · cases h
  · split at h
    · cases h
    · exact ⟨‹_›, ‹_›, h⟩

/-- The node of a place is what stands under its names. -/
theorem follow_node : ∀ {names at' : List String}, t.follow at' names = .ok place →
    place.node = t.lookup place.names
  | [], _, h => by
    cases h
    rfl
  | _ :: _, _, h => follow_node (follow_cons_ok h).2.2

/-- A node that is put at a place where there was no directory is where the path leads to. -/
theorem follow_put (node : FileNode) : ∀ {names at' : List String},
    t.follow at' names = .ok place → place.node ≠ some .directory →
    (t.put place.names node).follow at' names = .ok ⟨place.names, some node⟩
  | [], at', h, hd => by
    cases h
    have : at' ≠ [] := by
      rintro rfl
      exact hd (lookup_nil t)
    show Except.ok (⟨at', _⟩ : Place) = _
    rw [lookup_put_self this]
  | name :: rest, at', h, hd => by
    obtain ⟨here, on, leads⟩ := follow_cons_ok h
    have passed : at' ≠ place.names := by
      rintro rfl
      exact hd ((follow_node h).trans here)
    rw [follow_cons, lookup_put_ne passed, here]
    dsimp only
    rw [on]
    exact follow_put node leads hd

/-- The text of a path that is followed from the root of the tree. -/
structure Walkable (path : String) : Prop where
  nonempty : path ≠ ""
  short : path.utf8ByteSize ≤ pathLimit
  relative : (namesOf path).head? ≠ some ""

theorem locate_eq (t : FileTree) (path : String) : t.locate path =
    if path = "" then .error .notFound
    else if pathLimit < path.utf8ByteSize then .error .nameTooLong
    else if (namesOf path).head? = some "" then .error .notFound
    else t.follow [] (namesOf path) := by
  unfold locate namesOf
  dsimp only
  split
  · rfl
  · split
    · rfl
    · split
      · rename_i h
        rw [h]
        rfl
      · rename_i h
        rw [if_neg]
        intro he
        obtain ⟨rest, hn⟩ := List.head?_eq_some_iff.1 he
        exact h rest hn

/-- A path leads somewhere if its text is followed and its names lead there. -/
theorem locate_ok :
    t.locate path = .ok place ↔ Walkable path ∧ t.follow [] (namesOf path) = .ok place := by
  rw [locate_eq]
  constructor
  · intro h
    split at h
    · cases h
    split at h
    · cases h
    split at h
    · cases h
    exact ⟨⟨‹_›, Nat.le_of_not_lt ‹_›, ‹_›⟩, h⟩
  · rintro ⟨walkable, leads⟩
    rw [if_neg walkable.nonempty, if_neg (Nat.not_lt.2 walkable.short), if_neg walkable.relative, leads]

theorem locate_put (node : FileNode) (h : t.locate path = .ok place)
    (hd : place.node ≠ some .directory) :
    (t.put place.names node).locate path = .ok ⟨place.names, some node⟩ := by
  obtain ⟨walkable, leads⟩ := locate_ok.1 h
  exact locate_ok.2 ⟨walkable, follow_put node leads hd⟩

end

/-- A file that was written is there, with its content. -/
theorem file_of_write {path : String} {content : ByteArray} (h : t.write path content = .ok t') :
    ∃ f, t'.file path = .ok f ∧ f.content = content := by
  unfold write at h
  rcases hp : t.locate path with _ | place <;> rw [hp] at h
  · cases h
  · have written (f : StoredFile) (hd : place.node ≠ some .directory) :
        (t.put place.names (.file f)).file path = .ok f := by
      have located := locate_put (.file f) hp hd
      show ((FileTree.node _ path) >>= _) = _
      unfold FileTree.node
      rw [located]
      rfl
    obtain ⟨names, node⟩ := place
    rcases node with _ | _ | f
    · cases h
      exact ⟨_, written _ nofun, rfl⟩
    · cases h
    · cases h
      exact ⟨_, written _ nofun, rfl⟩

end FileTree

namespace Host

/-- The file that a path leads to, if there is one. -/
def file? (h : Host) (path : String) : Option StoredFile := (h.files.file path).toOption

/-- The file that a path leads to stays as it is, or there stays to be none. -/
def keepsFile (path : String) : HostFrame where
  Holds h h' := h'.file? path = h.file? path
  refl _ := rfl
  trans h₁ h₂ := h₂.trans h₁
  of_files h := by
    unfold file?
    rw [h]

/-- What is read is what the file holds, and reading changes nothing. -/
theorem readFile_returned {path : String} {content : ByteArray} {h h' : Host}
    (hr : (readFile path).run h = (.returned content, h')) :
    h' = h ∧ ∃ f, h.file? path = some f ∧ f.content = content := by
  change (ask path fun t => (t.file path).map (·.content)) h = _ at hr
  unfold ask at hr
  split at hr
  · cases hr
  · unfold file?
    dsimp only at hr
    cases hf : h.files.file path with
    | error fault =>
      rw [hf] at hr
      cases hr
    | ok f =>
      rw [hf] at hr
      cases hr
      exact ⟨rfl, f, rfl, rfl⟩

theorem writeFile_returned {path : String} {content : ByteArray} {h h' : Host}
    (hw : (writeFile path content).run h = (.returned (), h')) :
    ∃ f, h'.file? path = some f ∧ f.content = content := by
  change (change path (·.write path content)) h = _ at hw
  unfold change at hw
  split at hw
  · cases hw
  · split at hw
    · rename_i files hf
      cases hw
      obtain ⟨f, found, hc⟩ := FileTree.file_of_write hf
      exact ⟨f, by unfold file?; rw [found]; rfl, hc⟩
    · cases hw

end Host

end VideoExport
