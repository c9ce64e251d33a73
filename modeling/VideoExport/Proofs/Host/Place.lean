import VideoExport.Proofs.Host.Outlet

/-!
# Work at the place of a path

A path leads to one place (`FileTree.goal`), through places that its text alone determines
(`FileTree.trail`); a name more leads one step further (`FileTree.goal_child`). Reading, writing and
removing a file are work at this place: nothing changes elsewhere, and what comes of it depends only on
what stands there and on the way (`Host.ActsAt`).
-/

set_option autoImplicit false

namespace VideoExport

namespace Path

/-- A path such as a text is read as: its root consists of slashes, and its names are such as a path can
have. -/
structure Plain (p : Path) : Prop where
  root : ∀ c ∈ p.root.toList, c = '/'
  names : ∀ name ∈ p.parts, IsName name

theorem plain_ofString (s : String) : (ofString s).Plain where
  root := by
    unfold ofString rootOf
    split <;> simp
  names _ := isName_of_ofString

theorem Plain.child {p : Path} {name : String} (h : p.Plain) (hn : IsName name) :
    (p.child name).Plain where
  root := by
    rw [child_name p hn]
    exact h.root
  names n mem := by
    rw [child_name p hn] at mem
    rcases List.mem_append.1 mem with mem | mem
    · exact h.names n mem
    · exact List.mem_singleton.1 mem ▸ hn

end Path

namespace FileTree

open VideoExport.Path

variable {t u : FileTree} {names p : List String} {D : Path} {name path : String}

/-! ## Paths with a name more -/

/-- A name that does not lead on. -/
def Blank (name : String) : Prop := name = "" ∨ name = "."

theorem step_blank {at' : List String} (h : Blank name) : step at' name = at' := by
  unfold step
  rw [if_pos]
  rcases h with rfl | rfl <;> rfl

theorem splitSlashes_slashes {s : List Char} : ∀ {root : List Char}, (∀ c ∈ root, c = '/') →
    splitSlashes (root ++ s) = List.replicate root.length [] ++ splitSlashes s
  | [], _ => rfl
  | c :: root, h => by
    rw [h c (.head _), List.cons_append, splitSlashes, if_pos rfl,
      splitSlashes_slashes fun d hd => h d (.tail _ hd)]
    rfl

/-- Besides the names of a path there are only such between the slashes of its text that do not lead
on. -/
theorem namesOf_toString (h : D.Plain) :
    ∃ blanks, namesOf D.toString = blanks ++ D.parts ∧ ∀ b ∈ blanks, Blank b := by
  obtain ⟨root, parts⟩ := D
  have slashes (s : String) : namesOf (root ++ s) = List.replicate root.length "" ++ namesOf s := by
    unfold namesOf
    rw [String.toList_append, splitSlashes_slashes h.root, List.map_append, List.map_replicate,
      String.length_toList]
  have blank : ∀ b ∈ List.replicate root.length "", Blank b := fun b mem =>
    .inl (List.eq_of_mem_replicate mem)
  by_cases filled : parts = []
  · subst filled
    by_cases relative : root = ""
    · subst relative
      exact ⟨["."], rfl, fun b mem => .inr (List.mem_singleton.1 mem)⟩
    · have text : (⟨root, []⟩ : Path).toString = root ++ "" := by simp [Path.toString, relative]
      refine ⟨List.replicate root.length "" ++ [""], ?_, fun b mem => ?_⟩
      · rw [text, slashes, List.append_nil]
        rfl
      · rcases List.mem_append.1 mem with mem | mem
        · exact blank b mem
        · exact .inl (List.mem_singleton.1 mem)
  · have text : (⟨root, parts⟩ : Path).toString = root ++ (⟨"", parts⟩ : Path).toString := by
      simp [Path.toString, filled]
    refine ⟨List.replicate root.length "", ?_, blank⟩
    rw [text, slashes]
    exact congrArg _ (splitSlashes_toString filled h.names)

theorem foldl_blanks : ∀ {blanks : List String}, (∀ b ∈ blanks, Blank b) →
    blanks.foldl step p = p
  | [], _ => rfl
  | b :: blanks, h => by
    rw [List.foldl_cons, step_blank (h b (.head _)), foldl_blanks fun c hc => h c (.tail _ hc)]

theorem scanl_blanks {q : List String} : ∀ {blanks : List String}, (∀ b ∈ blanks, Blank b) →
    (q ∈ (blanks ++ names).scanl step p ↔ q ∈ names.scanl step p)
  | [], _ => .rfl
  | b :: blanks, h => by
    have here : p ∈ names.scanl step p := by cases names <;> simp
    rw [List.cons_append, List.scanl_cons, step_blank (h b (.head _)), List.mem_cons,
      scanl_blanks fun c hc => h c (.tail _ hc)]
    exact ⟨fun mem => mem.elim (fun same => same ▸ here) id, .inr⟩

theorem mem_scanl_concat {q : List String} : ∀ {names p : List String},
    q ∈ (names ++ [name]).scanl step p ↔ q ∈ names.scanl step p ∨ q = step (names.foldl step p) name
  | [], p => by simp
  | n :: names, p => by
    rw [List.cons_append, List.scanl_cons, List.scanl_cons, List.mem_cons, List.mem_cons,
      mem_scanl_concat, List.foldl_cons, or_assoc]

theorem goal_toString (h : D.Plain) : goal D.toString = D.parts.foldl step [] := by
  obtain ⟨blanks, text, blank⟩ := namesOf_toString h
  rw [goal, text, List.foldl_append, foldl_blanks blank]

theorem mem_trail_toString (h : D.Plain) : p ∈ trail D.toString ↔ p ∈ D.parts.scanl step [] := by
  obtain ⟨blanks, text, blank⟩ := namesOf_toString h
  rw [trail, text, scanl_blanks blank]

/-- A name leads one step further. -/
theorem goal_child (h : D.Plain) (hn : IsName name) :
    goal (D.child name).toString = step (goal D.toString) name := by
  rw [goal_toString (h.child hn), goal_toString h, child_name D hn, List.foldl_concat]

theorem mem_trail_child (h : D.Plain) (hn : IsName name) :
    p ∈ trail (D.child name).toString ↔ p ∈ trail D.toString ∨ p = step (goal D.toString) name := by
  rw [mem_trail_toString (h.child hn), mem_trail_toString h, goal_toString h, child_name D hn,
    mem_scanl_concat]

/-! ## Changes at a place -/

theorem locate_names {place : Place} (h : t.locate path = .ok place) : place.names = goal path :=
  follow_names (locate_ok.1 h).2

theorem locate_node {place : Place} (h : t.locate path = .ok place) :
    place.node = t.lookup place.names := follow_node (locate_ok.1 h).2

/-- Puts a node under a list of names, or takes away what stands there. -/
def assign (t : FileTree) (names : List String) : Option FileNode → FileTree
  | some node => t.put names node
  | none => t.erase names

theorem lookup_assign {node : Option FileNode} (inner : names ≠ []) :
    (t.assign names node).lookup p = if p = names then node else t.lookup p := by
  split
  · rename_i same
    subst same
    cases node with
    | some node => exact lookup_put_self inner
    | none =>
      unfold assign erase lookup
      rw [if_neg inner]
      exact lookup_removed
  · rename_i other
    cases node with
    | some node => exact lookup_put_ne other
    | none =>
      unfold assign erase lookup
      split
      · rfl
      · exact lookup_kept other

/-- A change of what stands at the place of a path. -/
def edit (t : FileTree) (path : String)
    (change : Option FileNode → Except FileFault (Option FileNode)) : Except FileFault FileTree :=
  match t.locate path with
  | .error fault => .error fault
  | .ok place => (change place.node).map (t.assign place.names)

/-- What becomes of a node when octets are written in its place. -/
def overwrite (content : ByteArray) : Option FileNode → Except FileFault (Option FileNode)
  | some .directory => .error .isDirectory
  | some (.file f) => .ok (some (.file { f with content }))
  | none => .ok (some (.file { content }))

/-- What becomes of a node when it is removed as a file. -/
def remove : Option FileNode → Except FileFault (Option FileNode)
  | some .directory => .error .isDirectory
  | some (.file _) => .ok none
  | none => .error .notFound

theorem write_eq (content : ByteArray) : t.write path content = t.edit path (overwrite content) := by
  unfold write edit
  rcases t.locate path with _ | ⟨_, _ | _ | _⟩ <;> rfl

theorem unlink_eq : t.unlink path = t.edit path remove := by
  unfold unlink edit
  rcases t.locate path with _ | ⟨_, _ | _ | _⟩ <;> rfl

/-- A change spares directories. -/
def Spares (change : Option FileNode → Except FileFault (Option FileNode)) : Prop :=
  ∃ fault, change (some .directory) = .error fault

theorem spares_overwrite (content : ByteArray) : Spares (overwrite content) := ⟨_, rfl⟩

theorem spares_remove : Spares remove := ⟨_, rfl⟩

section
variable {change : Option FileNode → Except FileFault (Option FileNode)} {place : Place}
  {node : Option FileNode}

/-- Where a change is made, there is no directory. -/
theorem Spares.inner (spares : Spares change) (located : t.locate path = .ok place)
    (made : change place.node = .ok node) : place.names ≠ [] := by
  intro top
  obtain ⟨fault, refused⟩ := spares
  rw [locate_node located, top, lookup_nil, refused] at made
  cases made

/-- What a change makes of a tree, in terms of what stood at the place. -/
theorem edit_ok (spares : Spares change) (h : t.edit path change = .ok u) :
    ∃ node, change (t.lookup (goal path)) = .ok node ∧
      ∀ p, u.lookup p = if p = goal path then node else t.lookup p := by
  unfold edit at h
  cases located : t.locate path with
  | error fault =>
    rw [located] at h
    cases h
  | ok place =>
    rw [located] at h
    cases made : change place.node with
    | error fault =>
      simp [made, Except.map] at h
    | ok node =>
      simp only [made, Except.map, Except.ok.injEq] at h
      subst h
      rw [← locate_names located, ← locate_node located]
      exact ⟨node, made, fun p => lookup_assign (spares.inner located made)⟩

/-- What a change makes of the place depends only on what stands there and on the way. -/
theorem edit_congr (spares : Spares change) (same : ∀ p ∈ trail path, t.lookup p = u.lookup p) :
    (∃ fault, t.edit path change = .error fault ∧ u.edit path change = .error fault) ∨
    ∃ t' u', t.edit path change = .ok t' ∧ u.edit path change = .ok u' ∧
      t'.lookup (goal path) = u'.lookup (goal path) := by
  unfold edit
  rw [← locate_congr same]
  cases located : t.locate path with
  | error fault => exact .inl ⟨fault, rfl, rfl⟩
  | ok place =>
    cases made : change place.node with
    | error fault => exact .inl ⟨fault, by simp [made, Except.map], by simp [made, Except.map]⟩
    | ok node =>
      have inner := spares.inner located made
      refine .inr ⟨t.assign place.names node, u.assign place.names node, by simp [made, Except.map],
        by simp [made, Except.map], ?_⟩
      rw [← locate_names located, lookup_assign inner, lookup_assign inner, if_pos rfl, if_pos rfl]

end

end FileTree

/-! ## Work on files -/

namespace Host

open FileTree

variable {α : Type} {path : String} {x : Action Host α} {way : List (List String)}
  {place : List String}

/-- Nothing changes but what stands at a place. How the work ends, and what it makes of the place, depends
only on what stands there and on the way. -/
structure ActsAt (x : Action Host α) (way : List (List String)) (place : List String) : Prop where
  only : x.Follows onlyFiles
  elsewhere : ∀ h p, p ≠ place → (x.run h).2.files.lookup p = h.files.lookup p
  depends : ∀ h h', (∀ p ∈ way, h.files.lookup p = h'.files.lookup p) →
    h.files.lookup place = h'.files.lookup place → (x.run h).1 = (x.run h').1 ∧
      (x.run h).2.files.lookup place = (x.run h').2.files.lookup place

/-- Work that changes nothing acts at any place. -/
theorem ActsAt.of_still (still : x.Follows .still)
    (depends : ∀ h h', (∀ p ∈ way, h.files.lookup p = h'.files.lookup p) →
      h.files.lookup place = h'.files.lookup place → (x.run h).1 = (x.run h').1) :
    ActsAt x way place where
  only := still.of_still
  elsewhere h p _ := by rw [show (x.run h).2 = h from still h]
  depends h h' same here := by
    rw [show (x.run h).2 = h from still h, show (x.run h').2 = h' from still h']
    exact ⟨depends h h' same here, here⟩

theorem actsAt_change {change : Option FileNode → Except FileFault (Option FileNode)}
    (spares : Spares change) :
    ActsAt (Host.change path (·.edit path change)) (trail path) (goal path) where
  only := follows_change
  elsewhere h p other := by
    rw [change_eq]
    split
    · rfl
    · split
      · rename_i files hf
        obtain ⟨node, -, after⟩ := edit_ok spares hf
        rw [after, if_neg other]
      · rfl
  depends h h' same here := by
    rw [change_eq, change_eq]
    split
    · exact ⟨rfl, here⟩
    · obtain ⟨fault, ht, hu⟩ | ⟨t, u, ht, hu, after⟩ := edit_congr spares same <;> rw [ht, hu]
      · exact ⟨rfl, here⟩
      · exact ⟨rfl, after⟩

theorem actsAt_writeFile (path : String) (content : ByteArray) :
    ActsAt (writeFile path content) (trail path) (goal path) := by
  unfold writeFile
  simp only [write_eq]
  exact actsAt_change (spares_overwrite content)

theorem actsAt_unlink (path : String) : ActsAt (unlink path) (trail path) (goal path) := by
  unfold unlink
  simp only [unlink_eq]
  exact actsAt_change spares_remove

theorem actsAt_readFile (path : String) : ActsAt (readFile path) (trail path) (goal path) := by
  refine .of_still (still_ask _ _) fun h h' same _ => ?_
  have file := file_congr (locate_congr same)
  show (readFile path h).1 = (readFile path h').1
  unfold readFile ask
  dsimp only
  rw [file]
  split
  · rfl
  · split <;> rfl

theorem actsAt_pathExists (path : String) : ActsAt (pathExists path) (trail path) (goal path) := by
  refine .of_still (still_pathExists _) fun h h' same _ => ?_
  have node : h.files.node path = h'.files.node path := by
    unfold FileTree.node
    rw [locate_congr same]
  show (pathExists path h).1 = (pathExists path h').1
  unfold pathExists
  rw [node]
  split
  · rfl
  · split <;> rfl

end Host

end VideoExport
