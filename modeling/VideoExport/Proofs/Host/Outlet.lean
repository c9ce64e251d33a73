import VideoExport.Proofs.Host.Walk

/-!
# Files that are written into a directory

Once a directory is there, files that are written into it under names of their own do not meet: each is
found at a place of its own (`FileTree.Opens.locate_child`), and whether it can be written does not depend
on the others. `base.Grown places u`: the tree `u` has what `base` has, but for files at the places.
-/

set_option autoImplicit false

namespace VideoExport

namespace Path

/-- A name that an entry of a directory can have. -/
structure IsEntry (name : String) : Prop extends IsName name where
  notParent : name ≠ ".."

/-- A name without slashes that does not begin with a dot is that of an entry. -/
theorem isEntry_of_letter {name : String} {c : Char} {rest : List Char} (letters : name.toList = c :: rest)
    (letter : c ≠ '.') (plain : '/' ∉ name.toList) : IsEntry name := by
  have other {text : String} (begins : text.toList.head? ≠ some c) : name ≠ text := by
    rintro rfl
    exact begins (by rw [letters]; rfl)
  have dotted {text : List Char} (begins : text.head? = some '.') : text.head? ≠ some c :=
    fun same => letter (Option.some.inj (same.symm.trans begins))
  exact ⟨⟨other nofun, other (dotted rfl), plain⟩, other (dotted rfl)⟩

theorem root_ofString (s : String) :
    (ofString s).root = "" ∨ ∃ rest, (ofString s).toString.toList = '/' :: rest := by
  have absolute {root : String} {parts : List String} {rest : List Char}
      (h : root.toList = '/' :: rest) : ∃ rest, (toString ⟨root, parts⟩).toList = '/' :: rest := by
    have nonempty : root.isEmpty = false := by
      rw [Bool.eq_false_iff]
      intro he
      rw [String.isEmpty_iff.1 he] at h
      cases h
    unfold toString
    dsimp only
    rw [nonempty, Bool.false_and, if_neg Bool.false_ne_true, String.toList_append, h]
    exact ⟨_, rfl⟩
  have cases (l : List Char) : rootOf l = "" ∨ rootOf l = "/" ∨ rootOf l = "//" := by
    unfold rootOf
    split <;> simp
  unfold ofString
  rcases cases s.toList with h | h | h <;> rw [h]
  · exact .inl rfl
  · exact .inr (absolute (show "/".toList = ['/'] from rfl))
  · exact .inr (absolute (show "//".toList = ['/', '/'] from rfl))

end Path

namespace FileTree

open VideoExport.Path

variable {t u base : FileTree} {places : List (List String)} {p d : List String} {D : Path}
  {name path : String} {content : ByteArray}

theorem isDirectory_iff : t.isDirectory path = true ↔
    ∃ names, t.locate path = .ok ⟨names, some .directory⟩ := by
  unfold isDirectory node
  rcases t.locate path with fault | ⟨names, _ | _ | f⟩ <;> simp [bind, Except.bind, pure, Except.pure,
    throw, throwThe, MonadExceptOf.throw]

/-- A directory is found at a path as long as the directories stand through which the path leads. -/
theorem isDirectory_of_standing
    (stand : ∀ p ∈ trail path, t.lookup p = some .directory → u.lookup p = some .directory)
    (h : t.isDirectory path = true) : u.isDirectory path = true := by
  obtain ⟨names, hl⟩ := isDirectory_iff.1 h
  refine isDirectory_iff.2 ⟨names, ?_⟩
  rw [← hl]
  refine locate_congr fun p hp => ?_
  have passed := follow_directories (locate_ok.1 hl).2 rfl p hp
  rw [passed]
  exact stand p hp passed

/-! ## An open directory -/

/-- A path leads to a directory through names. -/
structure Opens (t : FileTree) (D : Path) (d : List String) : Prop where
  root : D.root = ""
  names : ∀ name ∈ D.parts, IsName name
  leads : t.follow [] D.parts = .ok ⟨d, some .directory⟩

theorem opens_of_isDirectory {s : String} (h : t.isDirectory (ofString s).toString = true) :
    ∃ d, t.Opens (ofString s) d := by
  obtain ⟨d, hd⟩ := isDirectory_iff.1 h
  obtain ⟨⟨-, -, relative⟩, hd⟩ := locate_ok.1 hd
  have root : (ofString s).root = "" := by
    refine (root_ofString s).resolve_right ?_
    rintro ⟨rest, hr⟩
    refine relative ?_
    unfold namesOf
    rw [hr, splitSlashes, if_pos rfl]
    rfl
  have names : ∀ name ∈ (ofString s).parts, IsName name := fun _ => isName_of_ofString
  refine ⟨d, root, names, ?_⟩
  generalize ofString s = D at root names hd
  obtain ⟨_, parts⟩ := D
  cases root
  by_cases empty : parts = []
  · cases empty
    -- the path of no names is written as a dot, which leads nowhere else
    exact hd
  · rwa [show namesOf _ = parts from splitSlashes_toString empty names] at hd

/-- A path is longer than any that leads somewhere, or its name is. -/
def tooLong (p : Path) : Bool := pathLimit < p.toString.utf8ByteSize || nameLimit < p.name.utf8ByteSize

theorem namesOf_child (root : D.root = "") (names : ∀ name ∈ D.parts, IsName name)
    (hn : IsName name) : namesOf (D.child name).toString = D.parts ++ [name] := by
  rw [child_name D hn, root]
  refine splitSlashes_toString (by simp) fun n h => ?_
  rcases List.mem_append.1 h with h | h
  · exact names n h
  · exact List.mem_singleton.1 h ▸ hn

theorem step_entry (hn : IsEntry name) : step d name = d ++ [name] := by
  unfold step
  simp [hn.nonempty, hn.notDot, hn.notParent]

theorem halt?_entry (hn : IsEntry name) :
    halt? d name = if nameLimit < name.utf8ByteSize then some .nameTooLong else none := by
  unfold halt?
  simp [hn.nonempty, hn.notDot, hn.notParent]

namespace Opens

theorem goal_child (h : t.Opens D d) (hn : IsEntry name) : goal (D.child name).toString = d ++ [name] := by
  unfold goal
  rw [namesOf_child h.root h.names hn.toIsName, List.foldl_concat, ← follow_names h.leads]
  exact step_entry hn

/-- What is found under a name in the directory. -/
theorem locate_child (h : t.Opens D d) (hn : IsEntry name) : t.locate (D.child name).toString =
    if tooLong (D.child name) then .error .nameTooLong
    else .ok ⟨d ++ [name], t.lookup (d ++ [name])⟩ := by
  have names := namesOf_child h.root h.names hn.toIsName
  have filled : (D.child name).toString ≠ "" := by
    intro he
    have : [""] = D.parts ++ [name] := by
      rw [← names, he]
      rfl
    have := congrArg List.getLast? this
    rw [List.getLast?_concat] at this
    exact hn.nonempty (Option.some.inj this).symm
  have relative : (namesOf (D.child name).toString).head? ≠ some "" := by
    rw [names]
    cases hp : D.parts with
    | nil => exact fun he => hn.nonempty (Option.some.inj he)
    | cons first rest =>
      exact fun he => (h.names first (hp ▸ .head _)).nonempty (Option.some.inj he)
  have last : (D.child name).name = name := by
    rw [child_name D hn.toIsName]
    show (D.parts ++ [name]).getLastD "" = name
    simp
  have here : t.lookup d = some .directory := (follow_node h.leads).symm
  rw [locate_eq, if_neg filled, if_neg relative, names, follow_append h.leads rfl, follow_cons, here,
    halt?_entry hn, step_entry hn]
  unfold tooLong
  rw [last]
  by_cases long : pathLimit < (D.child name).toString.utf8ByteSize
  · simp [long]
  · by_cases long' : nameLimit < name.utf8ByteSize
    · simp [long, long']
    · simp [long, long', follow]

end Opens

/-! ## Files in the directory -/

/-- The file that stands in place of a node when octets are written there. -/
def rewritten (n : Option FileNode) (content : ByteArray) : Except FileFault StoredFile :=
  match n with
  | some .directory => .error .isDirectory
  | some (.file f) => .ok { f with content }
  | none => .ok { content }

theorem Opens.write_child (h : t.Opens D d) (hn : IsEntry name) (content : ByteArray) :
    t.write (D.child name).toString content = if tooLong (D.child name) then .error .nameTooLong else
      (rewritten (t.lookup (d ++ [name])) content).map fun f => t.put (d ++ [name]) (.file f) := by
  unfold write
  rw [h.locate_child hn]
  split
  · rfl
  · rcases t.lookup (d ++ [name]) with _ | _ | f <;> rfl

/-- The octets of the file that a path leads to, if it leads to one. -/
def octets (t : FileTree) (path : String) : Option ByteArray := (t.file path).toOption.map (·.content)

/-- The octets of a node that is a file. -/
def octetsAt : Option FileNode → Option ByteArray
  | some (.file f) => some f.content
  | _ => none

theorem Opens.octets_child (h : t.Opens D d) (hn : IsEntry name) :
    t.octets (D.child name).toString =
      if tooLong (D.child name) then none else octetsAt (t.lookup (d ++ [name])) := by
  unfold octets file node
  rw [h.locate_child hn]
  split
  · rfl
  · rcases t.lookup (d ++ [name]) with _ | _ | f <;> rfl

/-- `u` has what `base` has, but for files at certain places. -/
structure Grown (base : FileTree) (places : List (List String)) (u : FileTree) : Prop where
  elsewhere : ∀ p, p ∉ places → u.lookup p = base.lookup p
  directories : ∀ p, u.lookup p = some .directory ↔ base.lookup p = some .directory

namespace Grown

theorem refl (base : FileTree) (places : List (List String)) : base.Grown places base :=
  ⟨fun _ _ => rfl, fun _ => .rfl⟩

/-- The tree with a file more, at one of the places. -/
theorem put (h : base.Grown places u) (hp : p ∈ places) (free : u.lookup p ≠ some .directory)
    (f : StoredFile) : base.Grown places (u.put p (.file f)) where
  elsewhere q hq := by
    rw [lookup_put_ne (ne_of_mem_of_not_mem hp hq).symm]
    exact h.elsewhere q hq
  directories q := by
    rw [← h.directories q]
    by_cases hq : q = p
    · have inner : p ≠ [] := by
        rintro rfl
        exact free (lookup_nil u)
      rw [hq, lookup_put_self inner]
      exact ⟨nofun, fun he => absurd he free⟩
    · rw [lookup_put_ne hq]

theorem opens (h : base.Grown places u) (hd : base.Opens D d) : u.Opens D d where
  root := hd.root
  names := hd.names
  leads := by
    rw [← hd.leads]
    refine follow_congr fun p hp => ?_
    have passed := follow_directories hd.leads rfl p hp
    rw [passed]
    exact (h.directories p).2 passed

theorem isDirectory (h : base.Grown places u) (dir : base.isDirectory path = true) :
    u.isDirectory path = true :=
  isDirectory_of_standing (fun p _ => (h.directories p).2) dir

end Grown

/-- A directory that was made is there. -/
theorem isDirectory_of_makeDirectory (h : t.makeDirectory path = .ok u) :
    u.isDirectory path = true := by
  unfold makeDirectory at h
  rcases hl : t.locate path with _ | ⟨names, _ | node⟩ <;> rw [hl] at h <;> cases h
  exact isDirectory_iff.2 ⟨_, locate_put .directory hl nofun⟩

theorem makeDirectory_of_isDirectory (h : t.isDirectory path = true) :
    t.makeDirectory path = .error .exists := by
  obtain ⟨names, hl⟩ := isDirectory_iff.1 h
  unfold makeDirectory
  rw [hl]
  rfl

end FileTree

namespace Host

variable {path : String} {f : FileTree → Except FileFault FileTree} {h h' : Host} {p : Path}

/-! ## Work on files -/

/-- Only files change. -/
def onlyFiles : Evolution Host where
  Holds h h' := h' = { h with files := h'.files }
  refl _ := rfl
  trans h₁ h₂ := by rw [h₂, h₁]

/-- The files are the same. -/
def SameFiles (h h' : Host) : Prop := h.files = h'.files

theorem change_eq (h : Host) : (change path f).run h =
    if hasNull path then (.raised .nullCharacter, h)
    else match f h.files with
      | .ok files => (.returned (), { h with files })
      | .error fault => (.raised (.file fault path), h) := rfl

theorem follows_change : (change path f).Follows onlyFiles := by
  intro h
  rw [change_eq]
  split
  · rfl
  · split <;> rfl

theorem agrees_change : (change path f).Agrees SameFiles (change path f) := by
  intro h h' same
  rw [change_eq, change_eq, show h.files = h'.files from same]
  split
  · exact ⟨rfl, same⟩
  · split
    · exact ⟨rfl, rfl⟩
    · exact ⟨rfl, same⟩

/-- A temporary directory is made under a name that is counted, or no file changes. -/
theorem makeTemporary_cases {o : Outcome Path} (ran : makeTemporary.run h = (o, h')) :
    h'.temporaries = h.temporaries + 1 ∧
      ((o = .returned (.ofString (temporaryName h'.temporaries)) ∧
          h.files.makeDirectory (temporaryName h'.temporaries) = .ok h'.files) ∨
        ((∀ p, o ≠ .returned p) ∧ h'.files = h.files)) := by
  obtain ⟨_, _, first, ran⟩ := Action.bind_total ran ⟨_, _, rfl⟩
  cases first
  obtain ⟨_, _, second, ran⟩ := Action.bind_total ran ⟨_, _, rfl⟩
  cases second
  rcases Action.bind_eq ran with ⟨_, t, made, ran⟩ | ⟨f, made, rfl⟩ | ⟨made, rfl⟩ <;>
    rw [change_eq] at made <;> split at made
  · cases made
  · split at made
    · rename_i files hf
      cases made
      cases ran
      exact ⟨rfl, .inl ⟨rfl, hf⟩⟩
    · cases made
  · cases made
    exact ⟨rfl, .inr ⟨nofun, rfl⟩⟩
  · split at made <;> cases made
    exact ⟨rfl, .inr ⟨nofun, rfl⟩⟩
  · cases made
  · split at made <;> cases made

theorem follows_makeDirectories : ∀ (fuel : Nat) (p : Path),
    (makeDirectories p fuel).Follows onlyFiles
  | 0, _ => .pure _
  | fuel + 1, p => by
    have accepted (f : Failure) : (do
        let h ← Action.get
        if f.isSystem && h.files.isDirectory p.toString then Pure.pure () else Action.raise f :
        Action Host Unit).Follows onlyFiles := .bind .get fun _ => .ite (.pure _) (.raise _)
    unfold makeDirectories
    refine .bind follows_change.attempt fun o => ?_
    split
    · exact .pure _
    · refine .ite (.raise _) (.bind (follows_makeDirectories fuel _) fun _ =>
        .bind follows_change.attempt fun o => ?_)
      split
      · exact .pure _
      · exact accepted _
    · exact accepted _

theorem agrees_makeDirectories : ∀ (fuel : Nat) (p : Path),
    (makeDirectories p fuel).Agrees SameFiles (makeDirectories p fuel)
  | 0, _ => .pure _
  | fuel + 1, p => by
    have accepted (f : Failure) : (do
        let h ← Action.get
        if f.isSystem && h.files.isDirectory p.toString then Pure.pure () else Action.raise f :
        Action Host Unit).Agrees SameFiles (do
        let h ← Action.get
        if f.isSystem && h.files.isDirectory p.toString then Pure.pure () else Action.raise f) := by
      refine .get_bind fun h h' same => ?_
      rw [show h.files = h'.files from same]
      exact .ite (.pure _) (.raise _)
    unfold makeDirectories
    refine .bind agrees_change.attempt fun o => ?_
    split
    · exact .pure _
    · refine .ite (.raise _) (.bind (agrees_makeDirectories fuel _) fun _ =>
        .bind agrees_change.attempt fun o => ?_)
      split
      · exact .pure _
      · exact accepted _
    · exact accepted _

/-- What becomes of making a directory on one host becomes of it on every host with the same files. -/
theorem ensureDirectory_of_files {t u : FileTree} {o : Outcome Unit}
    (made : (ensureDirectory p).run { files := t } = (o, { files := u }))
    (same : h.files = t) : (ensureDirectory p).run h = (o, { h with files := u }) := by
  have files : SameFiles { files := t } h := same.symm
  obtain ⟨ends, after⟩ := (agrees_makeDirectories _ _).run_eq files
  change ((ensureDirectory p).run _).1 = ((ensureDirectory p).run h).1 at ends
  change SameFiles ((ensureDirectory p).run _).2 ((ensureDirectory p).run h).2 at after
  have only : ((ensureDirectory p).run h).2 =
      { h with files := ((ensureDirectory p).run h).2.files } := follows_makeDirectories _ _ h
  rw [made] at ends after
  refine Prod.ext ends.symm ?_
  rw [only, ← show u = ((ensureDirectory p).run h).2.files from after]

/-- A directory is there once it has been made. -/
theorem isDirectory_of_ensureDirectory
    (made : (ensureDirectory p).run h = (.returned (), h')) :
    h'.files.isDirectory p.toString = true ∧ hasNull p.toString = false := by
  have changed {h h' : Host}
      (ran : (change p.toString (·.makeDirectory p.toString)).run h = (.returned (), h')) :
      h'.files.isDirectory p.toString = true ∧ hasNull p.toString = false := by
    rw [change_eq] at ran
    split at ran
    · cases ran
    · rename_i plain
      split at ran
      · rename_i files hf
        cases ran
        exact ⟨FileTree.isDirectory_of_makeDirectory hf, Bool.not_eq_true _ ▸ plain⟩
      · cases ran
  -- a failure is accepted only if it is one of the file system, and the directory is there
  have accepted {f : Failure} {h i h' : Host}
      (ran : (change p.toString (·.makeDirectory p.toString)).run h = (.raised f, i))
      (accept : (if f.isSystem && i.files.isDirectory p.toString then Pure.pure () else .raise f :
        Action Host Unit).run i = (.returned (), h')) :
      h'.files.isDirectory p.toString = true ∧ hasNull p.toString = false := by
    split at accept
    · rename_i there
      rw [Bool.and_eq_true] at there
      cases accept
      refine ⟨there.2, ?_⟩
      rw [change_eq] at ran
      split at ran
      · cases ran
        cases there.1
      · exact Bool.not_eq_true _ ▸ ‹_›
    · cases accept
  unfold ensureDirectory makeDirectories at made
  obtain ⟨o, i, first, made⟩ := Action.bind_returned made
  split at made
  · cases made
    exact changed (Action.attempt_ok.1 first)
  · split at made
    · cases made
    · obtain ⟨_, _, -, made⟩ := Action.bind_returned made
      obtain ⟨o, i, second, made⟩ := Action.bind_returned made
      split at made
      · cases made
        exact changed (Action.attempt_ok.1 second)
      · exact accepted (Action.attempt_error.1 second) made
  · exact accepted (Action.attempt_error.1 first) made

/-- A directory that is there is left alone. -/
theorem ensureDirectory_of_isDirectory (there : h.files.isDirectory p.toString = true)
    (plain : hasNull p.toString = false) : (ensureDirectory p).run h = (.returned (), h) := by
  have refused : (change p.toString (·.makeDirectory p.toString)).run h =
      (.raised (.file .exists p.toString), h) := by
    rw [change_eq, plain, FileTree.makeDirectory_of_isDirectory there]
    rfl
  unfold ensureDirectory makeDirectories
  rw [Action.run_bind_of_returned (Action.attempt_error.2 refused)]
  show (if _ then _ else _ : Action Host Unit).run h = _
  rw [there]
  rfl

/-! ## Writing into a directory -/

section
variable {base : FileTree} {places : List (List String)} {D : Path} {d : List String} {name : String}

open FileTree VideoExport.Path

/-- A file is written into an open directory at its own place. How that ends, and what stands there then,
depends on what stood there before. -/
theorem writeFile_child (opens : base.Opens D d) (hn : IsEntry name) (mem : d ++ [name] ∈ places)
    (content : ByteArray) (n : Option FileNode) : ∃ o n', ∀ h : Host, base.Grown places h.files →
      h.files.lookup (d ++ [name]) = n → ∃ u,
        (writeFile (D.child name).toString content).run h = (o, { h with files := u }) ∧
        base.Grown places u ∧ u.lookup (d ++ [name]) = n' ∧
        ∀ p, p ≠ d ++ [name] → u.lookup p = h.files.lookup p := by
  have inner : d ++ [name] ≠ [] := List.append_ne_nil_of_right_ne_nil _ (List.cons_ne_nil _ _)
  have ran {h : Host} (grown : base.Grown places h.files) (here : h.files.lookup (d ++ [name]) = n) :
      (writeFile (D.child name).toString content).run h =
        if hasNull (D.child name).toString then (.raised .nullCharacter, h)
        else match (if tooLong (D.child name) then .error .nameTooLong else
          (rewritten n content).map fun f => h.files.put (d ++ [name]) (.file f) :
            Except FileFault FileTree) with
          | .ok files => (.returned (), { h with files })
          | .error fault => (.raised (.file fault (D.child name).toString), h) := by
    rw [writeFile, change_eq, (grown.opens opens).write_child hn, here]
  -- a write that fails leaves everything as it is
  have stays (f : Failure) (h : ∀ h : Host, base.Grown places h.files → h.files.lookup (d ++ [name]) = n →
      (writeFile (D.child name).toString content).run h = (.raised f, h)) : ∃ o n', ∀ h : Host,
        base.Grown places h.files → h.files.lookup (d ++ [name]) = n → ∃ u,
          (writeFile (D.child name).toString content).run h = (o, { h with files := u }) ∧
          base.Grown places u ∧ u.lookup (d ++ [name]) = n' ∧
          ∀ p, p ≠ d ++ [name] → u.lookup p = h.files.lookup p :=
    ⟨.raised f, n, fun i grown here => ⟨i.files, h i grown here, grown, here, fun _ _ => rfl⟩⟩
  by_cases null : hasNull (D.child name).toString = true
  · exact stays .nullCharacter fun h grown here => by rw [ran grown here, if_pos null]
  by_cases long : tooLong (D.child name) = true
  · refine stays (.file .nameTooLong (D.child name).toString) fun h grown here => ?_
    rw [ran grown here, if_neg null, if_pos long]
  cases hf : rewritten n content with
  | error fault =>
    refine stays (.file fault (D.child name).toString) fun h grown here => ?_
    rw [ran grown here, if_neg null, if_neg long, hf]
    rfl
  | ok f =>
    refine ⟨.returned (), some (.file f), fun h grown here => ⟨h.files.put (d ++ [name]) (.file f), ?_,
      grown.put mem ?_ f, lookup_put_self inner, fun p hp => lookup_put_ne hp⟩⟩
    · rw [ran grown here, if_neg null, if_neg long, hf]
      rfl
    · rw [here]
      rintro rfl
      cases hf

end

end Host

end VideoExport
