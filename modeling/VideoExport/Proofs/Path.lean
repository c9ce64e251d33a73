import VideoExport.Text.Path

/-!
# The names of a path

Reading a path takes its text apart at the slashes, and writing it puts them back: the names between the
slashes of a relative path's text are the path's own (`Path.splitSlashes_toString`), if each is one that a
path can have (`Path.IsName`), as those that are read are (`Path.isName_of_ofString`).
-/

set_option autoImplicit false

namespace VideoExport.Path

/-! ## Names between slashes -/

theorem splitSlashes_of_notMem : ∀ {s : List Char}, '/' ∉ s → splitSlashes s = [s]
  | [], _ => rfl
  | c :: s, h => by
    rw [List.mem_cons, not_or] at h
    rw [splitSlashes, if_neg (Ne.symm h.1), splitSlashes_of_notMem h.2]

theorem splitSlashes_append {t : List Char} : ∀ {s : List Char}, '/' ∉ s →
    splitSlashes (s ++ '/' :: t) = s :: splitSlashes t
  | [], _ => rfl
  | c :: s, h => by
    rw [List.mem_cons, not_or] at h
    rw [List.cons_append, splitSlashes, if_neg (Ne.symm h.1), splitSlashes_append h.2]

theorem notMem_splitSlashes : ∀ {s name : List Char}, name ∈ splitSlashes s → '/' ∉ name
  | [], name, h => by
    rw [List.mem_singleton.1 h]
    exact List.not_mem_nil
  | c :: s, name, h => by
    unfold splitSlashes at h
    split at h
    · rcases List.mem_cons.1 h with rfl | h
      · exact List.not_mem_nil
      · exact notMem_splitSlashes h
    · rename_i hc
      split at h
      · rw [List.mem_singleton.1 h, List.mem_singleton]
        exact Ne.symm hc
      · rename_i first others hs
        rcases List.mem_cons.1 h with rfl | h
        · rw [List.mem_cons, not_or]
          exact ⟨Ne.symm hc, notMem_splitSlashes (hs ▸ List.mem_cons_self)⟩
        · exact notMem_splitSlashes (hs ▸ List.mem_cons_of_mem _ h)

/-- Names that are put together with slashes are found between them. -/
theorem splitSlashes_intercalate : ∀ {names : List (List Char)}, names ≠ [] →
    (∀ name ∈ names, '/' ∉ name) → splitSlashes (['/'].intercalate names) = names
  | [name], _, h => by
    rw [List.intercalate_singleton]
    exact splitSlashes_of_notMem (h name (.head _))
  | name :: other :: rest, _, h => by
    rw [List.intercalate_cons_cons, List.append_assoc, List.singleton_append,
      splitSlashes_append (h name (.head _)),
      splitSlashes_intercalate (List.cons_ne_nil _ _) fun n hn => h n (.tail _ hn)]

/-! ## Names of a path -/

/-- A name that a path can have: it is not empty, no single dot, and without slashes. -/
structure IsName (name : String) : Prop where
  nonempty : name ≠ ""
  notDot : name ≠ "."
  plain : '/' ∉ name.toList

theorem isName_of_ofString {s name : String} (h : name ∈ (ofString s).parts) : IsName name := by
  obtain ⟨chars, hc, rfl⟩ := List.mem_map.1 h
  obtain ⟨hc, kept⟩ := List.mem_filter.1 hc
  simp only [Bool.and_eq_true, Bool.not_eq_true', List.isEmpty_eq_false_iff, bne_iff_ne, ne_eq] at kept
  refine ⟨fun he => kept.1 ?_, fun he => kept.2 ?_, ?_⟩
  · rw [← String.toList_ofList (l := chars), he]
    rfl
  · rw [← String.toList_ofList (l := chars), he]
    rfl
  · rw [String.toList_ofList]
    exact notMem_splitSlashes hc

/-- A name is read as the path of this name. -/
theorem ofString_name {name : String} (h : IsName name) : ofString name = ⟨"", [name]⟩ := by
  have root : rootOf name.toList = "" := by
    unfold rootOf
    split <;> rename_i hs
    · exact absurd (hs ▸ List.mem_cons_self) h.plain
    · exact absurd (hs ▸ List.mem_cons_self) h.plain
    · exact absurd (hs ▸ List.mem_cons_self) h.plain
    · rfl
  have nonempty : name.toList ≠ [] := fun he => h.nonempty (String.toList_eq_nil_iff.1 he)
  have notDot : name.toList ≠ ['.'] := fun he => h.notDot (String.toList_injective he)
  unfold ofString
  rw [root, splitSlashes_of_notMem h.plain, List.filter_cons_of_pos (by simp [nonempty, notDot])]
  simp

theorem toString_ofString {name : String} (h : IsName name) : (ofString name).toString = name := by
  rw [ofString_name h]
  simp [toString]

theorem child_name (p : Path) {name : String} (h : IsName name) :
    p.child name = { p with parts := p.parts ++ [name] } := by
  unfold child
  rw [ofString_name h]
  rfl

theorem parent_child (p : Path) {name : String} (h : IsName name) : (p.child name).parent = p := by
  rw [child_name p h]
  unfold parent
  rw [List.dropLast_concat]

/-- The names between the slashes of a relative path's text are the path's. -/
theorem splitSlashes_toString {parts : List String} (some : parts ≠ [])
    (names : ∀ name ∈ parts, IsName name) :
    (splitSlashes (toString ⟨"", parts⟩).toList).map String.ofList = parts := by
  have written : (toString ⟨"", parts⟩).toList = ['/'].intercalate (parts.map String.toList) := by
    have : ((⟨"", parts⟩ : Path).root.isEmpty && (⟨"", parts⟩ : Path).parts.isEmpty) = false := by
      simp [some]
    unfold toString
    rw [this]
    simp
  rw [written, splitSlashes_intercalate (by simp [some]), List.map_map]
  · exact (List.map_congr_left fun _ _ => String.ofList_toList).trans (List.map_id _)
  · intro chars hc
    obtain ⟨name, hn, rfl⟩ := List.mem_map.1 hc
    exact (names name hn).plain

end VideoExport.Path
