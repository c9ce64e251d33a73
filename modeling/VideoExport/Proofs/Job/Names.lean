import VideoExport.Job.Run

/-!
# The names of a job

The entries of a job have names of their own: none is empty, no two are the same, and none is that of
the font.
-/

set_option autoImplicit false

namespace VideoExport

namespace MediaFile

theorem imageExtension_mem (m : MediaFile) :
    m.imageExtension ∈ ["png", "jpg", "webp", "gif"] := by
  unfold imageExtension
  split
  · rename_i found h
    have hm := List.mem_of_find?_eq_some h
    simp only [imageExtensions, List.mem_cons, List.not_mem_nil, or_false, Prod.mk.injEq] at hm
    rcases hm with ⟨-, rfl⟩ | ⟨-, rfl⟩ | ⟨-, rfl⟩ | ⟨-, rfl⟩ | ⟨-, rfl⟩ <;> simp
  · simp [defaultExtension]

end MediaFile

namespace JobNames

section
variable (job : String) (source : MediaFile) (image : Option MediaFile)

theorem input_toList : ∃ rest, (ofJob job source image).input.toList = 'i' :: rest := by
  simp [ofJob, toString, String.toList_append]

theorem output_toList : ∃ rest, (ofJob job source image).output.toList = 'o' :: rest := by
  simp [ofJob, toString, String.toList_append]

end

variable {job : String} {source : MediaFile} {image : Option MediaFile}

theorem image_toList {name : String} (h : (ofJob job source image).image = some name) :
    ∃ rest, name.toList = 'w' :: rest := by
  obtain ⟨m, -, rfl⟩ := Option.map_eq_some_iff.1 h
  simp [toString, String.toList_append]

theorem mem_all {names : JobNames} {name : String} :
    name ∈ names.all ↔ name = names.input ∨ name = names.output ∨ names.image = some name := by
  simp [all]

/-- The names under which the files of a job are staged. -/
def staged (n : JobNames) : List String := n.input :: n.image.toList

theorem mem_all_of_staged {names : JobNames} {name : String} (h : name ∈ names.staged) :
    name ∈ names.all := by
  simp only [staged, List.mem_cons, Option.mem_toList] at h
  exact mem_all.2 (h.elim .inl fun h => .inr (.inr h))

theorem ofJob_nonempty {name : String} (h : name ∈ (ofJob job source image).all) :
    name.isEmpty = false := by
  have hne : ∃ c rest, name.toList = c :: rest := by
    rcases mem_all.1 h with rfl | rfl | h
    · exact ⟨_, input_toList _ _ _⟩
    · exact ⟨_, output_toList _ _ _⟩
    · exact ⟨_, image_toList h⟩
  obtain ⟨c, rest, hc⟩ := hne
  rw [Bool.eq_false_iff]
  intro he
  rw [String.isEmpty_iff.1 he] at hc
  cases hc

/-- No entry of a job has the name of the font. -/
theorem fontEntry_notMem : fontEntry ∉ (ofJob job source image).all := by
  intro h
  rcases mem_all.1 h with h | h | h
  · obtain ⟨rest, hr⟩ := input_toList job source image
    rw [← h] at hr
    simp [fontEntry] at hr
  · obtain ⟨rest, hr⟩ := output_toList job source image
    rw [← h] at hr
    simp [fontEntry] at hr
  · obtain ⟨m, -, he⟩ := Option.map_eq_some_iff.1 h
    -- the extension of an image is never that of the font
    replace he := congrArg (fun s => s.toList.reverse) he
    have hm := m.imageExtension_mem
    generalize m.imageExtension = ext at he hm
    simp only [List.mem_cons, List.not_mem_nil, or_false] at hm
    rcases hm with rfl | rfl | rfl | rfl <;>
      simp [fontEntry, toString, String.toList_append] at he

/-- The names of a job are distinct. -/
theorem ofJob_nodup : (ofJob job source image).all.Nodup := by
  obtain ⟨a, ha⟩ := input_toList job source image
  obtain ⟨b, hb⟩ := output_toList job source image
  have hio : (ofJob job source image).input ≠ (ofJob job source image).output := by
    intro h
    rw [h, hb] at ha
    cases ha
  unfold all
  cases hi : (ofJob job source image).image with
  | none => simpa using hio
  | some name =>
    obtain ⟨c, hc⟩ := image_toList hi
    have hin : (ofJob job source image).input ≠ name := by
      rintro rfl
      rw [hc] at ha
      cases ha
    have hon : (ofJob job source image).output ≠ name := by
      rintro rfl
      rw [hc] at hb
      cases hb
    simp [hio, hin, hon]

/-- No file is staged under the name of the output. -/
theorem output_notMem_staged :
    (ofJob job source image).output ∉ (ofJob job source image).staged := by
  have nodup : (ofJob job source image).all.Nodup := ofJob_nodup
  simp only [all, List.cons_append, List.nil_append, List.nodup_cons, List.mem_cons, not_or] at nodup
  simp only [staged, List.mem_cons, not_or]
  exact ⟨fun h => nodup.1.1 h.symm, nodup.2.1⟩

end JobNames

namespace Job

variable {r : JobRequest} {s : Settings}

theorem namesOf_nodup : (namesOf r s).all.Nodup := JobNames.ofJob_nodup

theorem namesOf_nonempty : ∀ n ∈ (namesOf r s).all, n.isEmpty = false := fun _ h =>
  JobNames.ofJob_nonempty h

theorem fontEntry_notMem_namesOf : fontEntry ∉ (namesOf r s).all := JobNames.fontEntry_notMem

end Job

end VideoExport
