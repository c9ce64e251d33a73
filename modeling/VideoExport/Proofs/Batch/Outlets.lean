import Mathlib.Logic.Function.Basic
import VideoExport.Proofs.Batch.Names
import VideoExport.Proofs.Job.Twin

/-!
# The files of a batch

Where a batch writes, and what it reads besides. What stands in place of one output is told apart from
what stands in place of the others (`Keeps`), so that what an item finds and leaves does not depend on
the other items.
-/

set_option autoImplicit false

namespace VideoExport.Batch

open FileTree VideoExport.Path

/-- The path of the file that is made of an item. -/
def outputOf (directory : Path) (item : QueueItem) : Path := directory.child item.outputName

/-- The files that the job of an item reads: its source and the image. -/
def Reads (attachments : Attachments) (item : QueueItem) (m : MediaFile) : Prop :=
  m = item.source ∨ attachments.image = some m

/-- Trees of files as they come up in a batch. `Stage N t`: in the tree `t`, `N` says what stands under
the names of outputs, as far as they can be told. What an item reads, what becomes of its output, and
what is found there depends on what stands under its own name alone. -/
structure Keeps (Stage : (String → Option FileNode) → FileTree → Prop) (directory : Path)
    (attachments : Attachments) (items : List QueueItem) : Prop where
  save : ∀ x ∈ items, ∀ content n, ∃ o n', ∀ N (h : Host), Stage N h.files → N x.outputName = n →
    ∃ u, (Job.save (outputOf directory x) content).run h = (o, { h with files := u }) ∧
      Stage (Function.update N x.outputName n') u
  reads : ∀ x ∈ items, ∀ m, Reads attachments x m → ∀ N N' t u, Stage N t → Stage N' u →
    N x.outputName = N' x.outputName → t.file m.path.toString = u.file m.path.toString
  octets : ∀ x ∈ items, ∀ N N' t u, Stage N t → Stage N' u → N x.outputName = N' x.outputName →
    t.octets (outputOf directory x).toString = u.octets (outputOf directory x).toString

/-- Files with which items can be kept apart: whoever asks for the output directory gets the same
answer as the first to ask, which changes nothing that an item reads or finds in place of its output, and
nothing that an item reads is, or is reached through, the output of another. -/
structure Separable (t₀ : FileTree) (directory : String) (attachments : Attachments)
    (items : List QueueItem) (o : Outcome Unit) (t₁ : FileTree) : Prop where
  made : (Host.ensureDirectory (.ofString directory)).run { files := t₀ } = (o, { files := t₁ })
  again : (Host.ensureDirectory (.ofString directory)).run { files := t₁ } = (o, { files := t₁ })
  reads : ∀ x ∈ items, ∀ m, Reads attachments x m → t₁.file m.path.toString = t₀.file m.path.toString
  outputs : ∀ x ∈ items, t₁.octets (outputOf (.ofString directory) x).toString =
    t₀.octets (outputOf (.ofString directory) x).toString
  apart : ∀ x ∈ items, ∀ y ∈ items, x ≠ y → ∀ m, Reads attachments x m →
    goal (outputOf (.ofString directory) y).toString ∉ trail m.path.toString

/-- The places of the outputs. -/
def places (directory : Path) (items : List QueueItem) : List (List String) :=
  items.map fun x => goal (outputOf directory x).toString

/-- Trees of files as they come up in a batch: as in the beginning, or with the directory made, and
otherwise the same but for the outputs. -/
def Arises (t₀ : FileTree) (directory : Path) (items : List QueueItem) (t₁ u : FileTree) : Prop :=
  u = t₀ ∨ t₁.Grown (places directory items) u

variable {t₀ t₁ : FileTree} {directory : String} {attachments : Attachments} {items : List QueueItem}
  {o : Outcome Unit}

theorem save_outputOf {x : QueueItem} (enlisted : x.Enlisted) (directory : Path) (content : ByteArray) :
    Job.save (outputOf directory x) content = (do
      Host.ensureDirectory directory
      Host.writeFile (outputOf directory x).toString content) := by
  have parent : (outputOf directory x).parent = directory :=
    parent_child directory (QueueItem.outputName_isEntry enlisted).toIsName
  unfold Job.save
  rw [parent]

/-- If the directory cannot be made, no output is ever written. -/
theorem Separable.keeps_unmade (h : Separable t₀ directory attachments items o t₁)
    (enlisted : ∀ x ∈ items, x.Enlisted) (failed : o ≠ .returned ()) :
    Keeps (fun _ u => u = t₀ ∨ u = t₁) (.ofString directory) attachments items where
  save x hx content n := by
    refine ⟨o, n, fun N g staged _ => ⟨t₁, ?_, .inr rfl⟩⟩
    have asked : (Host.ensureDirectory (.ofString directory)).run g = (o, { g with files := t₁ }) :=
      staged.elim (Host.ensureDirectory_of_files h.made) (Host.ensureDirectory_of_files h.again)
    rw [save_outputOf (enlisted x hx), Action.run_bind, asked]
    match o with
    | .returned () => exact absurd rfl failed
    | .raised _ => rfl
    | .stalled => rfl
  reads x hx m hm _ _ t u ht hu _ := by
    have same := h.reads x hx m hm
    rcases ht with rfl | rfl <;> rcases hu with rfl | rfl
    exacts [rfl, same.symm, same, rfl]
  octets x hx _ _ t u ht hu _ := by
    have same := h.outputs x hx
    rcases ht with rfl | rfl <;> rcases hu with rfl | rfl
    exacts [rfl, same.symm, same, rfl]

/-- In the tree `u`, or once the directory is made if `u` is the tree at the beginning, `N` is what stands
under the names of outputs in the directory. -/
def Stands (t₀ t₁ : FileTree) (directory : Path) (items : List QueueItem) (d : List String)
    (N : String → Option FileNode) (u : FileTree) : Prop :=
  ∃ u', (u = t₀ ∧ u' = t₁ ∨ u = u') ∧ t₁.Grown (places directory items) u' ∧
    ∀ x ∈ items, u'.lookup (d ++ [x.outputName]) = N x.outputName

section
variable (h : Separable t₀ directory attachments items (.returned ()) t₁) {d : List String}
  {x : QueueItem} {N N' : String → Option FileNode} {t u : FileTree}
include h

/-- An output is written at its place, whatever stands under the other names. -/
theorem Separable.stands_save (enlisted : x.Enlisted) (opens : t₁.Opens (.ofString directory) d)
    (hx : x ∈ items) (content : ByteArray) (n : Option FileNode) : ∃ o n', ∀ N (g : Host),
      Stands t₀ t₁ (.ofString directory) items d N g.files → N x.outputName = n → ∃ u,
        (Job.save (outputOf (.ofString directory) x) content).run g = (o, { g with files := u }) ∧
        Stands t₀ t₁ (.ofString directory) items d (Function.update N x.outputName n') u := by
  obtain ⟨there, plain⟩ := Host.isDirectory_of_ensureDirectory h.made
  have entry : IsEntry x.outputName := QueueItem.outputName_isEntry enlisted
  have mem : d ++ [x.outputName] ∈ places (.ofString directory) items :=
    List.mem_map.2 ⟨x, hx, opens.goal_child entry⟩
  obtain ⟨o, n', writes⟩ := Host.writeFile_child opens entry mem content n
  refine ⟨o, n', fun N g ⟨u, from_, grown, standing⟩ here => ?_⟩
  have asked : (Host.ensureDirectory (.ofString directory)).run g =
      (.returned (), { g with files := u }) := by
    rcases from_ with ⟨hg, rfl⟩ | rfl
    · exact Host.ensureDirectory_of_files h.made hg
    · exact Host.ensureDirectory_of_isDirectory (grown.isDirectory there) plain
  obtain ⟨u', ran, grown', written, others⟩ :=
    writes { g with files := u } grown ((standing x hx).trans here)
  refine ⟨u', ?_, u', .inr rfl, grown', fun y hy => ?_⟩
  · rw [save_outputOf enlisted, Action.run_bind_of_returned asked]
    exact ran
  · by_cases hn : y.outputName = x.outputName
    · rw [hn, Function.update_self]
      exact written
    · rw [Function.update_of_ne hn, others _ (by simpa using hn)]
      exact standing y hy

/-- What an item reads is as it is once the directory is made. -/
theorem Separable.stands_file (hx : x ∈ items) {m : MediaFile} (hm : Reads attachments x m)
    (hu : Stands t₀ t₁ (.ofString directory) items d N u) :
    ∃ u', t₁.Grown (places (.ofString directory) items) u' ∧
      u'.lookup (d ++ [x.outputName]) = N x.outputName ∧
      u.file m.path.toString = u'.file m.path.toString := by
  obtain ⟨u', from_, grown, standing⟩ := hu
  refine ⟨u', grown, standing x hx, ?_⟩
  rcases from_ with ⟨rfl, rfl⟩ | rfl
  · exact (h.reads x hx m hm).symm
  · rfl

/-- What an item reads depends on what stands under its own name alone. -/
theorem Separable.stands_reads (enlisted : x.Enlisted) (opens : t₁.Opens (.ofString directory) d)
    (hx : x ∈ items) {m : MediaFile} (hm : Reads attachments x m)
    (ht : Stands t₀ t₁ (.ofString directory) items d N t)
    (hu : Stands t₀ t₁ (.ofString directory) items d N' u)
    (same : N x.outputName = N' x.outputName) : t.file m.path.toString = u.file m.path.toString := by
  obtain ⟨t', grown, here, ht⟩ := h.stands_file hx hm ht
  obtain ⟨u', grown', here', hu⟩ := h.stands_file hx hm hu
  rw [ht, hu]
  refine file_congr (locate_congr fun p hp => ?_)
  by_cases output : p ∈ places (.ofString directory) items
  · obtain ⟨y, hy, rfl⟩ := List.mem_map.1 output
    by_cases other : x = y
    · subst other
      rw [show goal (outputOf _ _).toString = _ from
        opens.goal_child (QueueItem.outputName_isEntry enlisted), here, here', same]
    · exact absurd hp (h.apart x hx y hy other m hm)
  · rw [grown.elsewhere p output, grown'.elsewhere p output]

/-- What is found in place of an output is what stands under its name, unless that is too long. -/
theorem Separable.stands_octets (enlisted : x.Enlisted) (opens : t₁.Opens (.ofString directory) d)
    (hx : x ∈ items) (hu : Stands t₀ t₁ (.ofString directory) items d N u) :
    u.octets (outputOf (.ofString directory) x).toString =
      if tooLong (outputOf (.ofString directory) x) then none else octetsAt (N x.outputName) := by
  obtain ⟨u', from_, grown, standing⟩ := hu
  rw [← standing x hx]
  refine .trans ?_ ((grown.opens opens).octets_child (QueueItem.outputName_isEntry enlisted))
  rcases from_ with ⟨rfl, rfl⟩ | rfl
  · exact (h.outputs x hx).symm
  · rfl

/-- If the directory can be made, every output is written at a place of its own. -/
theorem Separable.keeps_made (enlisted : ∀ x ∈ items, x.Enlisted) :
    ∃ d, t₁.Opens (.ofString directory) d ∧
      Keeps (Stands t₀ t₁ (.ofString directory) items d) (.ofString directory) attachments items := by
  obtain ⟨d, opens⟩ := opens_of_isDirectory (Host.isDirectory_of_ensureDirectory h.made).1
  refine ⟨d, opens, ⟨fun x hx => h.stands_save (enlisted x hx) opens hx, fun x hx m hm N N' t u ht hu =>
    h.stands_reads (enlisted x hx) opens hx hm ht hu, fun x hx N N' t u ht hu same => ?_⟩⟩
  rw [h.stands_octets (enlisted x hx) opens hx ht, h.stands_octets (enlisted x hx) opens hx hu, same]

end

/-- Files with which items can be kept apart are told apart through a whole batch. -/
theorem Separable.exists_stage (h : Separable t₀ directory attachments items o t₁)
    (enlisted : ∀ x ∈ items, x.Enlisted) : ∃ Stage N,
      Keeps Stage (.ofString directory) attachments items ∧ Stage N t₀ ∧
      ∀ N u, Stage N u → Arises t₀ (.ofString directory) items t₁ u := by
  by_cases made : o = .returned ()
  · subst made
    obtain ⟨d, -, keeps⟩ := h.keeps_made enlisted
    refine ⟨_, fun name => t₁.lookup (d ++ [name]), keeps,
      ⟨t₁, .inl ⟨rfl, rfl⟩, .refl _ _, fun _ _ => rfl⟩, fun N u ⟨u', from_, grown, _⟩ => ?_⟩
    rcases from_ with ⟨first, -⟩ | later
    · exact .inl first
    · rw [later]
      exact .inr grown
  · exact ⟨_, fun _ => none, h.keeps_unmade enlisted made, .inl rfl,
      fun _ u from_ => from_.imp_right fun same => by
        rw [same]
        exact .refl _ _⟩

end VideoExport.Batch
