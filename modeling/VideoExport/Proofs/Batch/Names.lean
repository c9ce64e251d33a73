import VideoExport.Batch
import VideoExport.Proofs.Command
import VideoExport.Proofs.Engine.Entries
import VideoExport.Proofs.Host.Outlet
import VideoExport.Proofs.Job.Names

/-!
# Names in a batch

Identifiers of items are short texts of hexadecimal digits, all of one length (`IsItemId`). So the
entries of one item's job have other names than those of another's (`JobNames.Bears.unique`), and so have
the files that are made of the items (`QueueItem.outputName_inj`). Whatever the files of a job are called, a
loaded local engine accepts the names of its entries (`JobNames.apart_and_accepted`).
-/

set_option autoImplicit false

namespace VideoExport

/-! ## Identifiers -/

/-- The digits of a hexadecimal number. -/
def smallDigits : List Char := "0123456789abcdef".toList

/-- The text of an item's identifier. -/
structure IsItemId (id : String) : Prop where
  length : id.toList.length = itemIdDigits
  digits : ∀ c ∈ id.toList, c ∈ smallDigits

/-- The identifiers that are laid down are hexadecimal numbers. -/
def Host.Hexadecimal (h : Host) : Prop :=
  ∀ s ∈ h.identifiers, ∀ c ∈ s.toList, c ∈ smallDigits ++ "ABCDEF".toList

namespace Host

theorem fullIdentifier_toList (s : String) : (fullIdentifier s).toList =
    s.toList.map Char.toLower ++ List.replicate (identifierDigits - s.length) '0' := by
  simp [fullIdentifier, Binary64.zeros, String.toList_append]

theorem length_of_full (s : String) :
    (String.ofList ((fullIdentifier s).toList.take itemIdDigits)).toList.length = itemIdDigits := by
  rw [String.toList_ofList, fullIdentifier_toList, List.length_take, List.length_append,
    List.length_map, List.length_replicate, String.length_toList]
  unfold itemIdDigits identifierDigits
  omega

theorem isItemId_of_full {s : String} (h : ∀ c ∈ s.toList, c.toLower ∈ smallDigits) :
    IsItemId (String.ofList ((fullIdentifier s).toList.take itemIdDigits)) where
  length := length_of_full s
  digits c hc := by
    rw [String.toList_ofList, fullIdentifier_toList] at hc
    rcases List.mem_append.1 (List.mem_of_mem_take hc) with hc | hc
    · obtain ⟨d, hd, rfl⟩ := List.mem_map.1 hc
      exact h d hd
    · rw [List.eq_of_mem_replicate hc]
      decide

theorem hexDigits_digits : ∀ (width n : Nat), ∀ c ∈ Text.hexDigits width n, c.toLower ∈ smallDigits
  | 0, _, _, h => absurd h List.not_mem_nil
  | width + 1, n, c, h => by
    rcases List.mem_append.1 h with h | h
    · exact hexDigits_digits width _ c h
    · rw [List.mem_singleton.1 h]
      have digit : ∀ k < 16, (Nat.digitChar k).toLower ∈ smallDigits := by decide
      exact digit _ (Nat.mod_lt _ (by decide))

/-- What is drawn for an item is an item's identifier. -/
theorem isItemId_of_drawn {h h' : Host} {id : String} (hexadecimal : h.Hexadecimal)
    (drawn : drawItemId.run h = (.returned id, h')) : IsItemId id := by
  have lower : ∀ c ∈ smallDigits ++ "ABCDEF".toList, c.toLower ∈ smallDigits :=
    List.forall_iff_forall_mem.1 (by decide)
  unfold drawItemId at drawn
  obtain ⟨full, i, hd, drawn⟩ := Action.bind_returned drawn
  cases drawn
  change drawIdentifier h = _ at hd
  unfold drawIdentifier at hd
  split at hd
  · rename_i s rest hs
    cases hd
    exact isItemId_of_full fun c hc => lower c (hexadecimal s (hs ▸ .head _) c hc)
  · have given : countedIdentifier (h.drawn + 1) = full := Outcome.returned.inj (Prod.mk.inj hd).1
    have counted : ∀ c ∈ (String.ofList (Text.hexDigits 8 (h.drawn + 1))).toList,
        c.toLower ∈ smallDigits := by
      rw [String.toList_ofList]
      exact hexDigits_digits 8 _
    rw [← given]
    exact isItemId_of_full counted

end Host

/-! ## Slashes -/

namespace Text

theorem ofNat_ne_slash {n : Nat} (other : n ≠ 47) : Char.ofNat n ≠ '/' := by
  unfold Char.ofNat
  by_cases valid : n.isValidChar
  · rw [dif_pos valid]
    exact fun slash => other (congrArg Char.toNat slash)
  · rw [dif_neg valid]
    decide

/-- No character but a slash has a slash as its lower-case form. -/
theorem lowerChar_ne_slash {c : Char} (other : c ≠ '/') : lowerChar c ≠ '/' := by
  unfold lowerChar
  split
  · rename_i r found
    have beyond : ∀ r ∈ caseRuns, 47 < (r.first : Int) + r.shift :=
      List.forall_iff_forall_mem.1 (by decide +kernel)
    have far := beyond r (List.mem_of_find?_eq_some found)
    have within := List.find?_some found
    simp only [Bool.and_eq_true, decide_eq_true_eq] at within
    exact ofNat_ne_slash (by omega)
  · exact other

theorem slash_notMem_lowerAfter : ∀ {s : List Char} (before : List Char), '/' ∉ s →
    '/' ∉ lowerAfter before s
  | [], _, _ => List.not_mem_nil
  | c :: rest, before, plain => by
    rw [List.mem_cons, not_or] at plain
    have later := slash_notMem_lowerAfter (c :: before) plain.2
    have here := lowerChar_ne_slash (Ne.symm plain.1)
    unfold lowerAfter
    dsimp only
    rw [List.mem_append, not_or]
    refine ⟨?_, later⟩
    split
    · split <;> decide
    split
    · decide
    · exact fun slash => here (List.mem_singleton.1 slash).symm

theorem slash_notMem_lower {s : String} (plain : '/' ∉ s.toList) : '/' ∉ (lower s).toList := by
  unfold lower
  rw [String.toList_ofList]
  exact slash_notMem_lowerAfter [] plain

end Text

theorem Path.name_plain (s : String) : '/' ∉ (Path.ofString s).name.toList := by
  show '/' ∉ ((Path.ofString s).parts.getLastD "").toList
  rw [List.getLastD_eq_getLast?]
  cases h : (Path.ofString s).parts.getLast? with
  | none => exact List.not_mem_nil
  | some last => exact (Path.isName_of_ofString (List.mem_of_getLast? h)).plain

theorem Path.suffix_plain (s : String) : '/' ∉ (Path.ofString s).suffix.toList := by
  unfold Path.suffix
  split
  · rw [String.toList_ofList]
    exact fun slash => name_plain s (List.mem_of_mem_drop slash)
  · exact List.not_mem_nil

theorem Path.stem_plain (s : String) : '/' ∉ (Path.ofString s).stem.toList := by
  unfold Path.stem
  split
  · rw [String.toList_ofList]
    exact fun slash => name_plain s (List.mem_of_mem_take slash)
  · exact name_plain s

/-! ## Entries -/

namespace JobNames

/-- A name that begins as those of a job's entries do, with the job's identifier. -/
def Bears (job name : String) : Prop := ∃ first ∈ ["input_", "output_", "wm_"], ∃ rest,
  name.toList = first.toList ++ (job.toList ++ rest)

variable {job job' name : String} {source source' : MediaFile} {image image' : Option MediaFile}

theorem bears_of_mem (h : name ∈ (ofJob job source image).all) : Bears job name := by
  rcases mem_all.1 h with rfl | rfl | h
  · exact ⟨"input_", by decide, _, by simp [ofJob, toString, String.toList_append]; rfl⟩
  · exact ⟨"output_", by decide, _, by simp [ofJob, toString, String.toList_append]; rfl⟩
  · obtain ⟨m, -, rfl⟩ := Option.map_eq_some_iff.1 h
    exact ⟨"wm_", by decide, _, by simp [toString, String.toList_append]; rfl⟩

/-- Where identifiers have the same length, a name bears one. -/
theorem Bears.unique (h : Bears job name) (h' : Bears job' name)
    (length : job.toList.length = job'.toList.length) : job = job' := by
  obtain ⟨first, hf, rest, hn⟩ := h
  obtain ⟨first', hf', rest', hn'⟩ := h'
  have heads := congrArg List.head? (hn.symm.trans hn')
  have same : first = first' := by
    simp only [List.mem_cons, List.not_mem_nil, or_false] at hf hf'
    rcases hf with rfl | rfl | rfl <;> rcases hf' with rfl | rfl | rfl <;>
      first
      | rfl
      | simp at heads
  subst same
  have tails := List.append_cancel_left (hn.symm.trans hn')
  exact String.toList_injective (List.append_inj_left tails length)

theorem Bears.not_isBare (h : Bears job name) : ¬ IsBare name := by
  obtain ⟨first, hf, rest, hn⟩ := h
  intro bare
  simp only [List.mem_cons, List.not_mem_nil, or_false] at hf
  rcases hf with rfl | rfl | rfl
  · exact bare 'i' (by rw [hn]; rfl) (by decide)
  · exact bare 'o' (by rw [hn]; rfl) (by decide)
  · exact bare 'w' (by rw [hn]; rfl) (by decide)

/-- The name of the font is none of an item's entries. -/
theorem not_bears_fontEntry (hid : IsItemId job) : ¬ Bears job fontEntry := by
  rintro ⟨first, hf, rest, hn⟩
  simp only [List.mem_cons, List.not_mem_nil, or_false] at hf
  rcases hf with rfl | rfl | rfl
  · cases congrArg List.head? hn
  · cases congrArg List.head? hn
  · have tail : "font.ttf".toList ++ [] = job.toList ++ rest :=
      List.append_cancel_left
        (show "wm_".toList ++ ("font.ttf".toList ++ []) = "wm_".toList ++ (job.toList ++ rest) from hn)
    have whole : "font.ttf".toList = job.toList := List.append_inj_left tail (by rw [hid.length]; rfl)
    exact absurd (hid.digits 'o' (by rw [← whole]; decide)) (by decide)

/-- A name that begins like those of a job's entries is no dot and no double dot. -/
theorem Bears.isEntry (bears : Bears job name) (plain : '/' ∉ name.toList) : Path.IsEntry name := by
  obtain ⟨first, hf, rest, hn⟩ := bears
  have long {text : String} (short : text.toList.length < 3) : name ≠ text := by
    rintro rfl
    rw [hn, List.length_append] at short
    simp only [List.mem_cons, List.not_mem_nil, or_false] at hf
    rcases hf with rfl | rfl | rfl <;> simp at short <;> omega
  exact ⟨⟨long (by decide), long (by decide), plain⟩, long (by decide)⟩

/-- The names of an item's job are those of entries. -/
theorem isEntry_of_mem (id : IsItemId job) (read : ∃ s, source.path = .ofString s)
    (mem : name ∈ (ofJob job source image).all) : Path.IsEntry name := by
  refine (bears_of_mem mem).isEntry ?_
  have digits : '/' ∉ job.toList := fun slash => absurd (id.digits _ slash) (by decide)
  obtain ⟨s, hs⟩ := read
  rcases mem_all.1 mem with rfl | rfl | h
  · have suffix := Text.slash_notMem_lower (Path.suffix_plain s)
    simp [ofJob, toString, String.toList_append, digits, hs, suffix]
  · simp [ofJob, toString, String.toList_append, digits]
  · obtain ⟨m, -, rfl⟩ := Option.map_eq_some_iff.1 h
    have extension : '/' ∉ m.imageExtension.toList := by
      have known := m.imageExtension_mem
      simp only [List.mem_cons, List.not_mem_nil, or_false] at known
      rcases known with h | h | h | h <;> rw [h] <;> decide
    simp [toString, String.toList_append, digits, extension]

theorem disjoint_all (id : IsItemId job) (id' : IsItemId job') (other : job ≠ job') :
    List.Disjoint (ofJob job source image).all (ofJob job' source' image').all := fun _ mem mem' =>
  other ((bears_of_mem mem).unique (bears_of_mem mem') (id.length.trans id'.length.symm))

/-- For whatever files, a job has a name for each of its entries, none of which is that of the font or of
an entry of another item's job. A loaded local engine accepts each, and finds it in its directory. -/
theorem apart_and_accepted (text text' type type' : String) (image image' : Option MediaFile)
    (id : IsItemId job) (id' : IsItemId job') (other : job ≠ job') :
    (ofJob job ⟨.ofString text, type⟩ image).all.Nodup ∧
    List.Disjoint (ofJob job ⟨.ofString text, type⟩ image).all
      (ofJob job' ⟨.ofString text', type'⟩ image').all ∧
    fontEntry ∉ (ofJob job ⟨.ofString text, type⟩ image).all ∧
    ∀ name ∈ (ofJob job ⟨.ofString text, type⟩ image).all, Path.IsEntry name ∧
      ∀ {setup : LocalSetup} {steps : List (EngineStep LocalEngine)} {w : World LocalEngine},
        LocalEngine.Lived setup steps w → w.engine.loaded = true →
          ∃ D, w.engine.directory = some D ∧
            (LocalEngine.entryPath name).run w = (.returned (D.child name).toString, w) := by
  refine ⟨ofJob_nodup, disjoint_all id id' other, fontEntry_notMem, fun name mem => ?_⟩
  have entry := isEntry_of_mem id ⟨text, rfl⟩ mem
  refine ⟨entry, fun life loaded => ?_⟩
  obtain ⟨-, D, directory⟩ := life.standing.of_loaded loaded
  exact ⟨_, directory, LocalEngine.entryPath_named directory entry.toIsName⟩

/-- Two items with the same source, whose suffix is in capitals, and with the same image. -/
theorem apart_and_accepted_clips :
    (ofJob "0000000a" ⟨.ofString "clips/Über uns.ÖGG", ""⟩ (some ⟨.ofString "logo", "image/webp"⟩)).all =
      ["input_0000000a.ögg", "output_0000000a.mp4", "wm_0000000a.webp"] ∧
    List.Disjoint ["input_0000000a.ögg", "output_0000000a.mp4", "wm_0000000a.webp"]
      (ofJob "0000000b" ⟨.ofString "clips/Über uns.ÖGG", ""⟩ (some ⟨.ofString "logo", "image/webp"⟩)).all ∧
    (LocalEngine.entryPath "input_0000000a.ögg").run LocalEngine.nestedLoad.after =
      (.returned "out/work/input_0000000a.ögg", LocalEngine.nestedLoad.after) := by
  have names : (ofJob "0000000a" ⟨.ofString "clips/Über uns.ÖGG", ""⟩
      (some ⟨.ofString "logo", "image/webp"⟩)).all =
        ["input_0000000a.ögg", "output_0000000a.mp4", "wm_0000000a.webp"] := by decide +kernel
  have id : IsItemId "0000000a" := ⟨rfl, List.forall_iff_forall_mem.1 (by decide)⟩
  have id' : IsItemId "0000000b" := ⟨rfl, List.forall_iff_forall_mem.1 (by decide)⟩
  obtain ⟨-, apart, -, accepted⟩ := apart_and_accepted "clips/Über uns.ÖGG" "clips/Über uns.ÖGG" "" ""
    (some ⟨.ofString "logo", "image/webp"⟩) (some ⟨.ofString "logo", "image/webp"⟩) id id' (by decide)
  rw [names] at apart accepted
  obtain ⟨D, directory, ran⟩ :=
    (accepted "input_0000000a.ögg" (by decide)).2 LocalEngine.nestedLoad_lived rfl
  cases directory
  exact ⟨names, apart, ran⟩

end JobNames

/-! ## Outputs -/

namespace QueueItem

variable {x y : QueueItem}

/-- An item as it is added to a queue: its source is found by a path that was written, and its identifier
was drawn. -/
structure Enlisted (x : QueueItem) : Prop where
  source : ∃ s, x.source.path = .ofString s
  id : ∃ h h' : Host, h.Hexadecimal ∧ Host.drawItemId.run h = (.returned x.id, h')

theorem Enlisted.isItemId (h : x.Enlisted) : IsItemId x.id := by
  obtain ⟨_, _, hexadecimal, drawn⟩ := h.id
  exact Host.isItemId_of_drawn hexadecimal drawn

theorem outputName_toList (x : QueueItem) : x.outputName.toList =
    "processed_".toList ++ (x.id.toList ++ ('_' :: (x.source.path.stem.toList ++ ".mp4".toList))) := by
  simp [outputName, toString, String.toList_append]

theorem outputName_isEntry (h : x.Enlisted) : Path.IsEntry x.outputName := by
  have letters := x.outputName_toList
  refine Path.isEntry_of_letter letters (by decide) fun slash => ?_
  rw [letters] at slash
  obtain ⟨s, hs⟩ := h.source
  rcases List.mem_append.1 slash with slash | slash
  · exact absurd slash (by decide)
  rcases List.mem_append.1 slash with slash | slash
  · exact absurd (h.isItemId.digits _ slash) (by decide)
  rcases List.mem_cons.1 slash with slash | slash
  · exact absurd slash (by decide)
  rcases List.mem_append.1 slash with slash | slash
  · exact Path.stem_plain s (hs ▸ slash)
  · exact absurd slash (by decide)

/-- Where identifiers have the same length, the files of different items have different names. -/
theorem outputName_inj (length : x.id.toList.length = y.id.toList.length)
    (h : x.outputName = y.outputName) : x.id = y.id := by
  have letters := congrArg String.toList h
  rw [outputName_toList, outputName_toList] at letters
  exact String.toList_injective (List.append_inj_left (List.append_cancel_left letters) length)

end QueueItem

end VideoExport
