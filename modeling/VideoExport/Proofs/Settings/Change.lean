import VideoExport.Proofs.Settings.Refusal
import VideoExport.Proofs.Settings.RoundTrip
import VideoExport.Settings.Change

/-!
# Changes field by field

A change is merged into settings under the names of their fields and sanitized with them. The entries under
names are set in place and all others follow, so the outcome is that of the settings with the changes in
place, those under names first (`Settings.value?_merged`). A sanitized field depends on nothing but what is
given for it (`Settings.ofDraft_field`), so a change touches the fields that it gives and no other. The order
of its entries is lost only for a field that is given under its key and after that under its name
(`Settings.Crossed`, `Settings.value?_uncrossed`).
-/

set_option autoImplicit false

namespace VideoExport

variable {f g : Field} {k : String} {v : Value}

/-! ## Spellings -/

namespace Field

theorem name_spells (f : Field) : ofSpelling? f.name = some f := by cases f <;> rfl

/-- A field is spelled by its name and by its key, and by nothing else. -/
theorem ofSpelling?_iff : ofSpelling? k = some f ↔ k = f.name ∨ k = f.key := by
  constructor
  · intro h
    unfold ofSpelling? at h
    rw [Option.orElse_eq_orElse, Option.orElse_eq_or] at h
    rcases Option.or_eq_some_iff.1 h with found | ⟨-, found⟩
    · have spelled := List.find?_some found
      exact .inl (of_decide_eq_true spelled).symm
    · have spelled := List.find?_some found
      exact .inr (of_decide_eq_true spelled).symm
  · rintro (rfl | rfl)
    · exact f.name_spells
    · exact f.key_spells

theorem name_injective (h : f.name = g.name) : f = g := by
  have same := f.name_spells
  rw [h, name_spells] at same
  exact (Option.some.inj same).symm

/-- Whether a key of a mapping is the name of a field. -/
def isName (k : String) : Bool := all.any fun f => f.name = k

theorem isName_iff : isName k = true ↔ ∃ f : Field, f.name = k := by
  simp [isName, mem_all]

theorem isName_name (f : Field) : isName f.name = true := isName_iff.2 ⟨f, rfl⟩

theorem isName_of_spelling (h : ofSpelling? k = some f) : isName k = true ↔ k = f.name := by
  rw [isName_iff]
  refine ⟨?_, fun own => ⟨f, own.symm⟩⟩
  rintro ⟨g, rfl⟩
  rw [name_spells] at h
  rw [Option.some.inj h]

theorem isName_key (apart : f.key ≠ f.name) : isName f.key = false :=
  Bool.eq_false_iff.2 (mt (isName_of_spelling f.key_spells).1 apart)

end Field

/-! ## Drafts -/

namespace Draft

/-- The value given last. -/
theorem value?_append (d e : Draft) (f : Field) : (d ++ e).value? f = (e.value? f).or (d.value? f) := by
  unfold value?
  rw [List.reverse_append, List.lookup_append]

theorem value?_cons (v : Value) (d : Draft) :
    value? ((g, v) :: d) f = (d.value? f).or (if f = g then some v else none) := by
  rw [← List.singleton_append, value?_append]
  congr 1
  by_cases same : f = g
  · simp [value?, same]
  · simp [value?, List.lookup_cons, beq_false_of_ne same, same]

theorem ofEntries_append (l m : List (String × Value)) : ofEntries (l ++ m) = ofEntries l ++ ofEntries m :=
  List.filterMap_append

/-- The names of a record spell its fields. -/
theorem ofEntries_entries (r : Record) : ofEntries r.entries = r.draft := rfl

end Draft

/-- The entries of a mapping that spell a field. -/
def entriesFor (m : List (String × Value)) (f : Field) : List (String × Value) :=
  m.filter fun e => Field.ofSpelling? e.1 = some f

/-- The last entry that spells a field gives its value. -/
theorem Draft.value?_ofEntries (m : List (String × Value)) (f : Field) :
    (ofEntries m).value? f = (entriesFor m f).getLast?.map Prod.snd := by
  induction m using List.reverseRecOn with
  | nil => rfl
  | append_singleton m e ih =>
    rw [ofEntries_append, value?_append, ih]
    unfold entriesFor
    rw [List.filter_append]
    by_cases spells : Field.ofSpelling? e.1 = some f
    · simp [ofEntries, spells, value?]
    · have other : (ofEntries [e]).value? f = none := by
        unfold ofEntries
        cases spelled : Field.ofSpelling? e.1 with
        | none => simp [spelled, value?]
        | some g =>
          have apart : f ≠ g := fun same => spells (by rw [spelled, same])
          simp [spelled, value?, List.lookup_cons, beq_false_of_ne apart]
      simp [other, spells]

/-! ## Merging -/

theorem Record.override_single (r : Record) (v : Value) :
    r.override [(g, v)] f = if f = g then v else r f := by
  unfold override
  rw [Draft.value?_cons]
  split_ifs <;> rfl

theorem Record.override_cons (r : Record) (v : Value) (d : Draft) :
    (r.override [(g, v)]).override d = r.override ((g, v) :: d) := by
  funext f
  show (d.value? f).getD (r.override [(g, v)] f) = (Draft.value? ((g, v) :: d) f).getD (r f)
  rw [Record.override_single, Draft.value?_cons]
  cases d.value? f with
  | none => simp only [Option.getD_none, Option.none_or]; split_ifs <;> rfl
  | some w => rfl

namespace Settings

variable {m : Changes}

/-- Setting the entry under the name of a field changes that field of a record. -/
theorem setEntry_named {fs : List Field} (distinct : fs.Nodup) (mem : g ∈ fs) (r : Record)
    (rest : List (String × Value)) (v : Value) :
    Value.setEntry (fs.map (fun f => (f.name, r f)) ++ rest) g.name v =
      fs.map (fun f => (f.name, r.override [(g, v)] f)) ++ rest := by
  induction fs with
  | nil => cases mem
  | cons f fs ih =>
    obtain ⟨apart, later⟩ := List.nodup_cons.1 distinct
    rw [List.map_cons, List.map_cons, List.cons_append, List.cons_append, Record.override_single]
    unfold Value.setEntry
    by_cases here : f = g
    · subst here
      have kept : ∀ f' ∈ fs, r.override [(f, v)] f' = r f' := fun f' mem' => by
        rw [Record.override_single, if_neg (ne_of_mem_of_not_mem mem' apart)]
      rw [if_pos rfl, if_pos rfl, List.map_congr_left fun f' mem' => by rw [← kept f' mem']]
    · have mem : g ∈ fs := (List.mem_cons.1 mem).resolve_left (Ne.symm here)
      rw [if_neg (mt Field.name_injective here), if_neg here, ih later mem]

/-- Changes with those under the names of fields before all others. -/
def namesFirst (m : Changes) : Changes :=
  (m.filter fun e => Field.isName e.1) ++ m.filter fun e => !Field.isName e.1

/-- The entries of a record are changed in place by the changes under their names; the others follow. -/
theorem merged_eq (r : Record) (others : Changes) (distinct : ((others ++ m).map Prod.fst).Nodup)
    (foreign : ∀ e ∈ others, Field.isName e.1 = false) :
    m.foldl (fun entries (k, v) => Value.setEntry entries k v) (r.entries ++ others) =
      (r.override (Draft.ofEntries (m.filter fun e => Field.isName e.1))).entries ++
        (others ++ m.filter fun e => !Field.isName e.1) := by
  induction m generalizing r others with
  | nil => rw [List.foldl_nil, List.filter_nil, List.filter_nil, List.append_nil]; rfl
  | cons e m ih =>
    obtain ⟨k, v⟩ := e
    rw [List.map_append, List.map_cons] at distinct
    have fresh : k ∉ others.map Prod.fst := fun mem =>
      (List.nodup_append.1 distinct).2.2 k mem k (.head _) rfl
    rw [List.foldl_cons]
    dsimp only
    cases named : Field.isName k with
    | true =>
      obtain ⟨g, rfl⟩ := Field.isName_iff.1 named
      have set : Value.setEntry (r.entries ++ others) g.name v = (r.override [(g, v)]).entries ++ others :=
        setEntry_named (by decide) g.mem_all r others v
      have rest : ((others ++ m).map Prod.fst).Nodup := by
        rw [List.map_append]
        exact distinct.sublist (.append_left (List.sublist_cons_self ..) _)
      rw [set, ih _ others rest foreign, Record.override_cons]
      simp [named, Draft.ofEntries, Field.name_spells]
    | false =>
      have unnamed : k ∉ r.entries.map Prod.fst := fun mem => by
        have own : ∃ f : Field, f.name = k := by simpa [Record.entries, Field.mem_all] using mem
        simp [Field.isName_iff.2 own] at named
      have set : Value.setEntry (r.entries ++ others) k v = r.entries ++ (others ++ [(k, v)]) := by
        rw [Json.setEntry_new, List.append_assoc]
        rw [List.map_append, List.mem_append]
        exact not_or.2 ⟨unnamed, fresh⟩
      rw [set, ih r (others ++ [(k, v)]) ?_ ?_]
      · simp [named]
      · simpa using distinct
      · simpa [or_imp, forall_and, named] using foreign

/-- What a change sanitizes is the record with the changes in place, those under names first. -/
theorem value?_merged (r : Record) (distinct : (m.map Prod.fst).Nodup) (f : Field) :
    (Draft.ofEntries (merged r m)).value? f =
      some (r.override (Draft.ofEntries (namesFirst m)) f) := by
  have whole := merged_eq r [] distinct nofun
  rw [List.append_nil, List.nil_append] at whole
  unfold merged namesFirst
  rw [whole, Draft.ofEntries_append, Draft.ofEntries_entries, Draft.value?_append, Record.value?_draft,
    Draft.ofEntries_append]
  unfold Record.override
  rw [Draft.value?_append]
  cases (Draft.ofEntries (m.filter fun e => !Field.isName e.1)).value? f <;> rfl

theorem update_eq (r : Record) (distinct : (m.map Prod.fst).Nodup) (hasImage : Bool) :
    update r m hasImage = sanitize (.record (r.override (Draft.ofEntries (namesFirst m)))) hasImage :=
  ofDraft_congr (fun f => (value?_merged r distinct f).trans (Record.value?_draft _ f).symm) hasImage

/-! ## Fields -/

/-- A field of sanitized settings depends on what the draft gives for that field alone. -/
theorem ofDraft_field {d d' : Draft} {hasImage : Bool} {s s' : Settings} (h : ofDraft d hasImage = .ok s)
    (h' : ofDraft d' hasImage = .ok s') (same : d.value? f = d'.value? f) : s.record f = s'.record f := by
  obtain ⟨content, hc, h⟩ := Number.bind_ok h
  obtain ⟨family, hf, h⟩ := Number.bind_ok h
  obtain ⟨content', hc', h'⟩ := Number.bind_ok h'
  obtain ⟨family', hf', h'⟩ := Number.bind_ok h'
  cases h
  cases h'
  cases f with
  | textContent => 
    unfold Draft.text at hc hc'
    rw [same] at hc
    cases hc.symm.trans hc'
    rfl
  | textFontFamily => 
    unfold Draft.text at hf hf'
    rw [same] at hf
    cases hf.symm.trans hf'
    rfl
  | _ => simp only [record, Draft.number, Draft.switch, Draft.rotation, Draft.fontStyle, Draft.color, same]

/-! ## Both spellings of a field -/

/-- A mapping that gives a field under its key and after that under its name. -/
def Crossed (m : Changes) (f : Field) : Prop :=
  f.key ≠ f.name ∧ (entriesFor m f).map Prod.fst = [f.key, f.name]

instance (m : Changes) (f : Field) : Decidable (Crossed m f) := inferInstanceAs (Decidable (_ ∧ _))

theorem entriesFor_namesFirst (m : Changes) (f : Field) :
    entriesFor (namesFirst m) f = namesFirst (entriesFor m f) := by
  unfold entriesFor namesFirst
  rw [List.filter_append, List.filter_filter, List.filter_filter, List.filter_filter, List.filter_filter]
  simp only [Bool.and_comm]

theorem spelling_of_mem {e : String × Value} (mem : e ∈ entriesFor m f) : e.1 = f.name ∨ e.1 = f.key :=
  Field.ofSpelling?_iff.1 (of_decide_eq_true (List.mem_filter.1 mem).2)

/-- The order of names and keys matters only where a field is given under its key and then its name. -/
theorem value?_uncrossed (distinct : (m.map Prod.fst).Nodup) (uncrossed : ¬ Crossed m f) :
    (Draft.ofEntries (namesFirst m)).value? f = (Draft.ofEntries m).value? f := by
  rw [Draft.value?_ofEntries, Draft.value?_ofEntries, entriesFor_namesFirst]
  have apart : ((entriesFor m f).map Prod.fst).Nodup := distinct.sublist (List.filter_sublist.map _)
  have spelling : ∀ e ∈ entriesFor m f, e.1 = f.name ∨ e.1 = f.key := fun _ => spelling_of_mem
  unfold Crossed at uncrossed
  generalize entriesFor m f = l at uncrossed apart spelling
  match l with
  | [] => rfl
  | [e] => cases named : Field.isName e.1 <;> simp [namesFirst, named]
  | [(k, v), (k', v')] =>
    have other : k ≠ k' := by simpa using apart
    obtain rfl | rfl : k = f.name ∨ k = f.key := spelling _ (.head _)
    · obtain rfl : k' = f.key := (spelling (k', v') (.tail _ (.head _))).resolve_left (Ne.symm other)
      simp [namesFirst, Field.isName_name, Field.isName_key (Ne.symm other)]
    · obtain rfl : k' = f.name := (spelling (k', v') (.tail _ (.head _))).resolve_right (Ne.symm other)
      exact absurd ⟨other, rfl⟩ uncrossed
  | (k, v) :: (k', v') :: (k'', v'') :: l =>
    -- There are only two spellings, so of three one would stand twice.
    have first := spelling (k, v) (.head _)
    have second := spelling (k', v') (.tail _ (.head _))
    have third := spelling (k'', v'') (.tail _ (.tail _ (.head _)))
    simp only [List.map_cons, List.nodup_cons, List.mem_cons, not_or] at apart
    obtain ⟨⟨notSecond, notThird, -⟩, ⟨notThird', -⟩, -⟩ := apart
    dsimp only at first second third
    rcases first with rfl | rfl <;> rcases second with rfl | rfl <;> rcases third with rfl | rfl <;>
      contradiction

/-- Of a field that is given under its key and then its name, the key's value is taken. -/
theorem value?_crossed {v : Value} (crossed : Crossed m f) (mem : (f.key, v) ∈ m) :
    (Draft.ofEntries (namesFirst m)).value? f = some v := by
  rw [Draft.value?_ofEntries, entriesFor_namesFirst]
  obtain ⟨apart, keys⟩ := crossed
  have own : (f.key, v) ∈ entriesFor m f := List.mem_filter.2 ⟨mem, by simp [Field.key_spells]⟩
  generalize entriesFor m f = l at keys own
  match l with
  | [(k, w), (k', w')] =>
    obtain ⟨rfl, rfl⟩ : k = f.key ∧ k' = f.name := by simpa using keys
    obtain rfl : v = w := by simpa [apart] using own
    simp [namesFirst, Field.isName_name, Field.isName_key apart]

/-! ## Refusals -/

theorem oversizedAt_override (s : Settings) (d : Draft) (text : f = .textContent ∨ f = .textFontFamily) :
    (s.record.override d).draft.OversizedAt f ↔ d.OversizedAt f := by
  unfold Draft.OversizedAt
  rw [Record.value?_draft]
  unfold Record.override
  cases d.value? f with
  | none =>
    have held : ¬ (s.record f).Oversized := by
      rcases text with rfl | rfl <;> exact nofun
    simpa using held
  | some v => simp

/-- A change of settings is refused for what it gives for a text field, never for what they hold. -/
theorem update_written (s : Settings) (distinct : (m.map Prod.fst).Nodup) (hasImage : Bool) :
    Written (update s.record m hasImage) (Raw.value (.map (namesFirst m))).Oversized := by
  rw [update_eq s.record distinct]
  exact (sanitize_written _ hasImage).iff
    (or_congr (oversizedAt_override s _ (.inl rfl)) (oversizedAt_override s _ (.inr rfl)))

/-- A change is accepted if each of its entries is. -/
theorem not_oversized_of_entries {hasImage : Bool}
    (each : ∀ e ∈ m, ∃ given, sanitize (.value (.map [e])) hasImage = .ok given) :
    ¬ (Raw.value (.map (namesFirst m))).Oversized := by
  have none {f : Field} (text : f = .textContent ∨ f = .textFontFamily) :
      ¬ (Draft.ofEntries (namesFirst m)).OversizedAt f := by
    rintro ⟨v, given, oversized⟩
    rw [Draft.value?_ofEntries, entriesFor_namesFirst] at given
    obtain ⟨e, last, rfl⟩ := Option.map_eq_some_iff.1 given
    have own : e ∈ entriesFor m f := by
      rcases List.mem_append.1 (List.mem_of_getLast? last) with mem | mem
      · exact (List.mem_filter.1 mem).1
      · exact (List.mem_filter.1 mem).1
    obtain ⟨mem, spells⟩ := List.mem_filter.1 own
    have alone : (Draft.ofEntries [e]).value? f = some e.2 := by
      rw [Draft.value?_ofEntries]
      simp [entriesFor, of_decide_eq_true spells]
    obtain ⟨s, accepted⟩ := each e mem
    have written := sanitize_written (.value (.map [e])) hasImage
    rw [accepted] at written
    cases written with
    | text _ fits =>
      rcases text with rfl | rfl
      · exact fits (.inl ⟨_, alone, oversized⟩)
      · exact fits (.inr ⟨_, alone, oversized⟩)
  exact not_or.2 ⟨none (.inl rfl), none (.inr rfl)⟩

/-! ## Changes -/

theorem record_injective {s s' : Settings} (h : ∀ f, s.record f = s'.record f) : s = s' := by
  have style : s.text.fontStyle = s'.text.fontStyle := by
    have names : s.text.fontStyle.name = s'.text.fontStyle.name := Value.text.inj (h .textFontStyle)
    cases hs : s.text.fontStyle <;> cases hs' : s'.text.fontStyle <;> simp_all [FontStyle.name]
  have fields : ∀ f ∈ Field.all, s.record f = s'.record f := fun f _ => h f
  obtain ⟨_, _, _, _, _, _, _, _, _, ⟨_, _, _, _, _, _, _, _, _⟩, ⟨_, _, _, _, _⟩, _, _⟩ := s
  obtain ⟨_, _, _, _, _, _, _, _, _, ⟨_, _, _, _, _, _, _, _, _⟩, ⟨_, _, _, _, _⟩, _, _⟩ := s'
  simp only [Field.all, List.forall_mem_cons, record] at fields
  simp_all

variable {hasImage : Bool} {s : Settings}

/-- A change of the default settings gives what the changes alone are sanitized to, those under names
first. -/
theorem update_default (distinct : (m.map Prod.fst).Nodup) (hasImage : Bool) :
    update default.record m hasImage = sanitize (.value (.map (namesFirst m))) hasImage := by
  have changed := update_written default distinct hasImage
  have alone := sanitize_written (.value (.map (namesFirst m))) hasImage
  rw [update_eq default.record distinct] at changed ⊢
  refine changed.eq alone fun s s' hs hs' => record_injective fun f => ?_
  have own : (default.record.override (Draft.ofEntries (namesFirst m))).draft.value? f =
      some (default.record.override (Draft.ofEntries (namesFirst m)) f) := Record.value?_draft _ f
  unfold Record.override at own
  cases given : (Draft.ofEntries (namesFirst m)).value? f with
  | some v =>
    rw [given] at own
    exact ofDraft_field hs hs' (own.trans given.symm)
  | none =>
    rw [given] at own
    have standing : sanitize (.record default.record) hasImage = .ok default :=
      ofDraft_again (ofDraft_nil hasImage)
    have here := ofDraft_field hs standing (own.trans (Record.value?_draft default.record f).symm)
    have there := ofDraft_field hs' (ofDraft_nil hasImage) given
    rw [here, there]

theorem change_eq {r : Record} (free : ∀ e ∈ m, e.1 ≠ "current" ∧ e.1 ≠ "has_watermark_image")
    (hasImage : Bool) : change r m hasImage = (update r m hasImage).mapError .numeric := by
  have unreserved : m.find? (fun e => ["current", "has_watermark_image"].contains e.1) = none := by
    simpa [List.find?_eq_none] using free
  unfold change checkNames
  rw [unreserved]
  rfl

theorem value?_merged_given {r : Record} (distinct : (m.map Prod.fst).Nodup)
    (given : (Draft.ofEntries (namesFirst m)).value? f = some v) :
    (Draft.ofEntries (merged r m)).value? f = some v := by
  rw [value?_merged r distinct]
  unfold Record.override
  rw [given]
  rfl

theorem value?_merged_kept {r : Record} (distinct : (m.map Prod.fst).Nodup) (none : entriesFor m f = []) :
    (Draft.ofEntries (merged r m)).value? f = some (r f) := by
  rw [value?_merged r distinct]
  unfold Record.override
  rw [Draft.value?_ofEntries, entriesFor_namesFirst, none]
  rfl

/-- A change of settings takes each field from what it gives for that field, and leaves the others as they
are. It is accepted if each of its entries is. Only of a field that is given under its key and then its
name does it take another value than sanitizing the changes does, that of the key. -/
theorem change_fieldwise (cur : Settings) (distinct : (m.map Prod.fst).Nodup)
    (free : ∀ e ∈ m, e.1 ≠ "current" ∧ e.1 ≠ "has_watermark_image") (hasImage : Bool) :
    ((∀ e ∈ m, ∃ given, sanitize (.value (.map [e])) hasImage = .ok given) →
      ∃ s, change cur.record m hasImage = .ok s) ∧
    ((∀ f, ¬ Crossed m f) → change default.record m hasImage =
      (sanitize (.value (.map m)) hasImage).mapError .numeric) ∧
    ∀ s, change cur.record m hasImage = .ok s → ∃ kept, cur.resanitize hasImage = .ok kept ∧
      ∀ f, (entriesFor m f = [] → s.record f = kept.record f) ∧
        (entriesFor m f ≠ [] → ¬ Crossed m f → ∀ given,
          sanitize (.value (.map m)) hasImage = .ok given → s.record f = given.record f) ∧
        (Crossed m f → ∀ v, (f.key, v) ∈ m → ∀ given,
          sanitize (.value (.map [(f.key, v)])) hasImage = .ok given → s.record f = given.record f) := by
  rw [change_eq free, change_eq free]
  refine ⟨fun each => ?_, fun uncrossed => ?_, fun s changed => ?_⟩
  · have written := update_written cur distinct hasImage
    generalize update cur.record m hasImage = outcome at written
    cases written with
    | text s _ => exact ⟨s, rfl⟩
    | refused oversized => exact absurd oversized (not_oversized_of_entries each)
  · rw [update_default distinct]
    exact congrArg _ (ofDraft_congr (fun f => value?_uncrossed distinct (uncrossed f)) hasImage)
  · obtain ⟨kept, again⟩ := sanitize_record cur hasImage
    have whole : update cur.record m hasImage = .ok s := by
      cases outcome : update cur.record m hasImage with
      | ok s' =>
        rw [outcome] at changed
        cases changed
        rfl
      | error e =>
        rw [outcome] at changed
        cases changed
    refine ⟨kept, again, fun f => ⟨fun none => ?_, fun any uncrossed given alone => ?_,
      fun crossed v mem given alone => ?_⟩⟩
    · exact ofDraft_field whole again
        ((value?_merged_kept distinct none).trans (Record.value?_draft cur.record f).symm)
    · have same := value?_uncrossed distinct uncrossed
      obtain ⟨e, last⟩ := Option.ne_none_iff_exists'.1 (mt List.getLast?_eq_none_iff.1 any)
      have own : (Draft.ofEntries m).value? f = some e.2 := by
        rw [Draft.value?_ofEntries, last]
        rfl
      exact ofDraft_field whole alone
        ((value?_merged_given distinct (same.trans own)).trans own.symm)
    · have taken := value?_crossed crossed mem
      have own : (Draft.ofEntries [(f.key, v)]).value? f = some v := by
        simp [Draft.ofEntries, Field.key_spells, Draft.value?]
      exact ofDraft_field whole alone ((value?_merged_given distinct taken).trans own.symm)

/-- A change that gives one field by its name, one by its key, and something else. -/
def mixedChange : Changes := [("film_grain", .number 2), ("flipH", .bool true), ("unknown", .null)]

theorem mixedChange_fieldwise : ∃ s,
    change { default with brightness := 1 }.record mixedChange false = .ok s ∧
    s.filmGrain = 2 ∧ s.flipHorizontal = true ∧ s.brightness = 1 := by
  have distinct : (mixedChange.map Prod.fst).Nodup := by decide
  have free : ∀ e ∈ mixedChange, e.1 ≠ "current" ∧ e.1 ≠ "has_watermark_image" := by
    simp [mixedChange]
  have each : ∀ e ∈ mixedChange, ∃ given, sanitize (.value (.map [e])) false = .ok given := by
    simp only [mixedChange, List.forall_mem_cons]
    exact ⟨⟨_, rfl⟩, ⟨_, rfl⟩, ⟨_, rfl⟩, nofun⟩
  obtain ⟨accepted, -, fields⟩ := change_fieldwise { default with brightness := 1 } distinct free false
  obtain ⟨s, changed⟩ := accepted each
  obtain ⟨kept, again, own⟩ := fields s changed
  obtain ⟨given, alone, grain, flip⟩ : ∃ given, sanitize (.value (.map mixedChange)) false = .ok given ∧
      given.filmGrain = 2 ∧ given.flipHorizontal = true := ⟨_, rfl, by decide +kernel, rfl⟩
  have brightness : kept.brightness = 1 := by
    cases again
    decide +kernel
  have changedGrain := (own .filmGrain).2.1 (by decide) (by decide) given alone
  have changedFlip := (own .flipHorizontal).2.1 (by decide) (by decide) given alone
  have keptBrightness := (own .brightness).1 (by decide)
  exact ⟨s, changed, (Value.number.inj changedGrain).trans grain, (Value.bool.inj changedFlip).trans flip,
    (Value.number.inj keptBrightness).trans brightness⟩

/-- A field that is given under its key and then its name: the change takes the former, sanitizing the
latter. -/
theorem key_overrules_name : ∃ s given,
    change default.record [("filmGrain", .number 1), ("film_grain", .number 2)] false = .ok s ∧
    sanitize (.value (.map [("filmGrain", .number 1), ("film_grain", .number 2)])) false = .ok given ∧
    s.filmGrain = 1 ∧ given.filmGrain = 2 :=
  ⟨_, _, rfl, rfl, by decide +kernel, by decide +kernel⟩

end Settings

end VideoExport
