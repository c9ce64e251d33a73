import VideoExport.Proofs.Json.Completeness
import VideoExport.Proofs.Settings.Change

/-!
# What settings are read of any document

A document holds no integer that is too long to be written (`Json.Document.short`), so settings can be made
of whatever its value is. What is no document gives the default settings. Reading fails for nothing but the
nesting of a document, or of what begins like one (`Settings.read_tolerant`): the refusal of it is not among
those that are taken for no document, so a document of lists that nest deeply enough is not read at all.
-/

set_option autoImplicit false

namespace VideoExport

/-! ## Integers of documents -/

namespace Json

section
variable {es before : List (String × Value)} {e : String × Value}

theorem mem_setEntry {k : String} {v : Value} (h : e ∈ Value.setEntry es k v) : e ∈ es ∨ e = (k, v) := by
  induction es with
  | nil => exact .inr (List.mem_singleton.1 h)
  | cons first es ih =>
    unfold Value.setEntry at h
    split at h
    · rename_i same
      obtain rfl | mem := List.mem_cons.1 h
      · exact .inr (by rw [same])
      · exact .inl (.tail _ mem)
    · obtain rfl | mem := List.mem_cons.1 h
      · exact .inl (.head _)
      · exact (ih mem).imp_left (.tail _)

/-- Whatever a map holds was given to it. -/
theorem mem_setEntries (h : e ∈ setEntries before es) : e ∈ before ∨ e ∈ es := by
  induction es generalizing before with
  | nil => exact .inl h
  | cons first es ih =>
    obtain mem | mem := ih h
    · obtain mem | rfl := mem_setEntry mem
      · exact .inl mem
      · exact .inr (.head _)
    · exact .inr (.tail _ mem)

end

/-- No integer of a phrase is too long to be written. -/
def Phrase.Short : Phrase → Prop
  | .value v | .element v | .member _ v => ¬ v.Oversized
  | .items vs => ∀ v ∈ vs, ¬ v.Oversized
  | .members es => ∀ e ∈ es, ¬ e.2.Oversized

theorem NumberBody.short {negative : Bool} {body : List Char} {n : Number}
    (h : NumberBody negative body n) : ¬ (Value.number n).Oversized := by
  cases h with
  | int whole short =>
    have lt := Nat.lt_of_lt_of_le whole.digits.value_lt (Nat.pow_le_pow_right (by decide) short)
    rw [Value.oversized_integer_iff, Nat.not_le]
    cases negative with
    | false => simpa using lt
    | true => simpa using lt
  | real =>
    intro oversized
    cases oversized

theorem Derives.short {p : Phrase} {w : List Char} (h : Derives p w) : p.Short := by
  induction h with
  | word mem =>
    unfold words at mem
    simp only [List.mem_cons, Prod.mk.injEq, List.not_mem_nil, or_false] at mem
    intro oversized
    rcases mem with ⟨-, rfl⟩ | ⟨-, rfl⟩ | ⟨-, rfl⟩ | ⟨-, rfl⟩ | ⟨-, rfl⟩ | ⟨-, rfl⟩ <;> cases oversized
  | text =>
    intro oversized
    cases oversized
  | number number => exact number.short
  | noItems =>
    intro oversized
    obtain ⟨v, none, -⟩ := Value.oversized_list_iff.1 oversized
    cases none
  | list _ ih =>
    intro oversized
    obtain ⟨v, mem, oversized⟩ := Value.oversized_list_iff.1 oversized
    exact ih v mem oversized
  | noMembers =>
    intro oversized
    obtain ⟨e, none, -⟩ := Value.oversized_map_iff.1 oversized
    cases none
  | map _ ih =>
    intro oversized
    obtain ⟨e, mem, oversized⟩ := Value.oversized_map_iff.1 oversized
    obtain none | mem := mem_setEntries mem
    · cases none
    · exact ih e mem oversized
  | element _ _ _ ih => exact ih
  | lastItem _ ih => exact List.forall_mem_singleton.2 ih
  | item _ _ ih ihRest => exact List.forall_mem_cons.2 ⟨ih, ihRest⟩
  | member _ _ _ _ ih => exact ih
  | lastMember _ ih => exact List.forall_mem_singleton.2 ih
  | members _ _ ih ihRest => exact List.forall_mem_cons.2 ⟨ih, ihRest⟩

theorem Document.short {v : Value} {s : List Char} (h : Document v s) : ¬ v.Oversized := Derives.short h

end Json

/-! ## Values of what is read -/

namespace Source

/-- The characters that are read. -/
def characters? : Source → Option (List Char)
  | .text s => some s.toList
  | .octets bytes => (Json.decode bytes).map String.toList
  | .other => none

/-- What is read is the document of a value. -/
def Holds (source : Source) (v : Value) : Prop := ∃ s, source.characters? = some s ∧ Json.Document v s

/-- What is read opens more brackets at once than can be read. -/
def Overnested (source : Source) : Prop := ∃ s, source.characters? = some s ∧ Json.Overnested s

/-- The value of characters; `null` if they are no document. -/
def document (s : List Char) : Except Failure Value :=
  value.recover ((Json.readDocument s).mapError (Json.Stop.toError s))

theorem value_text (s : String) : (Source.text s).value = document s.toList := by
  show value.recover (Json.read s) = _
  unfold Json.read document
  dsimp only
  split
  · rename_i mark
    obtain ⟨rest, marked⟩ := List.head?_eq_some_iff.1 mark
    rw [marked, Json.readDocument_mark]
    rfl
  · rfl

/-- Whatever is read, its value is that of its characters if it has any. -/
theorem value_eq (source : Source) : source.value =
    match source.characters? with
    | some s => document s
    | none => .ok .null := by
  cases source with
  | text s => exact value_text s
  | octets bytes =>
    unfold value Json.readBytes characters?
    dsimp only
    cases Json.decode bytes <;> rfl
  | other => rfl

section
variable {s : List Char} {v : Value}

theorem document_overnested (h : Json.Overnested s) :
    ∃ atMap, document s = .error (.document (.tooDeep atMap)) := by
  obtain ⟨atMap, refused⟩ := h.refuses
  unfold document
  rw [refused]
  exact ⟨atMap, rfl⟩

theorem document_ok (h : Json.Document v s) (shallow : ¬ Json.Overnested s) : document s = .ok v := by
  unfold document
  rw [Json.readDocument_iff.2 ⟨h, shallow⟩]
  rfl

theorem document_none (none : ∀ v, ¬ Json.Document v s) (shallow : ¬ Json.Overnested s) :
    document s = .ok .null := by
  unfold document
  cases read : Json.readDocument s with
  | ok v => exact absurd (Json.readDocument_iff.1 read).1 (none v)
  | error stop =>
    cases stop with
    | fault | integerTooLong => rfl
    | tooDeep atMap => exact absurd (Json.readDocument_refuses_iff.1 ⟨atMap, read⟩) shallow

end

section
variable {source : Source} {text : String} {v : Value}

theorem overnested_text (h : Json.Overnested text.toList) : (Source.text text).Overnested := ⟨_, rfl, h⟩

theorem not_overnested_text (h : ¬ Json.Overnested text.toList) : ¬ (Source.text text).Overnested := by
  rintro ⟨_, ⟨⟩, deep⟩
  exact h deep

/-- A text that is read is the document of what is read. -/
theorem holds_of_read (h : Json.readDocument text.toList = .ok v) :
    (Source.text text).Holds v ∧ ¬ (Source.text text).Overnested := by
  obtain ⟨document, shallow⟩ := Json.readDocument_iff.1 h
  exact ⟨⟨_, rfl, document⟩, not_overnested_text shallow⟩

/-- A text with a fault is no document. -/
theorem not_holds_of_fault {fault : Json.Fault} {rest : List Char}
    (h : Json.readDocument text.toList = .error (.fault fault rest)) :
    (∀ v, ¬ (Source.text text).Holds v) ∧ ¬ (Source.text text).Overnested := by
  have shallow : ¬ Json.Overnested text.toList := by
    intro deep
    obtain ⟨atMap, refused⟩ := deep.refuses
    cases h.symm.trans refused
  refine ⟨?_, not_overnested_text shallow⟩
  rintro v ⟨_, ⟨⟩, document⟩
  cases h.symm.trans (Json.readDocument_iff.2 ⟨document, shallow⟩)

theorem Overnested.value (h : source.Overnested) :
    ∃ atMap, source.value = .error (.document (.tooDeep atMap)) := by
  obtain ⟨s, given, deep⟩ := h
  rw [value_eq, given]
  exact document_overnested deep

theorem Holds.value (h : source.Holds v) (shallow : ¬ source.Overnested) : source.value = .ok v := by
  obtain ⟨s, given, document⟩ := h
  rw [value_eq, given]
  exact document_ok document fun deep => shallow ⟨s, given, deep⟩

theorem value_null (none : ∀ v, ¬ source.Holds v) (shallow : ¬ source.Overnested) :
    source.value = .ok .null := by
  rw [value_eq]
  cases given : source.characters? with
  | none => rfl
  | some s =>
    exact document_none (fun v document => none v ⟨s, given, document⟩)
      fun deep => shallow ⟨s, given, deep⟩

end

end Source

/-! ## Settings of what is read -/

namespace Settings

/-- The value of a document is sanitized without refusal. -/
theorem sanitize_short {v : Value} (short : ¬ v.Oversized) (hasImage : Bool) :
    ∃ s, sanitize (.value v) hasImage = .ok s := by
  have fits : ¬ (Raw.value v).Oversized := by
    have none (f : Field) : ¬ (Draft.ofValue v).OversizedAt f := by
      rintro ⟨u, given, oversized⟩
      cases v with
      | map entries =>
        rw [Draft.ofValue, Draft.value?_ofEntries] at given
        obtain ⟨e, last, rfl⟩ := Option.map_eq_some_iff.1 given
        have mem := (List.mem_filter.1 (List.mem_of_getLast? last)).1
        exact short (Value.oversized_map_iff.2 ⟨e, mem, oversized⟩)
      | _ => cases given
    exact not_or.2 ⟨none .textContent, none .textFontFamily⟩
  have written := sanitize_written (.value v) hasImage
  generalize sanitize (.value v) hasImage = outcome at written ⊢
  cases written with
  | text s _ => exact ⟨s, rfl⟩
  | refused oversized => exact absurd oversized fits

section
variable {source : Source} {v : Value}

theorem read_overnested (deep : source.Overnested) (hasImage : Bool) :
    ∃ atMap, read source hasImage = .error (.document (.tooDeep atMap)) := by
  obtain ⟨atMap, value⟩ := deep.value
  unfold read
  rw [value]
  exact ⟨atMap, rfl⟩

theorem read_document (holds : source.Holds v) (shallow : ¬ source.Overnested) (hasImage : Bool) :
    ∃ s, sanitize (.value v) hasImage = .ok s ∧ read source hasImage = .ok s := by
  obtain ⟨_, _, document⟩ := id holds
  obtain ⟨s, given⟩ := sanitize_short document.short hasImage
  exact ⟨s, given, read_ofValue (holds.value shallow) given⟩

theorem overnested_of_read {failure : Failure} {hasImage : Bool}
    (failed : read source hasImage = .error failure) : source.Overnested := by
  by_contra shallow
  by_cases none : ∀ v, ¬ source.Holds v
  · rw [read_null (Source.value_null none shallow)] at failed
    cases failed
  · obtain ⟨v, holds⟩ := not_forall_not.1 none
    obtain ⟨s, -, given⟩ := read_document holds shallow hasImage
    rw [given] at failed
    cases failed

end

/-- Reading settings fails for nothing but nesting. Unless it does, a document gives what its value is
sanitized to, and anything else gives the default settings. -/
theorem read_tolerant (source : Source) (hasImage : Bool) :
    ((∃ failure, read source hasImage = .error failure) ↔ source.Overnested) ∧
      (source.Overnested → ∃ atMap, read source hasImage = .error (.document (.tooDeep atMap))) ∧
      (¬ source.Overnested →
        (∀ v, source.Holds v →
          ∃ s, sanitize (.value v) hasImage = .ok s ∧ read source hasImage = .ok s) ∧
        ((∀ v, ¬ source.Holds v) → read source hasImage = .ok default)) := by
  refine ⟨⟨?_, fun deep => ?_⟩, fun deep => read_overnested deep hasImage, fun shallow => ⟨?_, ?_⟩⟩
  · rintro ⟨failure, failed⟩
    exact overnested_of_read failed
  · obtain ⟨atMap, failed⟩ := read_overnested deep hasImage
    exact ⟨_, failed⟩
  · exact fun v holds => read_document holds shallow hasImage
  · exact fun none => read_null (Source.value_null none shallow) hasImage

/-- Lists that nest five thousand deep. -/
def deepLists : Source := .text (String.ofList (Json.nestedLists 5000))

theorem deepLists_overnested : deepLists.Overnested := by
  refine Source.overnested_text ?_
  rw [String.toList_ofList]
  exact Json.nestedLists_overnested (by decide)

theorem read_tolerant_of_texts :
    (∃ atMap, read deepLists false = .error (.document (.tooDeep atMap))) ∧
      (∃ s, sanitize (.value (.map [("flipH", .bool true)])) false = .ok s ∧
        read (.text "\x7b\"flipH\": true\x7d") false = .ok s) ∧
      read (.text "\x7bnot json") false = .ok default := by
  have flipped : Json.readDocument "\x7b\"flipH\": true\x7d".toList =
      .ok (.map [("flipH", .bool true)]) := by
    simp [Json.readDocument, Json.readValue, Json.readEntries, Json.readText, Json.skipSpace, Json.isSpace,
      Json.nestingLimit, Json.word?, Json.afterWord?, Value.setEntry, bind, Except.bind, pure, Except.pure]
  have broken : Json.readDocument "\x7bnot json".toList =
      .error (.fault .propertyName "not json".toList) := by rfl
  obtain ⟨holds, shallow⟩ := Source.holds_of_read flipped
  obtain ⟨none, shallow'⟩ := Source.not_holds_of_fault broken
  exact ⟨(read_tolerant deepLists false).2.1 deepLists_overnested,
    ((read_tolerant _ false).2.2 shallow).1 _ holds, ((read_tolerant _ false).2.2 shallow').2 none⟩

/-- A document is not read. -/
theorem deepLists_unread :
    (∃ v, deepLists.Holds v) ∧ ∃ failure, read deepLists false = .error failure := by
  obtain ⟨v, document⟩ := Json.nestedLists_document (n := 5000) (by decide)
  obtain ⟨atMap, failed⟩ := read_overnested deepLists_overnested false
  exact ⟨⟨v, _, congrArg some String.toList_ofList, document⟩, _, failed⟩

end Settings

end VideoExport
