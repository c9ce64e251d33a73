import Mathlib.Data.List.Forall2
import VideoExport.Proofs.Json.Text
import VideoExport.Proofs.Json.WrittenNumber
import VideoExport.Proofs.Numeral

/-!
# Documents read back

A map of texts, numbers, switches and nulls is read as it was written, in the order in which its layout
writes it (`Json.read_write`), if the layout puts nothing but white space between the tokens
(`Json.Layout.Readable`). What comes after a value is all that the reader has to know of the rest
(`Json.Renders`), so the entries are read one after another (`Json.readEntries_written`).
-/

set_option autoImplicit false

namespace VideoExport.Json

/-! ## White space -/

/-- Nothing but white space. -/
def Blank (s : List Char) : Prop := ∀ c ∈ s, isSpace c = true

section
variable {s rest : List Char} {c : Char}

theorem Blank.nil : Blank [] := List.forall_mem_nil _

theorem Blank.append {t : List Char} (hs : Blank s) (ht : Blank t) : Blank (s ++ t) :=
  fun c hc => (List.mem_append.1 hc).elim (hs c) (ht c)

theorem Blank.skip (h : Blank s) (rest : List Char) : skipSpace (s ++ rest) = skipSpace rest :=
  List.dropWhile_append_of_pos h

theorem skipSpace_cons (h : isSpace c = false) (rest : List Char) : skipSpace (c :: rest) = c :: rest :=
  List.dropWhile_cons_of_neg (by rw [h]; decide)

theorem Blank.skipTo (h : Blank s) (hc : isSpace c = false) (rest : List Char) :
    skipSpace (s ++ c :: rest) = c :: rest := by
  rw [h.skip, skipSpace_cons hc]

/-- White space ends a number, and so does what follows it if that does. -/
theorem Blank.follows (h : Blank s) (hr : Follows rest) : Follows (s ++ rest) := by
  cases s with
  | nil => exact hr
  | cons c s =>
    have space := h c (.head _)
    rintro d ⟨⟩
    unfold isSpace at space
    simp only [Bool.or_eq_true, decide_eq_true_eq] at space
    rcases space with ((rfl | rfl) | rfl) | rfl <;> decide

theorem isSpace_digit (h : isDigit c = true) : isSpace c = false := by
  simp only [isSpace, Bool.or_eq_false_iff, decide_eq_false_iff_not]
  exact ⟨⟨⟨digit_ne h rfl, digit_ne h rfl⟩, digit_ne h rfl⟩, digit_ne h rfl⟩

end

/-- A layout that puts nothing but white space between the tokens. -/
structure Layout.Readable (layout : Layout) : Prop where
  indent : ∀ unit ∈ layout.indent, Blank unit.toList
  item : ∃ blanks, layout.itemSeparator.toList = ',' :: blanks ∧ Blank blanks
  key : ∃ blanks, layout.keySeparator.toList = ':' :: blanks ∧ Blank blanks

variable {layout : Layout}

theorem Layout.Readable.newline (h : layout.Readable) (level : Nat) :
    Blank (newline layout level).toList := by
  have indent := h.indent
  unfold Json.newline
  split
  · exact Blank.nil
  · rename_i unit hu
    rw [String.toList_append, String.toList_join]
    refine Blank.append (List.forall_mem_singleton.2 rfl) fun c hc => ?_
    obtain ⟨s, hs, hc⟩ := List.mem_flatMap.1 hc
    rw [List.eq_of_mem_replicate hs] at hc
    exact indent unit hu c hc

/-! ## Values -/

/-- A text that is read as a value, whatever comes after it. -/
structure Renders (t : List Char) (v : Value) : Prop where
  head : ∃ c cs, t = c :: cs ∧ isSpace c = false
  read : ∀ depth fuel rest, Follows rest → readValue depth (fuel + 1) (t ++ rest) = .ok (v, rest)

/-- Neither a list nor a map nor octets; a number is finite and not too long. -/
def Scalar : Value → Prop
  | .null | .bool _ | .text _ => True
  | .number n => n.isFinite = true ∧ n.IsShort
  | .octets _ | .list _ | .map _ => False

theorem renders_null : Renders "null".toList .null := ⟨⟨_, _, rfl, rfl⟩, fun _ _ _ _ => rfl⟩

theorem renders_bool (b : Bool) : Renders (if b then "true" else "false").toList (.bool b) := by
  cases b <;> exact ⟨⟨_, _, rfl, rfl⟩, fun _ _ _ _ => rfl⟩

theorem renders_text (asciiOnly : Bool) (s : String) : Renders (writeText asciiOnly s).toList (.text s) := by
  refine ⟨⟨'"', textBody asciiOnly s [], ?_, rfl⟩, fun depth fuel rest _ => ?_⟩
  · rw [← writeText_append, List.append_nil]
  · exact readValue_writeText asciiOnly s rest depth fuel

theorem renders_number {n : Number} {t : String} (hn : n.isFinite = true) (h : n.text = .ok t) :
    Renders t.toList (.number n) := by
  obtain ⟨negative, body, ht, spells⟩ := number_spells hn h
  obtain ⟨c, cs, hb, hc⟩ := spells.head
  refine ⟨?_, fun depth fuel rest hr => ht ▸ spells.value hr depth fuel⟩
  rw [ht, hb]
  cases negative with
  | false => exact ⟨c, cs, rfl, isSpace_digit hc⟩
  | true => exact ⟨'-', c :: cs, rfl, rfl⟩

theorem Scalar.written {v : Value} (h : Scalar v) (layout : Layout) (level : Nat) :
    ∃ t, writeAt layout level v = .ok t ∧ Renders t.toList v := by
  cases v with
  | null => exact ⟨_, rfl, renders_null⟩
  | bool b => exact ⟨_, rfl, renders_bool b⟩
  | text s => exact ⟨_, rfl, renders_text _ s⟩
  | number n =>
    obtain ⟨finite, short⟩ := h
    obtain ⟨t, ht⟩ : ∃ t, n.text = .ok t := by
      cases n with
      | int n =>
        obtain ⟨t, ht, -⟩ := Number.intText_numeral (short n rfl)
        exact ⟨t, ht⟩
      | real x => exact ⟨_, rfl⟩
    refine ⟨t, ?_, renders_number finite ht⟩
    show writeNumber layout n = _
    unfold writeNumber
    cases n with
    | int n =>
      dsimp only
      rw [ht]
    | real x =>
      cases x with
      | finite x =>
        dsimp only
        rw [ht]
      | nan => cases finite
      | infinite => cases finite
  | octets => cases h
  | list => cases h
  | map => cases h

/-! ## Entries -/

theorem setEntry_new {before : List (String × Value)} {k : String} (h : k ∉ before.map Prod.fst)
    (v : Value) : Value.setEntry before k v = before ++ [(k, v)] := by
  induction before with
  | nil => rfl
  | cons e before ih =>
    obtain ⟨here, rest⟩ := not_or.1 (fun found => h (List.mem_cons.2 found))
    unfold Value.setEntry
    rw [if_neg (Ne.symm here), ih rest]
    rfl

/-- The text of an entry. -/
def EntryText (layout : Layout) (e : String × Value) (s : String) : Prop :=
  ∃ t, s = writeText layout.asciiOnly e.1 ++ layout.keySeparator ++ t ∧ Renders t.toList e.2

theorem entries_written {es : List (String × Value)} (scalar : ∀ e ∈ es, Scalar e.2) (layout : Layout)
    (level : Nat) :
    ∃ written, (es.map fun e => (e.1, writeAt layout level e.2)).mapM (fun (k, s) => do
        return writeText layout.asciiOnly k ++ layout.keySeparator ++ (← s)) = .ok written ∧
      List.Forall₂ (EntryText layout) es written := by
  induction es with
  | nil => exact ⟨[], rfl, .nil⟩
  | cons e es ih =>
    obtain ⟨t, ht, renders⟩ := (scalar e (.head _)).written layout level
    obtain ⟨written, hw, texts⟩ := ih fun e he => scalar e (.tail _ he)
    refine ⟨(writeText layout.asciiOnly e.1 ++ layout.keySeparator ++ t) :: written, ?_,
      .cons ⟨t, rfl, renders⟩ texts⟩
    rw [List.map_cons, List.mapM_cons, hw]
    dsimp only
    rw [ht]
    rfl

/-- What is read once an entry has been. -/
def afterEntry (depth fuel : Nat) (entries : List (String × Value)) :
    List Char → Except Stop (List (String × Value) × List Char)
  | '\x7d' :: after => .ok (entries, after)
  | ',' :: more => readEntries depth fuel entries (skipSpace more)
  | rest => .error (.fault .comma rest)

/-- An entry is read from its key on. -/
theorem readEntries_key {body cs blanks : List Char} (key : TextBody body cs) (blank : Blank blanks)
    (depth fuel : Nat) (before : List (String × Value)) (s : List Char) :
    readEntries depth (fuel + 1) before ('"' :: (body ++ '"' :: (blanks ++ ':' :: s))) = (do
      let (v, rest) ← readValue depth fuel (skipSpace s)
      afterEntry depth fuel (Value.setEntry before (String.ofList cs) v) (skipSpace rest)) := by
  unfold readEntries
  simp only [key.readAll, bind, Except.bind, blank.skipTo (c := ':') rfl]
  rfl

theorem readEntries_entry (h : layout.Readable) {e : String × Value} {s : String}
    (hs : EntryText layout e s) (depth fuel : Nat) {before : List (String × Value)}
    (new : e.1 ∉ before.map Prod.fst) {rest : List Char} (hr : Follows rest) :
    readEntries depth (fuel + 2) before (s.toList ++ rest) =
      afterEntry depth (fuel + 1) (before ++ [e]) (skipSpace rest) := by
  obtain ⟨t, rfl, renders⟩ := hs
  obtain ⟨blanks, separator, blank⟩ := h.key
  obtain ⟨c, cs, head, space⟩ := renders.head
  have value : skipSpace (blanks ++ (t.toList ++ rest)) = t.toList ++ rest := by
    rw [head, List.cons_append]
    exact blank.skipTo space _
  have key := readEntries_key (textBody_written layout.asciiOnly e.1.toList) Blank.nil depth (fuel + 1)
    before (blanks ++ (t.toList ++ rest))
  rw [value, renders.read depth fuel rest hr, String.ofList_toList] at key
  rw [String.toList_append, String.toList_append, List.append_assoc, List.append_assoc, writeText_append,
    separator, List.cons_append, ← setEntry_new new]
  exact key

theorem EntryText.head {e : String × Value} {s : String} (h : EntryText layout e s) :
    ∃ cs, s.toList = '"' :: cs := by
  obtain ⟨t, rfl, -⟩ := h
  rw [String.toList_append, String.toList_append, List.append_assoc, writeText_append]
  exact ⟨_, rfl⟩

/-- Entries between their separators. -/
def entriesText (layout : Layout) (level : Nat) (written : List String) : List Char :=
  ((layout.itemSeparator ++ newline layout level).intercalate written).toList

theorem entriesText_cons (layout : Layout) (level : Nat) (s s' : String) (written : List String) :
    entriesText layout level (s :: s' :: written) = s.toList ++ (layout.itemSeparator.toList ++
      ((newline layout level).toList ++ entriesText layout level (s' :: written))) := by
  unfold entriesText
  rw [String.intercalate_cons_cons, String.toList_append, String.toList_append, String.toList_append]
  simp only [List.append_assoc]

section
variable {es : List (String × Value)} {written : List String}

theorem entriesText_head {e : String × Value} {s : String} (h : EntryText layout e s) (level : Nat)
    (written : List String) : ∃ cs, entriesText layout level (s :: written) = '"' :: cs := by
  obtain ⟨cs, hs⟩ := h.head
  cases written with
  | nil =>
    unfold entriesText
    rw [String.intercalate_singleton]
    exact ⟨cs, hs⟩
  | cons s' written =>
    rw [entriesText_cons, hs]
    exact ⟨_, rfl⟩

/-- Every entry takes a character at least. -/
theorem length_le_entriesText (texts : List.Forall₂ (EntryText layout) es written) (level : Nat) :
    es.length ≤ (entriesText layout level written).length := by
  induction texts with
  | nil => exact Nat.zero_le _
  | @cons e s es written hs texts ih =>
    obtain ⟨cs, head⟩ := hs.head
    cases written with
    | nil =>
      cases texts
      obtain ⟨cs, head⟩ := entriesText_head hs level []
      rw [head]
      exact Nat.succ_le_succ (Nat.zero_le _)
    | cons s' written =>
      rw [entriesText_cons, head]
      simp only [List.length_append, List.length_cons]
      omega

/-- The entries of a map are read one after another. -/
theorem readEntries_written (h : layout.Readable) (texts : List.Forall₂ (EntryText layout) es written)
    (depth level : Nat) {closing : List Char} (blank : Blank closing) (after : List Char)
    (before : List (String × Value)) {fuel : Nat} (hf : es.length < fuel) (any : es ≠ [])
    (distinct : ((before ++ es).map Prod.fst).Nodup) :
    readEntries depth fuel before (entriesText layout level written ++ (closing ++ '\x7d' :: after)) =
      .ok (before ++ es, after) := by
  induction texts generalizing before fuel with
  | nil => exact absurd rfl any
  | @cons e s es written hs texts ih =>
    obtain ⟨fuel, rfl⟩ := Nat.exists_eq_add_of_le' (Nat.lt_of_le_of_lt (Nat.succ_pos _) hf)
    have new : e.1 ∉ before.map Prod.fst := by
      rw [List.map_append] at distinct
      exact fun old => (List.nodup_append.1 distinct).2.2 _ old _ (.head _) rfl
    cases texts with
    | nil =>
      have last : entriesText layout level [s] = s.toList := congrArg _ String.intercalate_singleton
      rw [last, readEntries_entry h hs depth fuel new (blank.follows (by rintro c ⟨⟩; decide)),
        blank.skipTo rfl]
      rfl
    | @cons e' s' es' written' hs' texts' =>
      obtain ⟨blanks, separator, between⟩ := h.item
      obtain ⟨cs, head⟩ := entriesText_head hs' level written'
      have rest := ih (before ++ [e]) (Nat.lt_of_succ_lt_succ hf)
        (List.cons_ne_nil _ _) (by rwa [List.append_assoc, List.singleton_append])
      rw [head] at rest
      rw [entriesText_cons, separator, head, List.append_assoc, List.cons_append, List.cons_append,
        readEntries_entry h hs depth fuel new (by rintro c ⟨⟩; decide), skipSpace_cons rfl]
      show readEntries depth (fuel + 1) (before ++ [e]) (skipSpace _) = _
      rw [List.append_assoc, List.append_assoc, List.cons_append, between.skip,
        (h.newline level).skipTo rfl, ← List.cons_append, rest, List.append_assoc]
      rfl

end

/-! ## Documents -/

theorem writeEntries_eq (layout : Layout) (level : Nat) (es : List (String × Value)) :
    writeEntries layout level es = es.map fun e => (e.1, writeAt layout level e.2) := by
  induction es with
  | nil => rfl
  | cons e es ih =>
    obtain ⟨k, v⟩ := e
    unfold writeEntries
    rw [ih]
    rfl

/-- The order of entries is that of their keys, whatever is under them. -/
theorem ordered_map {α β : Type} (layout : Layout) (f : α → β) (entries : List (String × α)) :
    ordered layout (entries.map fun e => (e.1, f e.2)) =
      (ordered layout entries).map fun e => (e.1, f e.2) := by
  unfold ordered
  split
  · exact (List.map_mergeSort (f := fun e : String × α => (e.1, f e.2)) fun _ _ _ _ => rfl).symm
  · rfl

theorem ordered_perm {α : Type} (layout : Layout) (entries : List (String × α)) :
    (ordered layout entries).Perm entries := by
  unfold ordered
  split
  · exact List.mergeSort_perm _ _
  · exact .refl _

theorem readValue_map (h : layout.Readable) {es : List (String × Value)} {written : List String}
    (texts : List.Forall₂ (EntryText layout) es written) (any : es ≠ [])
    (distinct : (es.map Prod.fst).Nodup) (depth level : Nat) {opening closing : List Char}
    (blank : Blank opening) (blank' : Blank closing) (after : List Char) {fuel : Nat}
    (hf : es.length < fuel) : readValue (depth + 1) (fuel + 1)
      ('\x7b' :: (opening ++ (entriesText layout level written ++ (closing ++ '\x7d' :: after)))) =
      .ok (.map es, after) := by
  have entries := readEntries_written h texts depth level blank' after [] hf any distinct
  cases texts with
  | nil => exact absurd rfl any
  | @cons e s es written hs texts =>
    obtain ⟨cs, head⟩ := entriesText_head hs level written
    rw [head, List.cons_append] at entries ⊢
    have skipped := blank.skipTo (c := '"') rfl (cs ++ (closing ++ '\x7d' :: after))
    unfold readValue
    rw [if_neg (by decide), if_pos rfl]
    simp only [skipped]
    show (readEntries depth fuel [] ('"' :: (cs ++ (closing ++ '\x7d' :: after))) >>= _) = _
    rw [entries]
    rfl

section
variable {text : String} {rest : List Char}

theorem read_brace (ht : text.toList = '\x7b' :: rest) :
    read text = (readDocument ('\x7b' :: rest)).mapError (Stop.toError ('\x7b' :: rest)) := by
  have unmarked : ¬('\x7b' :: rest).head? = some (Char.ofNat 0xFEFF) :=
    fun mark => absurd (Option.some.inj mark) (by decide)
  unfold read
  dsimp only
  rw [ht, if_neg unmarked]

/-- A document is a value with nothing after it. -/
theorem read_of_value {v : Value} (ht : text.toList = '\x7b' :: rest)
    (hv : readValue nestingLimit (2 * ('\x7b' :: rest).length + 2) ('\x7b' :: rest) = .ok (v, [])) :
    read text = .ok v := by
  rw [read_brace ht]
  unfold readDocument
  simp only [skipSpace_cons (show isSpace '\x7b' = false from rfl)]
  rw [hv]
  rfl

/-- A text that is read as a value is read as a document, unless a byte order mark comes first. -/
theorem read_of_renders {v : Value} (h : Renders text.toList v)
    (unmarked : text.toList.head? ≠ some (Char.ofNat 0xFEFF)) : read text = .ok v := by
  obtain ⟨c, cs, first, space⟩ := h.head
  have value := h.read nestingLimit (2 * (c :: cs).length + 1) [] (by simp [Follows])
  rw [first] at value unmarked
  rw [List.append_nil] at value
  unfold read readDocument
  simp only [first, if_neg unmarked, skipSpace_cons space]
  rw [value]
  rfl

/-- What is no value is no document. -/
theorem read_of_fault {fault : Fault} {after : List Char} (ht : text.toList = '\x7b' :: rest)
    (hv : readValue nestingLimit (2 * ('\x7b' :: rest).length + 2) ('\x7b' :: rest) =
      .error (.fault fault after)) :
    ∃ line column position, read text = .error (.malformed fault line column position) := by
  rw [read_brace ht]
  unfold readDocument
  simp only [skipSpace_cons (show isSpace '\x7b' = false from rfl)]
  rw [hv]
  exact ⟨_, _, _, rfl⟩

end

/-- A map of scalars is written, its entries in the order of the layout. -/
theorem write_map (layout : Layout) {es : List (String × Value)} (scalar : ∀ e ∈ es, Scalar e.2) :
    ∃ written, write layout (.map es) = .ok (bracketed layout 0 "\x7b" "\x7d" written) ∧
      List.Forall₂ (EntryText layout) (ordered layout es) written := by
  obtain ⟨written, hw, texts⟩ :=
    entries_written (fun e he => scalar e ((ordered_perm layout es).mem_iff.1 he)) layout 1
  refine ⟨written, ?_, texts⟩
  show writeAt layout 0 (.map es) = _
  unfold writeAt
  rw [writeEntries_eq, ordered_map, hw]
  rfl

theorem bracketed_cons (layout : Layout) (s : String) (written : List String) :
    (bracketed layout 0 "\x7b" "\x7d" (s :: written)).toList = '\x7b' ::
      ((newline layout 1).toList ++ (entriesText layout 1 (s :: written) ++
        ((newline layout 0).toList ++ ['\x7d']))) := by
  unfold bracketed entriesText
  simp [List.append_assoc]

/-- What was written of a map of scalars is read as the map in the order of the layout. -/
theorem read_write (h : layout.Readable) {es : List (String × Value)} (scalar : ∀ e ∈ es, Scalar e.2)
    (distinct : (es.map Prod.fst).Nodup) :
    ∃ text, write layout (.map es) = .ok text ∧ read text = .ok (.map (ordered layout es)) := by
  have perm := ordered_perm layout es
  have keys : ((ordered layout es).map Prod.fst).Nodup := (perm.map Prod.fst).nodup_iff.2 distinct
  obtain ⟨written, text, texts⟩ := write_map layout scalar
  refine ⟨_, text, ?_⟩
  generalize ordered layout es = es at texts keys
  cases texts with
  | nil =>
    have empty : (bracketed layout 0 "\x7b" "\x7d" []).toList = ['\x7b', '\x7d'] := by
      simp [bracketed]
    exact read_of_value empty rfl
  | @cons e s es written hs texts =>
    have length := length_le_entriesText (List.Forall₂.cons hs texts) 1
    refine read_of_value (bracketed_cons layout s written) (readValue_map h (.cons hs texts)
      (List.cons_ne_nil _ _) keys 979 1 (h.newline 1) (h.newline 0) [] ?_)
    simp only [List.length_cons, List.length_append] at length ⊢
    omega

/-- No entry starts without a quote. -/
theorem readValue_noKey {c : Char} (space : isSpace c = false) (quote : c ≠ '"') (brace : c ≠ '\x7d')
    (depth fuel : Nat) {blanks : List Char} (blank : Blank blanks) (rest : List Char) :
    readValue (depth + 1) (fuel + 2) ('\x7b' :: (blanks ++ c :: rest)) =
      .error (.fault .propertyName (c :: rest)) := by
  have entries : readEntries depth (fuel + 1) [] (c :: rest) =
      .error (.fault .propertyName (c :: rest)) := by
    unfold readEntries
    split
    · rename_i key
      exact absurd (List.cons.inj key).1 quote
    · rfl
  unfold readValue
  rw [if_neg (by decide), if_pos rfl]
  dsimp only
  rw [blank.skipTo space]
  split
  · rename_i closing
    exact absurd (List.cons.inj closing).1 brace
  · rw [entries]
    rfl

/-- A document that is indented with something else than white space is none. -/
theorem read_indented {unit : String} {c : Char} {cs : List Char} (hu : layout.indent = some unit)
    (first : unit.toList = c :: cs) (space : isSpace c = false) (quote : c ≠ '"') (brace : c ≠ '\x7d')
    {es : List (String × Value)} (scalar : ∀ e ∈ es, Scalar e.2) (any : es ≠ []) :
    ∃ text, write layout (.map es) = .ok text ∧ ∃ line column position,
      read text = .error (.malformed .propertyName line column position) := by
  obtain ⟨written, text, texts⟩ := write_map layout scalar
  have any : ordered layout es ≠ [] := fun none => any ((none ▸ ordered_perm layout es).nil_eq).symm
  generalize ordered layout es = es' at any texts
  cases texts with
  | nil => exact absurd rfl any
  | @cons e s es' written hs texts =>
    have line : (newline layout 1).toList = ['\n'] ++ c :: cs := by
      unfold newline
      rw [hu]
      simp [first]
    have begins := bracketed_cons layout s written
    rw [line, List.append_assoc, List.cons_append] at begins
    have blank : Blank ['\n'] := List.forall_mem_singleton.2 rfl
    exact ⟨_, text, read_of_fault begins (readValue_noKey space quote brace 979 _ blank _)⟩

end VideoExport.Json
