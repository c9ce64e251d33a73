import VideoExport.Proofs.Json.Document
import VideoExport.Proofs.Settings.Domain
import VideoExport.Settings.Document

/-!
# Settings read back

Settings that were sanitized are written as a document under every layout that indents with white space,
and reading the document gives the same settings (`Settings.read_write`).
-/

set_option autoImplicit false

namespace VideoExport

/-! ## Layouts that options ask for -/

namespace Json.Layout

/-- The options that say how settings are laid out. -/
def layoutOptions : List String := ["indent", "ensure_ascii", "sort_keys"]

/-- An indentation of white space: none, a number of blanks, or a text of the white space that documents
may hold. A switch counts as a number; a number has to be one that can count characters. -/
def BlankIndent : Value → Prop
  | .null | .bool _ => True
  | .number (.int n) => -2 ^ 63 ≤ n ∧ n < 2 ^ 63
  | .text s => Blank s.toList
  | _ => False

theorem indentation_blank {v : Value} (h : BlankIndent v) :
    ∃ indent, indentation v = .ok indent ∧ ∀ unit ∈ indent, Blank unit.toList := by
  have blanks (n : Nat) : Blank (String.ofList (List.replicate n ' ')).toList := by
    intro c hc
    rw [String.toList_ofList] at hc
    rw [List.eq_of_mem_replicate hc]
    rfl
  cases v with
  | null => exact ⟨none, rfl, nofun⟩
  | bool b => exact ⟨_, rfl, by rintro unit ⟨⟩; exact blanks _⟩
  | number n =>
    cases n with
    | int n => exact ⟨_, rfl, by rintro unit ⟨⟩; exact blanks _⟩
    | real => cases h
  | text s => exact ⟨some s, rfl, by rintro unit ⟨⟩; exact h⟩
  | octets => cases h
  | list => cases h
  | map => cases h

variable {options : List (String × Value)}

theorem get?_unnamed (names : ∀ o ∈ options, o.1 ∈ layoutOptions) (name : String)
    (h : name ∉ layoutOptions) : (Value.map options).get? name = none := by
  show options.lookup name = none
  rw [List.lookup_eq_none_iff]
  intro o ho
  exact bne_iff_ne.2 fun same => h (same ▸ names o ho)

theorem checkOptions_ok (names : ∀ o ∈ options, o.1 ∈ layoutOptions) :
    checkOptions (.map options) = .ok () := by
  have known : ∀ name ∈ layoutOptions, ¬(!optionNames.contains name) = true := by decide
  unfold checkOptions
  dsimp only
  rw [List.find?_eq_none.2 fun o ho => known o.1 (names o ho)]

theorem unasked_item (indented : Bool) :
    ∃ blanks, (separators.unasked indented).1.toList = ',' :: blanks ∧ Blank blanks := by
  cases indented with
  | true => exact ⟨[], rfl, List.forall_mem_nil _⟩
  | false => exact ⟨[' '], rfl, List.forall_mem_singleton.2 rfl⟩

theorem ofOptions_readable (names : ∀ o ∈ options, o.1 ∈ layoutOptions)
    (indent : BlankIndent (((Value.map options).get? "indent").getD .null)) :
    ∃ layout, ofOptions (.map options) = .ok layout ∧ layout.Readable := by
  obtain ⟨unit, hu, blank⟩ := indentation_blank indent
  unfold ofOptions
  dsimp only
  rw [checkOptions_ok names, get?_unnamed names "separators" (by decide)]
  show ∃ layout, (indentation _ >>= _) = _ ∧ _
  rw [hu]
  have key : (": " : String).toList = [':', ' '] := rfl
  exact ⟨_, rfl, blank, unasked_item _, [' '], key, List.forall_mem_singleton.2 rfl⟩

end Json.Layout

/-! ## Entries of sanitized settings -/

variable {d : Draft} {hasImage : Bool} {s : Settings} {r : Record}

/-- Sanitizing looks at the fields of a draft and at nothing else of it. -/
theorem Settings.ofDraft_congr {d d' : Draft} (h : ∀ f, d.value? f = d'.value? f) (hasImage : Bool) :
    ofDraft d hasImage = ofDraft d' hasImage := by
  simp only [ofDraft, Draft.number, Draft.switch, Draft.text, Draft.color, Draft.rotation,
    Draft.fontStyle, h]

theorem Field.key_spells (f : Field) : Field.ofSpelling? f.key = some f := by cases f <;> rfl

theorem lookup_of_mem {l : Draft} (all : ∀ e ∈ l, e.2 = r e.1) {f : Field} (mem : (f, r f) ∈ l) :
    l.lookup f = some (r f) := by
  induction l with
  | nil => cases mem
  | cons e l ih =>
    rw [List.lookup_cons]
    by_cases here : f = e.1
    · rw [beq_iff_eq.2 here, all e (.head _), here]
    · rw [beq_eq_false_iff_ne.2 here]
      refine ih (fun e he => all e (.tail _ he)) ((List.mem_cons.1 mem).resolve_left ?_)
      rintro rfl
      exact here rfl

/-- The entries of a document give their fields back in any order. -/
theorem Record.value?_document {entries : List (String × Value)}
    (h : entries.Perm (Field.all.map fun f => (f.key, r f))) (f : Field) :
    (Draft.ofEntries entries).value? f = some (r f) := by
  have draft : Draft.ofEntries (Field.all.map fun f => (f.key, r f)) = r.draft := by
    unfold Draft.ofEntries Record.draft
    rw [List.filterMap_map, ← List.filterMap_eq_map]
    refine congrArg (List.filterMap · Field.all) (funext fun f => ?_)
    exact congrArg (Option.map fun g => (g, r f)) f.key_spells
  have perm : (Draft.ofEntries entries).Perm r.draft := draft ▸ h.filterMap _
  have same := (List.reverse_perm (Draft.ofEntries entries)).trans perm
  refine lookup_of_mem (fun e he => ?_) (same.mem_iff.2 (List.mem_map_of_mem f.mem_all))
  obtain ⟨g, -, rfl⟩ := List.mem_map.1 (same.mem_iff.1 he)
  rfl

theorem Settings.ofDraft_scalar (h : ofDraft d hasImage = .ok s) (f : Field) : Json.Scalar (s.record f) := by
  cases hb : f.bounds? with
  | some b =>
    have within := Draft.number_within hb d
    rw [ofDraft_record h hb]
    have near : (Number.int (-1000)).le b.lo = true ∧ b.hi.le (.int 1000) = true := by
      cases f <;> cases hb <;> decide +kernel
    exact ⟨within.finite, within.isShort near.1 near.2⟩
  | none =>
    have angle : Json.Scalar (.number (.int s.rotation)) := by
      have turns : ∀ n ∈ ([0, 90, 180, 270] : List Int), (Number.int n).isFinite = true ∧
          n.natAbs < Nat.pow 10 digitLimit := by decide +kernel
      obtain ⟨finite, short⟩ := turns _ (ofDraft_inDomain h).rotation
      exact ⟨finite, by rintro m ⟨⟩; exact short⟩
    cases f <;> first | exact trivial | exact angle | cases hb

namespace Settings

theorem ofDraft_entries (h : ofDraft d hasImage = .ok s) :
    ∀ e ∈ Field.all.map fun f => (f.key, s.record f), Json.Scalar e.2 := by
  intro e he
  obtain ⟨f, -, rfl⟩ := List.mem_map.1 he
  exact ofDraft_scalar h f

/-- What is read are the settings that the value of the document stands for. -/
theorem read_ofValue {source : Source} {v : Value} (value : source.value = .ok v)
    (given : ofDraft (.ofValue v) hasImage = .ok s) : read source hasImage = .ok s := by
  unfold read
  rw [value]
  show (ofDraft (Draft.ofValue v) hasImage).mapError Failure.numeric = _
  rw [given]
  rfl

theorem ofDraft_nil (hasImage : Bool) : ofDraft [] hasImage = .ok default := by
  cases hasImage <;> decide +kernel

theorem read_null {source : Source} (value : source.value = .ok .null) (hasImage : Bool) :
    read source hasImage = .ok default :=
  read_ofValue value (ofDraft_nil hasImage)

/-- What is written of sanitized settings is read as what they are sanitized to once more. -/
theorem ofDraft_rewritten (h : ofDraft d hasImage = .ok s) {layout : Json.Layout}
    (readable : layout.Readable) : ∃ text, s.write layout = .ok text ∧
      ∀ kept t, s.resanitize kept = .ok t → read (.text text) kept = .ok t := by
  have distinct : ((Field.all.map fun f => (f.key, s.record f)).map Prod.fst).Nodup := by
    rw [List.map_map]
    show (Field.all.map Field.key).Nodup
    decide
  obtain ⟨text, written, value⟩ := Json.read_write readable (ofDraft_entries h) distinct
  refine ⟨text, written, fun kept t again => ?_⟩
  have fields := Record.value?_document (r := s.record)
    (Json.ordered_perm layout (Field.all.map fun f => (f.key, s.record f)))
  have same := ofDraft_congr (fun f => (fields f).trans (Record.value?_draft s.record f).symm) kept
  have source : Source.value (.text text) =
      .ok (.map (Json.ordered layout (Field.all.map fun f => (f.key, s.record f)))) :=
    congrArg Source.value.recover value
  exact read_ofValue source (same.trans again)

/-- What is written of sanitized settings is read as the same settings. -/
theorem ofDraft_written (h : ofDraft d hasImage = .ok s) {layout : Json.Layout}
    (readable : layout.Readable) :
    ∃ text, s.write layout = .ok text ∧ read (.text text) hasImage = .ok s := by
  obtain ⟨text, written, again⟩ := ofDraft_rewritten h readable
  exact ⟨text, written, again hasImage s (ofDraft_again h)⟩

/-- Under an indentation that is not white space, nothing is kept: reading gives the default settings. -/
theorem ofDraft_indented (h : ofDraft d hasImage = .ok s) {layout : Json.Layout} {unit : String}
    {c : Char} {cs : List Char} (hu : layout.indent = some unit) (first : unit.toList = c :: cs)
    (space : Json.isSpace c = false) (quote : c ≠ '"') (brace : c ≠ '\x7d') :
    ∃ text, s.write layout = .ok text ∧ read (.text text) hasImage = .ok default := by
  obtain ⟨text, written, line, column, position, fault⟩ :=
    Json.read_indented hu first space quote brace (ofDraft_entries h) (List.cons_ne_nil _ _)
  have source : Source.value (.text text) = .ok .null := congrArg Source.value.recover fault
  exact ⟨text, written, read_null source hasImage⟩

/-- Settings that were sanitized are what is read of the document that was written of them, under all
options for its layout of which the indentation is white space. -/
theorem sanitized_reads_back {raw : Raw} (h : sanitize raw hasImage = .ok s)
    (options : List (String × Value)) (names : ∀ o ∈ options, o.1 ∈ Json.Layout.layoutOptions)
    (indent : Json.Layout.BlankIndent (((Value.map options).get? "indent").getD .null)) :
    ∃ layout text, Json.Layout.ofOptions (.map options) = .ok layout ∧ s.write layout = .ok text ∧
      read (.text text) hasImage = .ok s ∧ s.same s = true := by
  obtain ⟨layout, hl, readable⟩ := Json.Layout.ofOptions_readable names indent
  obtain ⟨text, written, again⟩ := ofDraft_written h readable
  exact ⟨layout, text, hl, written, again, (ofDraft_inDomain h).same_self⟩

/-- Settings with a text of characters that are written as escapes of each kind, under options that
indent, escape and sort. -/
def escapedEntries : Raw := .value (.map [("brightness", .number (.decimal 25 2)),
  ("watermark_text", .text "\"a\\b\"\n\x01é😀")])

theorem escapedEntries_reads_back : ∃ s layout text, sanitize escapedEntries true = .ok s ∧
    s.text.content = "\"a\\b\"\n\x01é😀" ∧
    Json.Layout.ofOptions (.map [("indent", .number 2), ("ensure_ascii", .bool true),
      ("sort_keys", .bool true)]) = .ok layout ∧
    s.write layout = .ok text ∧ read (.text text) true = .ok s := by
  obtain ⟨s, h⟩ : ∃ s, sanitize escapedEntries true = .ok s := ⟨_, rfl⟩
  obtain ⟨layout, text, hl, written, again, -⟩ := sanitized_reads_back h
    [("indent", .number 2), ("ensure_ascii", .bool true), ("sort_keys", .bool true)]
    (by decide) ⟨by decide, by decide⟩
  have content : s.text.content = "\"a\\b\"\n\x01é😀" := by
    cases h
    rfl
  exact ⟨s, layout, text, h, content, hl, written, again⟩

/-- Settings of a brighter picture. -/
def brighterEntries : Raw := .value (.map [("brightness", .number (.decimal 5 1))])

/-- A document that is indented with a letter is none, so the settings that it was written of are lost. -/
theorem lettered_not_read_back : ∃ s layout text, sanitize brighterEntries false = .ok s ∧
    Json.Layout.ofOptions (.map [("indent", .text "x")]) = .ok layout ∧ s.write layout = .ok text ∧
    read (.text text) false = .ok default ∧ s.same default = false := by
  obtain ⟨s, h⟩ : ∃ s, sanitize brighterEntries false = .ok s := ⟨_, rfl⟩
  obtain ⟨layout, hl, hu⟩ : ∃ layout,
      Json.Layout.ofOptions (.map [("indent", .text "x")]) = .ok layout ∧ layout.indent = some "x" :=
    ⟨_, rfl, rfl⟩
  obtain ⟨text, written, lost⟩ := ofDraft_indented h hu rfl rfl (by decide) (by decide)
  refine ⟨s, layout, text, h, hl, written, lost, ?_⟩
  cases h
  decide +kernel

end Settings

end VideoExport
