import VideoExport.Proofs.Graph.Drawtext

/-!
# How a graph is read

The text of a graph has chains between semicolons and filters between commas, and a chain may have labels
in brackets at either end. None of these marks counts where it is quoted (`lex`). Texts whose quotations
are closed and whose marks are quoted (`Sealed`), as those of filters are (`VideoFilter.sealed_write`), are
read as they were put together (`splitOutside_intercalate`, `readChain_written`, `readGraph_intercalate`).
-/

set_option autoImplicit false

namespace VideoExport

/-! ## The reader -/

/-- A character of a graph's text, and whether it is quoted. The apostrophes of a quotation count as
quoted. -/
structure Lexeme where
  quoted : Bool
  char : Char
  deriving DecidableEq

/-- The characters of a text, from outside or inside a quotation. -/
def lex (quoted : Bool) : List Char → List Lexeme
  | [] => []
  | c :: rest => if c = '\'' then ⟨true, c⟩ :: lex (!quoted) rest else ⟨quoted, c⟩ :: lex quoted rest

def outside (c : Char) : Lexeme := ⟨false, c⟩

def textOf (l : List Lexeme) : String := .ofList (l.map Lexeme.char)

/-- The texts between separators that are not quoted. -/
def pieces (separator : Char) (l : List Lexeme) : List String :=
  (l.splitOn (outside separator)).map textOf

def splitOutside (separator : Char) (text : String) : List String :=
  pieces separator (lex false text.toList)

/-- A chain of filters, with the labels of the pads that it takes and of those that it makes. -/
structure Chain where
  consumed : List String
  filters : List String
  defined : List String
  deriving DecidableEq

/-- The labels at the start of a text, and what follows them. -/
def takeLabels (l : List Lexeme) : List String × List Lexeme :=
  match l with
  | [] => ([], [])
  | x :: rest =>
    if x = outside '[' then
      match _h : rest.dropWhile (· ≠ outside ']') with
      | [] => ([], x :: rest)
      | _ :: after =>
        let (labels, left) := takeLabels after
        (textOf (rest.takeWhile (· ≠ outside ']')) :: labels, left)
    else ([], x :: rest)
termination_by l.length
decreasing_by
  have shorter := (List.dropWhile_suffix (· ≠ outside ']') (l := rest)).length_le
  rw [_h] at shorter
  simp only [List.length_cons] at shorter ⊢
  omega

/-- A chain has filters between commas, and labels before the first and after the last; brackets stand
nowhere else. -/
def readChain (l : List Lexeme) : Option Chain :=
  let (consumed, rest) := takeLabels l
  let body := rest.takeWhile (· ≠ outside '[')
  let (defined, left) := takeLabels (rest.dropWhile (· ≠ outside '['))
  if left = [] ∧ outside ']' ∉ body then some ⟨consumed, pieces ',' body, defined⟩ else none

/-- A graph has chains between semicolons. -/
def readGraph (text : String) : Option (List Chain) :=
  ((lex false text.toList).splitOn (outside ';')).mapM readChain

/-! ## Quotations -/

variable {t u : List Char} {marks : List Char}

theorem textOf_lex (quoted : Bool) (t : List Char) : textOf (lex quoted t) = .ofList t := by
  unfold textOf
  congr 1
  induction t generalizing quoted with
  | nil => rfl
  | cons c t ih =>
    unfold lex
    split
    · exact congrArg (c :: ·) (ih _)
    · exact congrArg (c :: ·) (ih _)

theorem lex_append_plain (quoted : Bool) (h : '\'' ∉ t) (rest : List Char) :
    lex quoted (t ++ rest) = t.map (⟨quoted, ·⟩) ++ lex quoted rest := by
  induction t with
  | nil => rfl
  | cons c t ih =>
    obtain ⟨apostrophe, h⟩ := not_or.1 (mt List.mem_cons.2 h)
    rw [List.cons_append, lex, if_neg (Ne.symm apostrophe), ih h]
    rfl

theorem lex_plain (h : '\'' ∉ t) : lex false t = t.map outside := by
  have appended := lex_append_plain false h []
  rwa [List.append_nil, lex, List.append_nil] at appended

theorem lex_quotation (h : '\'' ∉ t) (rest : List Char) : lex false ('\'' :: t ++ '\'' :: rest) =
    ⟨true, '\''⟩ :: t.map (⟨true, ·⟩) ++ ⟨true, '\''⟩ :: lex false rest := by
  rw [List.cons_append, lex, if_pos rfl, Bool.not_false, lex_append_plain true h, lex, if_pos rfl]
  rfl

/-- A text after which a reader stands outside of quotations again. -/
def Closed (t : List Char) : Prop := ∀ rest, lex false (t ++ rest) = lex false t ++ lex false rest

theorem Closed.append (ht : Closed t) (hu : Closed u) : Closed (t ++ u) := by
  intro rest
  rw [List.append_assoc, ht, hu, ht, List.append_assoc]

theorem closed_plain (h : '\'' ∉ t) : Closed t := by
  intro rest
  rw [lex_append_plain false h, lex_plain h]
  rfl

theorem closed_quotation (h : '\'' ∉ t) : Closed ('\'' :: t ++ ['\'']) := by
  intro rest
  rw [List.append_assoc, List.singleton_append, lex_quotation h, lex_quotation h, lex,
    List.append_assoc]
  rfl

/-- A closed text in which the marks are all quoted. -/
structure Sealed (marks t : List Char) : Prop where
  closed : Closed t
  quoted : ∀ c ∈ marks, outside c ∉ lex false t

/-- A character that is no mark and does not quote. -/
def isPlain (marks : List Char) (c : Char) : Bool := !('\'' :: marks).contains c

theorem isPlain_iff {c : Char} : isPlain marks c = true ↔ c ≠ '\'' ∧ c ∉ marks := by
  simp [isPlain]

theorem Sealed.append (ht : Sealed marks t) (hu : Sealed marks u) : Sealed marks (t ++ u) where
  closed := ht.closed.append hu.closed
  quoted c mark mem := by
    rw [ht.closed] at mem
    exact (List.mem_append.1 mem).elim (ht.quoted c mark) (hu.quoted c mark)

theorem Sealed.mono {fewer : List Char} (ht : Sealed marks t) (h : ∀ c ∈ fewer, c ∈ marks) :
    Sealed fewer t :=
  ⟨ht.closed, fun c mark => ht.quoted c (h c mark)⟩

theorem sealed_plain (h : ∀ c ∈ t, isPlain marks c = true) : Sealed marks t := by
  have apostrophe : '\'' ∉ t := fun mem => (isPlain_iff.1 (h _ mem)).1 rfl
  refine ⟨closed_plain apostrophe, fun c mark mem => ?_⟩
  rw [lex_plain apostrophe] at mem
  obtain ⟨d, hd, eq⟩ := List.mem_map.1 mem
  cases eq
  exact (isPlain_iff.1 (h _ hd)).2 mark

theorem sealed_quotation (h : '\'' ∉ t) : Sealed marks ('\'' :: t ++ ['\'']) where
  closed := closed_quotation h
  quoted c _ mem := by
    rw [lex_quotation h, lex] at mem
    rcases List.mem_append.1 mem with mem | mem
    · rcases List.mem_cons.1 mem with eq | mem
      · cases eq
      · obtain ⟨d, -, eq⟩ := List.mem_map.1 mem
        cases eq
    · cases List.mem_singleton.1 mem

theorem Sealed.intercalate {separator : Char} (plain : isPlain marks separator = true)
    {ts : List (List Char)} (h : ∀ t ∈ ts, Sealed marks t) :
    Sealed marks ([separator].intercalate ts) := by
  induction ts with
  | nil => exact sealed_plain fun _ mem => absurd mem List.not_mem_nil
  | cons t ts ih =>
    obtain ⟨first, others⟩ := List.forall_mem_cons.1 h
    cases ts with
    | nil => rwa [List.intercalate_singleton]
    | cons u ts =>
      have between : Sealed marks [separator] := sealed_plain fun _ mem => List.mem_singleton.1 mem ▸ plain
      rw [List.intercalate_cons_cons]
      exact (first.append between).append (ih others)

/-! ## Texts that were put together -/

theorem lex_intercalate {separator : Char} (apostrophe : separator ≠ '\'') {ts : List (List Char)}
    (h : ∀ t ∈ ts, Closed t) :
    lex false ([separator].intercalate ts) = [outside separator].intercalate (ts.map (lex false)) := by
  induction ts with
  | nil => rfl
  | cons t ts ih =>
    obtain ⟨first, others⟩ := List.forall_mem_cons.1 h
    cases ts with
    | nil => simp
    | cons u ts =>
      have between := lex_plain (mt List.mem_singleton.1 apostrophe.symm)
      rw [List.map_cons] at ih ⊢
      rw [List.map_cons, List.intercalate_cons_cons, List.intercalate_cons_cons, List.append_assoc,
        first, closed_plain (mt List.mem_singleton.1 apostrophe.symm), between, ih others,
        List.append_assoc]
      rfl

theorem splitOn_lex_intercalate {separator : Char} (apostrophe : separator ≠ '\'')
    {ts : List (List Char)} (nonempty : ts ≠ []) (h : ∀ t ∈ ts, Sealed [separator] t) :
    (lex false ([separator].intercalate ts)).splitOn (outside separator) = ts.map (lex false) := by
  rw [lex_intercalate apostrophe fun t mem => (h t mem).closed]
  refine List.splitOn_intercalate _ ?_ (by simpa using nonempty)
  intro l mem
  obtain ⟨t, ht, rfl⟩ := List.mem_map.1 mem
  exact (h t ht).quoted _ (.head _)

theorem pieces_lex_intercalate {separator : Char} (apostrophe : separator ≠ '\'') {texts : List String}
    (nonempty : texts ≠ []) (h : ∀ text ∈ texts, Sealed [separator] text.toList) :
    pieces separator (lex false ([separator].intercalate (texts.map String.toList))) = texts := by
  have back : (textOf ∘ lex false) ∘ String.toList = id := by
    funext text
    exact (textOf_lex false text.toList).trans (String.ofList_toList)
  unfold pieces
  rw [splitOn_lex_intercalate apostrophe (by simpa using nonempty) (by simpa using h), List.map_map,
    List.map_map, back, List.map_id]

/-- Texts that are sealed against their separator are what the text that joins them is split into. -/
theorem splitOutside_intercalate {separator : Char} (apostrophe : separator ≠ '\'') {texts : List String}
    (nonempty : texts ≠ []) (h : ∀ text ∈ texts, Sealed [separator] text.toList) :
    splitOutside separator ((String.singleton separator).intercalate texts) = texts := by
  unfold splitOutside
  rw [String.toList_intercalate, String.toList_singleton]
  exact pieces_lex_intercalate apostrophe nonempty h

/-- The marks of a graph. -/
def graphMarks : List Char := [',', ';', '[', ']']

/-- Labels as they are written. -/
def writeLabels (names : List String) : List Char := names.flatMap fun name => '[' :: name.toList ++ [']']

/-- A text without marks or apostrophes, as labels are. -/
def IsUnmarked (text : String) : Prop := Consists (isPlain graphMarks) text

namespace IsUnmarked

variable {a b : String}

theorem of_all (h : a.toList.all (isPlain graphMarks) = true) : IsUnmarked a := Consists.of_all h

theorem of_numeral (h : IsNumeral a) : IsUnmarked a :=
  h.mono fun _ => Drawtext.notContains_of (by decide)

theorem append (ha : IsUnmarked a) (hb : IsUnmarked b) : IsUnmarked (a ++ b) := Consists.append ha hb

theorem sealed (h : IsUnmarked a) : Sealed graphMarks a.toList := sealed_plain h

theorem label_sealed (h : IsUnmarked a) : Sealed [',', ';'] ('[' :: a.toList ++ [']']) :=
  ((sealed_plain (t := ['[']) (by simp [isPlain])).append
    (h.sealed.mono (by simp [graphMarks]))).append (sealed_plain (by simp [isPlain]))

end IsUnmarked

theorem writeLabels_sealed {names : List String} (h : ∀ name ∈ names, IsUnmarked name) :
    Sealed [',', ';'] (writeLabels names) := by
  induction names with
  | nil => exact sealed_plain fun _ mem => absurd mem List.not_mem_nil
  | cons name names ih =>
    obtain ⟨first, others⟩ := List.forall_mem_cons.1 h
    exact first.label_sealed.append (ih others)

theorem takeWhile_lex_writeLabels (names : List String) :
    (lex false (writeLabels names)).takeWhile (· ≠ outside '[') = [] ∧
      (lex false (writeLabels names)).dropWhile (· ≠ outside '[') = lex false (writeLabels names) := by
  cases names with
  | nil => exact ⟨rfl, rfl⟩
  | cons name names =>
    exact ⟨List.takeWhile_cons_of_neg (by simp [outside]), List.dropWhile_cons_of_neg (by simp [outside])⟩

/-- A text that is sealed against brackets does not begin with one. -/
theorem head?_lex_append {body : List Char} (h : Sealed ['[', ']'] body) (nonempty : body ≠ [])
    (rest : List Char) : (lex false (body ++ rest)).head? ≠ some (outside '[') := by
  rw [h.closed]
  cases hl : lex false body with
  | nil =>
    have text := textOf_lex false body
    rw [hl] at text
    exact absurd (String.ofList_eq_empty_iff.1 text.symm) nonempty
  | cons x rest =>
    intro head
    cases head
    exact h.quoted '[' (.head _) (hl ▸ .head _)

theorem takeLabels_of_head? {l : List Lexeme} (h : l.head? ≠ some (outside '[')) :
    takeLabels l = ([], l) := by
  cases l with
  | nil => rw [takeLabels]
  | cons x rest =>
    have other : x ≠ outside '[' := fun same => h (congrArg some same)
    rw [takeLabels, if_neg other]

theorem lex_label {name : String} (h : IsUnmarked name) (rest : List Char) :
    lex false ('[' :: name.toList ++ [']'] ++ rest) =
      outside '[' :: (lex false name.toList ++ outside ']' :: lex false rest) := by
  have closed := h.sealed.closed
  rw [List.append_assoc, List.cons_append, lex, if_neg (by decide), closed, List.singleton_append, lex,
    if_neg (by decide)]
  rfl

theorem takeLabels_label {name : String} (h : IsUnmarked name) (rest : List Lexeme) :
    takeLabels (outside '[' :: (lex false name.toList ++ outside ']' :: rest)) =
      (name :: (takeLabels rest).1, (takeLabels rest).2) := by
  have inside : ∀ x ∈ lex false name.toList, decide (x ≠ outside ']') = true := fun x hx =>
    decide_eq_true fun same => h.sealed.quoted ']' (by decide) (same ▸ hx)
  have text : (lex false name.toList ++ outside ']' :: rest).takeWhile (· ≠ outside ']') =
      lex false name.toList := by
    rw [List.takeWhile_append_of_pos inside, List.takeWhile_cons_of_neg (by simp), List.append_nil]
  have after : (lex false name.toList ++ outside ']' :: rest).dropWhile (· ≠ outside ']') =
      outside ']' :: rest := by
    rw [List.dropWhile_append_of_pos inside, List.dropWhile_cons_of_neg (by simp)]
  rw [takeLabels, if_pos rfl]
  split
  · rename_i none
    rw [after] at none
    cases none
  · rename_i some
    rw [after] at some
    cases some
    rw [text, textOf_lex, String.ofList_toList]

theorem takeLabels_writeLabels {names : List String} (h : ∀ name ∈ names, IsUnmarked name)
    (rest : List Char) (head : (lex false rest).head? ≠ some (outside '[')) :
    takeLabels (lex false (writeLabels names ++ rest)) = (names, lex false rest) := by
  induction names with
  | nil => exact takeLabels_of_head? head
  | cons name names ih =>
    obtain ⟨first, others⟩ := List.forall_mem_cons.1 h
    have written : writeLabels (name :: names) ++ rest =
        '[' :: name.toList ++ [']'] ++ (writeLabels names ++ rest) := List.append_assoc ..
    rw [written, lex_label first, takeLabels_label first, ih others]

/-- A chain as it is written. -/
def Chain.write (c : Chain) : List Char :=
  writeLabels c.consumed ++ ([','].intercalate (c.filters.map String.toList) ++ writeLabels c.defined)

/-- What makes a chain readable. -/
structure Chain.Readable (c : Chain) : Prop where
  consumed : ∀ name ∈ c.consumed, IsUnmarked name
  filters : ∀ filter ∈ c.filters, Sealed graphMarks filter.toList
  defined : ∀ name ∈ c.defined, IsUnmarked name
  /-- Some filter has a text. -/
  nonempty : [','].intercalate (c.filters.map String.toList) ≠ []

namespace Chain.Readable

variable {c : Chain}

theorem body (h : c.Readable) {marks : List Char} (comma : isPlain marks ',' = true)
    (some : ∀ m ∈ marks, m ∈ graphMarks) :
    Sealed marks ([','].intercalate (c.filters.map String.toList)) := by
  refine .intercalate comma fun t mem => ?_
  obtain ⟨filter, hf, rfl⟩ := List.mem_map.1 mem
  exact (h.filters filter hf).mono some

theorem sealed (h : c.Readable) : Sealed [';'] c.write :=
  ((writeLabels_sealed h.consumed).mono (by simp)).append
    ((h.body (by decide) (by simp [graphMarks])).append ((writeLabels_sealed h.defined).mono (by simp)))

end Chain.Readable

/-- A chain is read as it was written. -/
theorem readChain_write {c : Chain} (h : c.Readable) : readChain (lex false c.write) = some c := by
  have split : pieces ',' (lex false ([','].intercalate (c.filters.map String.toList))) = c.filters := by
    have filters : c.filters ≠ [] := fun none => h.nonempty (by rw [none]; rfl)
    exact pieces_lex_intercalate (by decide) filters fun filter mem =>
      (h.filters filter mem).mono (by simp [graphMarks])
  have brackets : Sealed ['[', ']'] ([','].intercalate (c.filters.map String.toList)) :=
    h.body (by decide) (by simp [graphMarks])
  have nonempty := h.nonempty
  unfold Chain.write
  generalize [','].intercalate (c.filters.map String.toList) = body at brackets nonempty split
  have inside : ∀ x ∈ lex false body, decide (x ≠ outside '[') = true := fun x hx =>
    decide_eq_true fun same => brackets.quoted '[' (.head _) (same ▸ hx)
  have consumed := takeLabels_writeLabels h.consumed (body ++ writeLabels c.defined)
    (head?_lex_append brackets nonempty _)
  have defined : takeLabels (lex false (writeLabels c.defined)) = (c.defined, []) := by
    have alone := takeLabels_writeLabels h.defined [] nofun
    rwa [List.append_nil] at alone
  have labels := takeWhile_lex_writeLabels c.defined
  have body_read : (lex false (body ++ writeLabels c.defined)).takeWhile (· ≠ outside '[') =
      lex false body := by
    rw [brackets.closed, List.takeWhile_append_of_pos inside, labels.1, List.append_nil]
  have labels_left : (lex false (body ++ writeLabels c.defined)).dropWhile (· ≠ outside '[') =
      lex false (writeLabels c.defined) := by
    rw [brackets.closed, List.dropWhile_append_of_pos inside, labels.2]
  unfold readChain
  dsimp only
  rw [consumed, body_read, labels_left, defined, split]
  exact if_pos ⟨rfl, brackets.quoted ']' (by decide)⟩

section
variable {texts : List String} {chains : List Chain}

theorem texts_sealed (written : texts.map String.toList = chains.map Chain.write)
    (h : ∀ c ∈ chains, c.Readable) : ∀ text ∈ texts, Sealed [';'] text.toList := by
  intro text mem
  obtain ⟨c, hc, same⟩ := List.mem_map.1 (written ▸ List.mem_map_of_mem mem)
  exact same ▸ (h c hc).sealed

/-- A graph is read as the chains that it was put together from. -/
theorem readGraph_intercalate (written : texts.map String.toList = chains.map Chain.write)
    (nonempty : chains ≠ []) (h : ∀ c ∈ chains, c.Readable) :
    readGraph (";".intercalate texts) = some chains := by
  have closed : ∀ t ∈ chains.map Chain.write, Sealed [';'] t := by
    intro t mem
    obtain ⟨c, hc, rfl⟩ := List.mem_map.1 mem
    exact (h c hc).sealed
  have text : (";".intercalate texts).toList = [';'].intercalate (chains.map Chain.write) := by
    rw [String.toList_intercalate, written]
    rfl
  unfold readGraph
  rw [text, splitOn_lex_intercalate (by decide) (by simpa using nonempty) closed, mapM_eq_some,
    List.map_map, List.map_map]
  exact List.map_congr_left fun c hc => readChain_write (h c hc)

end

/-! ## Filters -/

theorem Drawtext.sealed_write {d : Drawtext} (h : d.Numeric) : Sealed graphMarks d.write.toList := by
  have last : ∀ c ∈ ':' :: [':'].intercalate (d.others.map optionText), isPlain graphMarks c = true := by
    intro c mem
    by_cases colon : c = ':'
    · exact colon ▸ by decide
    · cases literal : Drawtext.isLiteralChar c with
      | true => exact Drawtext.notContains_of (by decide) literal
      | false =>
        exact absurd ((List.mem_cons.1 mem).resolve_left colon) (Drawtext.notMem_others h literal colon)
  have first : Sealed graphMarks ("drawtext".toList ++ '=' :: Drawtext.beforeText) := sealed_plain fun c mem =>
    List.all_eq_true.1 (by decide) c mem
  have whole := (first.append (sealed_quotation (Drawtext.escaped_noApostrophe d.content))).append
    (sealed_plain last)
  rw [Drawtext.write_toList]
  simpa [Drawtext.beforeText] using whole

open IsUnmarked in
/-- Only the text of a text filter can have marks, and it is quoted. -/
theorem VideoFilter.sealed_write {f : VideoFilter} (h : f.Numeric) :
    Sealed graphMarks f.write.toList := by
  cases f with
  | text d => exact Drawtext.sealed_write h
  | color b c s =>
    exact ((((((of_all (by decide)).append (of_numeral h.1)).append (of_all (by decide))).append
      (of_numeral h.2.1)).append (of_all (by decide))).append (of_numeral h.2.2)).sealed
  | crop k m =>
    exact ((((((((of_all (by decide)).append (of_numeral h.1)).append (of_all (by decide))).append
      (of_numeral h.1)).append (of_all (by decide))).append (of_numeral h.2)).append
      (of_all (by decide))).append (of_numeral h.2)).sealed
  | uncrop k =>
    exact ((((of_all (by decide)).append (of_numeral h)).append (of_all (by decide))).append
      (of_numeral h)).sealed
  | noise n => exact (((of_all (by decide)).append (of_numeral h)).append (of_all (by decide))).sealed
  | speed n => exact ((of_all (by decide)).append (of_numeral h)).sealed
  | fadeIn n => exact ((of_all (by decide)).append (of_numeral h)).sealed
  | fadeOut s d =>
    exact ((((of_all (by decide)).append (of_numeral h.1)).append (of_all (by decide))).append
      (of_numeral h.2)).sealed
  | turn t => cases t <;> exact (of_all (by decide)).sealed
  | flip | evenSize => exact (of_all (by decide)).sealed

end VideoExport
