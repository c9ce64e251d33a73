import VideoExport.Proofs.Graph.Total

/-!
# How the text filter is read

A filter is read in two steps. In the text of a graph, what stands between apostrophes is literal, and
elsewhere a backslash quotes the next character (`unquote`). What is left is split into options at the
colons, of which a backslash takes away the meaning, as it does for any character (`readMarks`). So the
text filter says what it is meant to say exactly if there is no backslash in its text
(`Settings.text_read_iff`).
-/

set_option autoImplicit false

namespace VideoExport

/-! ## The reader -/

/-- The text that a text of the graph stands for, from outside or inside a quotation. -/
def unquote : (quoted : Bool) → List Char → List Char
  | _, [] => []
  | true, c :: rest => if c = '\'' then unquote false rest else c :: unquote true rest
  | false, [c] => if c = '\'' then [] else [c]
  | false, c :: d :: rest =>
    if c = '\\' then d :: unquote false rest
    else if c = '\'' then unquote true (d :: rest)
    else c :: unquote false (d :: rest)

/-- A character as it stands for itself, or a colon as it ends an option. -/
def mark (c : Char) : Option Char := if c = ':' then none else some c

/-- The characters of options, with a mark at the end of each but the last. -/
def readMarks : List Char → List (Option Char)
  | [] => []
  | [c] => [mark c]
  | c :: d :: rest => if c = '\\' then some d :: readMarks rest else mark c :: readMarks (d :: rest)

/-- The key and the value of an option. -/
def readOption (text : List Char) : Option (String × String) :=
  match text.dropWhile (· ≠ '=') with
  | [] => none
  | _ :: value => some (.ofList (text.takeWhile (· ≠ '=')), .ofList value)

def readOptions (text : List Char) : Option (List (String × String)) :=
  ((readMarks text).splitOn none).mapM fun piece => readOption (piece.filterMap id)

/-- The name of a filter and its options. -/
def readFilter (text : String) : Option (String × List (String × String)) := do
  let (name, arguments) ← readOption text.toList
  return (name, ← readOptions (unquote false arguments.toList))

/-! ## Quotations -/

theorem unquote_plain {c : Char} (rest : List Char) (apostrophe : c ≠ '\'') (backslash : c ≠ '\\') :
    unquote false (c :: rest) = c :: unquote false rest := by
  cases rest with
  | nil => simp [unquote, apostrophe]
  | cons d rest => simp [unquote, apostrophe, backslash]

theorem unquote_open (rest : List Char) : unquote false ('\'' :: rest) = unquote true rest := by
  cases rest <;> simp [unquote]

theorem unquote_close (rest : List Char) : unquote true ('\'' :: rest) = unquote false rest := by
  simp [unquote]

theorem unquote_append {plain : List Char} (apostrophe : '\'' ∉ plain) (backslash : '\\' ∉ plain)
    (rest : List Char) : unquote false (plain ++ rest) = plain ++ unquote false rest := by
  induction plain with
  | nil => rfl
  | cons c plain ih =>
    obtain ⟨ha, apostrophe⟩ := not_or.1 (mt List.mem_cons.2 apostrophe)
    obtain ⟨hb, backslash⟩ := not_or.1 (mt List.mem_cons.2 backslash)
    rw [List.cons_append, unquote_plain _ (Ne.symm ha) (Ne.symm hb), ih apostrophe backslash]
    rfl

theorem unquote_quotation {quotation : List Char} (h : '\'' ∉ quotation) (rest : List Char) :
    unquote false ('\'' :: quotation ++ '\'' :: rest) = quotation ++ unquote false rest := by
  rw [List.cons_append, unquote_open]
  induction quotation with
  | nil => exact unquote_close rest
  | cons c quotation ih =>
    obtain ⟨apostrophe, h⟩ := not_or.1 (mt List.mem_cons.2 h)
    rw [List.cons_append, unquote, if_neg (Ne.symm apostrophe), ih h]
    rfl

/-! ## Marks -/

theorem readMarks_plain {c : Char} (rest : List Char) (h : c ≠ '\\') :
    readMarks (c :: rest) = mark c :: readMarks rest := by
  cases rest with
  | nil => rfl
  | cons d rest => simp [readMarks, h]

theorem readMarks_backslash (c : Char) (rest : List Char) :
    readMarks ('\\' :: c :: rest) = some c :: readMarks rest := by
  simp [readMarks]

theorem readMarks_append {plain : List Char} (h : '\\' ∉ plain) (rest : List Char) :
    readMarks (plain ++ rest) = plain.map mark ++ readMarks rest := by
  induction plain with
  | nil => rfl
  | cons c plain ih =>
    obtain ⟨backslash, h⟩ := not_or.1 (mt List.mem_cons.2 h)
    rw [List.cons_append, readMarks_plain _ (Ne.symm backslash), ih h]
    rfl

/-- A character as it is written: a colon with a backslash before it. -/
def escapeColon (c : Char) : List Char := if c = ':' then ['\\', ':'] else [c]

/-- A text as it is written, and the colon that ends it, before the options that follow. -/
def writeEnded (rest : List Char) : List Char → List Char
  | [] => ':' :: rest
  | c :: text => escapeColon c ++ writeEnded rest text

theorem writeEnded_eq (rest text : List Char) :
    writeEnded rest text = text.flatMap escapeColon ++ ':' :: rest := by
  induction text with
  | nil => rfl
  | cons c text ih => rw [writeEnded, ih, List.flatMap_cons, List.append_assoc]

theorem readMarks_escaped {c : Char} (h : c ≠ '\\') (tail : List Char) :
    readMarks (escapeColon c ++ tail) = some c :: readMarks tail := by
  unfold escapeColon
  split
  · rename_i colon
    rw [colon]
    exact readMarks_backslash _ _
  · rename_i colon
    rw [List.singleton_append, readMarks_plain _ h]
    exact congrArg (· :: _) (if_neg colon)

/-- A backslash takes the character after it, which is the backslash of a colon, or no colon. -/
theorem readMarks_taken (c : Char) (tail : List Char) :
    readMarks ('\\' :: (escapeColon c ++ tail)) =
      if c = ':' then some '\\' :: none :: readMarks tail else some c :: readMarks tail := by
  unfold escapeColon
  split
  · show readMarks ('\\' :: '\\' :: ':' :: tail) = _
    rw [readMarks_backslash, readMarks_plain _ (by decide)]
    rfl
  · exact readMarks_backslash _ _

variable {text : List Char}

/-- A text without backslashes is read as it is meant. -/
theorem readMarks_writeEnded (h : '\\' ∉ text) (rest : List Char) :
    readMarks (writeEnded rest text) = text.map some ++ none :: readMarks rest := by
  induction text with
  | nil => exact readMarks_plain _ (by decide)
  | cons c text ih =>
    obtain ⟨backslash, h⟩ := not_or.1 (mt List.mem_cons.2 h)
    rw [writeEnded, readMarks_escaped (Ne.symm backslash), ih h]
    rfl

/-- Backslashes, in a text or before it, never make more of it. -/
theorem readMarks_length (rest text : List Char) :
    (readMarks (writeEnded rest text)).length ≤ text.length + 1 + (readMarks rest).length ∧
      (readMarks ('\\' :: writeEnded rest text)).length ≤
        text.length + 2 + (readMarks rest).length := by
  induction text with
  | nil =>
    rw [writeEnded, readMarks_plain _ (by decide), readMarks_backslash]
    simp only [List.length_cons, List.length_nil]
    omega
  | cons c text ih =>
    obtain ⟨outside, taken⟩ := ih
    have here : (readMarks (writeEnded rest (c :: text))).length ≤
        (c :: text).length + 1 + (readMarks rest).length := by
      by_cases backslash : c = '\\'
      · subst backslash
        exact taken.trans (by rw [List.length_cons])
      · rw [writeEnded, readMarks_escaped backslash, List.length_cons, List.length_cons]
        omega
    refine ⟨here, ?_⟩
    rw [writeEnded, readMarks_taken]
    split <;> simp only [List.length_cons] <;> omega

/-- A text with a backslash is not read as it is meant. -/
theorem readMarks_writeEnded_ne (h : '\\' ∈ text) (rest : List Char) :
    readMarks (writeEnded rest text) ≠ text.map some ++ none :: readMarks rest := by
  induction text with
  | nil => cases h
  | cons c text ih =>
    intro same
    by_cases backslash : c = '\\'
    · subst backslash
      change readMarks ('\\' :: writeEnded rest text) = some '\\' :: _ at same
      cases text with
      | nil =>
        rw [writeEnded, readMarks_backslash] at same
        cases same
      | cons d text =>
        rw [writeEnded, readMarks_taken] at same
        split at same
        · -- the colon after the backslash ends the option
          rename_i colon
          subst colon
          cases same
        · -- the backslash takes another one: then what is left is too short
          obtain ⟨-, same⟩ := List.cons.inj same
          change _ = (d :: text).map some ++ none :: readMarks rest at same
          have short := (readMarks_length rest text).1
          rw [same] at short
          simp only [List.length_append, List.length_cons, List.length_map] at short
          omega
    · rw [writeEnded, readMarks_escaped backslash] at same
      exact ih ((List.mem_cons.1 h).resolve_left (Ne.symm backslash)) (List.cons.inj same).2

/-! ## Options -/

/-- An option's text, from which it can be read. -/
def optionText (option : String × String) : List Char := option.1.toList ++ '=' :: option.2.toList

theorem readOption_optionText {option : String × String} (key : '=' ∉ option.1.toList) :
    readOption (optionText option) = some option := by
  have before : ∀ c ∈ option.1.toList, decide (c ≠ '=') = true := fun c hc =>
    decide_eq_true fun same => key (same ▸ hc)
  have value : (optionText option).dropWhile (· ≠ '=') = '=' :: option.2.toList := by
    unfold optionText
    rw [List.dropWhile_append_of_pos before, List.dropWhile_cons_of_neg (by decide)]
  have name : (optionText option).takeWhile (· ≠ '=') = option.1.toList := by
    unfold optionText
    rw [List.takeWhile_append_of_pos before, List.takeWhile_cons_of_neg (by decide), List.append_nil]
  unfold readOption
  rw [value, name]
  show some (String.ofList option.1.toList, String.ofList option.2.toList) = _
  rw [String.ofList_toList, String.ofList_toList]

theorem optionText_of_readOption {text : List Char} {option : String × String}
    (h : readOption text = some option) : optionText option = text := by
  unfold readOption at h
  split at h
  · cases h
  · rename_i sign value hvalue
    cases h
    have equals := List.head?_dropWhile_not (fun c => decide (c ≠ '=')) text
    rw [hvalue] at equals
    obtain rfl : sign = '=' := by simpa using equals
    unfold optionText
    rw [String.toList_ofList, String.toList_ofList, ← hvalue]
    exact List.takeWhile_append_dropWhile

/-- The pieces between marks have no marks. -/
theorem notMem_of_mem_splitOn {tokens : List (Option Char)} :
    ∀ piece ∈ tokens.splitOn none, none ∉ piece := by
  induction tokens with
  | nil => simp
  | cons token tokens ih =>
    rw [List.splitOn_cons_eq_if_modifyHead]
    split
    · exact List.forall_mem_cons.2 ⟨List.not_mem_nil, ih⟩
    · rename_i unmarked
      cases hp : tokens.splitOn none with
      | nil => simp
      | cons first others =>
        rw [hp] at ih
        obtain ⟨hfirst, hothers⟩ := List.forall_mem_cons.1 ih
        refine List.forall_mem_cons.2 ⟨fun mem => ?_, hothers⟩
        rcases List.mem_cons.1 mem with rfl | mem
        · exact unmarked rfl
        · exact hfirst mem

theorem map_some_filterMap {piece : List (Option Char)} (h : none ∉ piece) :
    (piece.filterMap id).map some = piece := by
  induction piece with
  | nil => rfl
  | cons token piece ih =>
    obtain ⟨character, characters⟩ := not_or.1 (mt List.mem_cons.2 h)
    cases token with
    | none => exact absurd rfl character
    | some c => exact congrArg (some c :: ·) (ih characters)

theorem mapM_eq_some {α β : Type} {f : α → Option β} {l : List α} {r : List β} :
    l.mapM f = some r ↔ l.map f = r.map some := by
  induction l generalizing r with
  | nil => cases r <;> simp
  | cons a l ih =>
    rw [List.mapM_cons]
    cases r with
    | nil => simp [Option.bind_eq_some_iff]
    | cons b r =>
      simp only [Option.bind_eq_bind, Option.bind_eq_some_iff, Option.pure_def, Option.some.injEq,
        List.cons.injEq, List.map_cons, ← ih]
      constructor
      · rintro ⟨_, hb, _, hr, rfl, rfl⟩
        exact ⟨hb, hr⟩
      · rintro ⟨hb, hr⟩
        exact ⟨b, hb, r, hr, rfl, rfl⟩

/-- An option's text, none of whose characters is a mark. -/
def optionTokens (option : String × String) : List (Option Char) := (optionText option).map some

theorem readOption_tokens {option : String × String} (key : '=' ∉ option.1.toList) :
    readOption ((optionTokens option).filterMap id) = some option := by
  have characters : (optionTokens option).filterMap id = optionText option := by
    unfold optionTokens
    rw [List.filterMap_map]
    exact List.filterMap_some
  rw [characters, readOption_optionText key]

theorem tokens_of_readOption {piece : List (Option Char)} {option : String × String}
    (unmarked : none ∉ piece) (h : readOption (piece.filterMap id) = some option) :
    piece = optionTokens option := by
  unfold optionTokens
  rw [optionText_of_readOption h, map_some_filterMap unmarked]

theorem pieces_of_readOption {pieces : List (List (Option Char))} {options : List (String × String)}
    (unmarked : ∀ piece ∈ pieces, none ∉ piece)
    (h : (pieces.map fun piece => readOption (piece.filterMap id)) = options.map some) :
    pieces = options.map optionTokens := by
  induction pieces generalizing options with
  | nil =>
    rw [List.map_eq_nil_iff.1 h.symm]
    rfl
  | cons piece pieces ih =>
    cases options with
    | nil => cases h
    | cons option options =>
      obtain ⟨first, others⟩ := List.cons.inj h
      obtain ⟨hfirst, hothers⟩ := List.forall_mem_cons.1 unmarked
      rw [List.map_cons, ← tokens_of_readOption hfirst first, ← ih hothers others]

/-- A text is read as a list of options exactly if these are what stands between its marks. -/
theorem readOptions_iff {text : List Char} {options : List (String × String)} (nonempty : options ≠ [])
    (keys : ∀ option ∈ options, '=' ∉ option.1.toList) :
    readOptions text = some options ↔
      readMarks text = [none].intercalate (options.map optionTokens) := by
  have unmarked : ∀ tokens ∈ options.map optionTokens, none ∉ tokens := by
    intro tokens mem
    obtain ⟨option, -, rfl⟩ := List.mem_map.1 mem
    simp [optionTokens]
  unfold readOptions
  rw [mapM_eq_some]
  constructor
  · intro h
    rw [← pieces_of_readOption notMem_of_mem_splitOn h, List.intercalate_splitOn]
  · intro h
    rw [h, List.splitOn_intercalate none unmarked (by simpa using nonempty), List.map_map]
    exact List.map_congr_left fun option mem => readOption_tokens (keys option mem)

/-! ## The text filter -/

/-- A text without its apostrophes, which no quotation can hold. -/
def withoutApostrophes (t : String) : String := .ofList (t.toList.filter (· ≠ '\''))

namespace Drawtext

variable {d : Drawtext}

/-- The filter with the text that it can be read with. -/
def readable (d : Drawtext) : Drawtext := { d with content := withoutApostrophes d.content }

/-- The characters that mean something to a reader of graphs or options. -/
def specials : List Char := ['\'', '\\', ':', ',', ';', '[', ']']

/-- A character that stands for itself wherever it is read. -/
def isLiteralChar (c : Char) : Bool := !specials.contains c

/-- A test that all characters of a list fail keeps the list out. -/
theorem notContains_of {l : List Char} {p : Char → Bool} (h : (l.all fun c => !p c) = true) {c : Char}
    (hc : p c = true) : (!l.contains c) = true := by
  cases hl : l.contains c with
  | false => rfl
  | true =>
    have none := List.all_eq_true.1 h c (List.contains_iff_mem.1 hl)
    rw [hc] at none
    cases none

theorem escape_toList (t : String) : (escapeOptionText t).toList =
    (withoutApostrophes t).toList.flatMap escapeColon := by
  unfold escapeOptionText withoutApostrophes
  rw [String.toList_ofList, String.toList_ofList]
  induction t.toList with
  | nil => rfl
  | cons c rest ih =>
    rw [List.flatMap_cons, ih, List.filter_cons]
    by_cases apostrophe : c = '\''
    · subst apostrophe
      rfl
    · rw [if_pos (decide_eq_true apostrophe), List.flatMap_cons, escapeColon, if_neg apostrophe]

/-- No apostrophe is left in an escaped text. -/
theorem escaped_noApostrophe (t : String) :
    '\'' ∉ (withoutApostrophes t).toList.flatMap escapeColon := by
  intro mem
  obtain ⟨c, hc, mem⟩ := List.mem_flatMap.1 mem
  unfold escapeColon at mem
  split at mem
  · exact absurd mem (by decide)
  · rw [← List.mem_singleton.1 mem, withoutApostrophes, String.toList_ofList] at hc
    simp at hc

/-- The options after the text. -/
def others (d : Drawtext) : List (String × String) := d.options.drop 2

theorem others_keys (d : Drawtext) : ∀ option ∈ d.others, option.1 ≠ "text" ∧ '=' ∉ option.1.toList := by
  have keys : d.others.map Prod.fst =
      ["x", "y", "fontsize", "fontcolor", "shadowcolor", "shadowx", "shadowy"] := rfl
  have all : ∀ key ∈ ["x", "y", "fontsize", "fontcolor", "shadowcolor", "shadowx", "shadowy"],
      key ≠ "text" ∧ '=' ∉ key.toList := by
    simp only [List.forall_mem_cons]
    decide
  intro option mem
  exact all _ (keys ▸ List.mem_map_of_mem mem)

theorem writeOption_toList {option : String × String} (h : option.1 ≠ "text") :
    (writeOption option).toList = optionText option := by
  obtain ⟨key, value⟩ := option
  have written : writeOption (key, value) = s!"{key}={value}" := if_neg h
  rw [written, String.toList_append, String.toList_append, List.append_assoc]
  rfl

/-- The options as they are written: the text is quoted. -/
theorem write_toList (d : Drawtext) : d.write.toList = "drawtext".toList ++ '=' ::
    (optionText ("fontfile", fontEntry) ++ ':' :: ("text=".toList ++
      ('\'' :: (withoutApostrophes d.content).toList.flatMap escapeColon ++
        '\'' :: ':' :: [':'].intercalate (d.others.map optionText)))) := by
  have others : (d.others.map writeOption).map String.toList = d.others.map optionText := by
    rw [List.map_map]
    exact List.map_congr_left fun option mem => writeOption_toList (d.others_keys option mem).1
  have text : (writeOption ("text", d.content)).toList = "text=".toList ++
      ('\'' :: (withoutApostrophes d.content).toList.flatMap escapeColon ++ ['\'']) := by
    have written : writeOption ("text", d.content) =
        "text" ++ "='" ++ escapeOptionText d.content ++ "'" := by
      unfold writeOption
      exact if_pos rfl
    rw [← escape_toList, written, String.toList_append, String.toList_append, String.toList_append,
      List.append_assoc]
    rfl
  have options : d.options = ("fontfile", fontEntry) :: ("text", d.content) :: d.others := rfl
  unfold write
  rw [options, String.toList_append, String.toList_intercalate, List.map_cons, List.map_cons,
    List.map_cons, List.map_cons, others, text, writeOption_toList (by decide)]
  have more : d.others.map optionText ≠ [] := List.cons_ne_nil _ _
  show "drawtext=".toList ++ [':'].intercalate _ = _
  rw [List.intercalate_cons_cons, List.intercalate_cons_of_ne_nil more]
  simp

theorem numeral_literal {t : String} (h : IsNumeral t) : Consists isLiteralChar t :=
  h.mono fun _ => notContains_of (by decide)

theorem color_literal {t : String} (h : ∀ c ∈ t.toList, isHexDigit c = true ∨ c = '\n') :
    Consists isLiteralChar t := by
  intro c hc
  rcases h c hc with digit | rfl
  · exact notContains_of (by decide) digit
  · decide

/-- What stands for itself in the options after the text is all of it. -/
theorem others_literal (h : d.Numeric) :
    ∀ option ∈ d.others, ∀ c ∈ optionText option, isLiteralChar c = true := by
  have literal {key value : String} (hk : key.toList.all isLiteralChar = true)
      (hv : Consists isLiteralChar value) : ∀ c ∈ optionText (key, value), isLiteralChar c = true := by
    intro c hc
    rcases List.mem_append.1 hc with hc | hc
    · exact List.all_eq_true.1 hk c hc
    · rcases List.mem_cons.1 hc with rfl | hc
      · decide
      · exact hv c hc
  have constant {t : String} (h : t.toList.all isLiteralChar = true) : Consists isLiteralChar t :=
    .of_all h
  refine List.forall_mem_cons.2 ⟨literal (by decide) ?_, List.forall_mem_cons.2 ⟨literal (by decide) ?_,
    List.forall_mem_cons.2 ⟨literal (by decide) ?_, List.forall_mem_cons.2 ⟨literal (by decide) ?_,
    List.forall_mem_cons.2 ⟨literal (by decide) ?_, List.forall_mem_cons.2 ⟨literal (by decide) ?_,
    List.forall_mem_cons.2 ⟨literal (by decide) ?_, nofun⟩⟩⟩⟩⟩⟩⟩
  · exact ((constant (by decide)).append (numeral_literal h.x)).append (constant (by decide))
  · exact ((constant (by decide)).append (numeral_literal h.y)).append (constant (by decide))
  · exact numeral_literal h.size
  · exact (((constant (by decide)).append (color_literal h.color)).append (constant (by decide))).append
      (numeral_literal h.opacity)
  · exact (constant (by decide)).append (numeral_literal h.shadowOpacity)
  · exact constant (by decide)
  · exact constant (by decide)

theorem map_mark_intercalate {options : List (String × String)}
    (h : ∀ option ∈ options, ∀ c ∈ optionText option, isLiteralChar c = true) :
    ([':'].intercalate (options.map optionText)).map mark =
      [none].intercalate (options.map optionTokens) := by
  have text {option : String × String} (h : ∀ c ∈ optionText option, isLiteralChar c = true) :
      (optionText option).map mark = optionTokens option := by
    refine List.map_congr_left fun c hc => if_neg ?_
    rintro rfl
    exact absurd (h _ hc) (by decide)
  induction options with
  | nil => rfl
  | cons option options ih =>
    obtain ⟨first, others⟩ := List.forall_mem_cons.1 h
    cases options with
    | nil => simpa using text first
    | cons second options =>
      simp only [List.map_cons, List.intercalate_cons_cons, List.map_append] at ih ⊢
      rw [text first, ih others]
      rfl

theorem mem_intercalate {α : Type} {x c : α} {ls : List (List α)} (h : c ∈ [x].intercalate ls) :
    c = x ∨ ∃ l ∈ ls, c ∈ l := by
  induction ls with
  | nil => cases h
  | cons l ls ih =>
    cases ls with
    | nil =>
      rw [List.intercalate_singleton] at h
      exact .inr ⟨l, .head _, h⟩
    | cons l' ls =>
      rw [List.intercalate_cons_cons] at h
      rcases List.mem_append.1 h with h | h
      · rcases List.mem_append.1 h with h | h
        · exact .inr ⟨l, .head _, h⟩
        · exact .inl (List.mem_singleton.1 h)
      · exact (ih h).imp_right fun ⟨m, mem, hc⟩ => ⟨m, .tail _ mem, hc⟩

/-- A character that does not stand for itself is in no option after the text. -/
theorem notMem_others (h : d.Numeric) {c : Char} (special : isLiteralChar c = false) (colon : c ≠ ':') :
    c ∉ [':'].intercalate (d.others.map optionText) := by
  intro mem
  rcases mem_intercalate mem with rfl | ⟨_, hl, hc⟩
  · exact colon rfl
  · obtain ⟨option, ho, rfl⟩ := List.mem_map.1 hl
    rw [others_literal h option ho c hc] at special
    cases special

/-- What the options are up to the text. -/
def beforeText : List Char := optionText ("fontfile", fontEntry) ++ ':' :: "text=".toList

/-- The options once the quotation is gone. -/
theorem unquote_arguments (h : d.Numeric) :
    unquote false (beforeText ++ ('\'' :: (withoutApostrophes d.content).toList.flatMap escapeColon ++
      '\'' :: ':' :: [':'].intercalate (d.others.map optionText))) =
    beforeText ++ writeEnded ([':'].intercalate (d.others.map optionText))
      (withoutApostrophes d.content).toList := by
  have apostrophe : '\'' ∉ ':' :: [':'].intercalate (d.others.map optionText) :=
    mt List.mem_cons.1 (not_or.2 ⟨by decide, notMem_others h (by decide) (by decide)⟩)
  have backslash : '\\' ∉ ':' :: [':'].intercalate (d.others.map optionText) :=
    mt List.mem_cons.1 (not_or.2 ⟨by decide, notMem_others h (by decide) (by decide)⟩)
  have last := unquote_append apostrophe backslash []
  rw [List.append_nil] at last
  rw [unquote_append (by decide) (by decide), unquote_quotation (escaped_noApostrophe _), last,
    writeEnded_eq]
  exact congrArg _ (congrArg _ (List.append_nil _))

/-- The options as they are meant, in characters and marks. -/
theorem readable_tokens (h : d.Numeric) : [none].intercalate (d.readable.options.map optionTokens) =
    beforeText.map mark ++ ((withoutApostrophes d.content).toList.map some ++
      none :: readMarks ([':'].intercalate (d.others.map optionText))) := by
  have rest := readMarks_append (notMem_others h (c := '\\') (by decide) (by decide)) []
  rw [List.append_nil, map_mark_intercalate (others_literal h)] at rest
  have options : d.readable.options =
      ("fontfile", fontEntry) :: ("text", withoutApostrophes d.content) :: d.others := rfl
  have more : d.others.map optionTokens ≠ [] := List.cons_ne_nil _ _
  rw [rest, options, List.map_cons, List.map_cons, List.intercalate_cons_cons,
    List.intercalate_cons_of_ne_nil more]
  have before : beforeText.map mark =
      optionTokens ("fontfile", fontEntry) ++ none :: "text=".toList.map some := by decide
  have text : optionTokens ("text", withoutApostrophes d.content) =
      "text=".toList.map some ++ (withoutApostrophes d.content).toList.map some := by
    simp [optionTokens, optionText]
  rw [before, text]
  simp only [readMarks, List.append_assoc, List.cons_append, List.nil_append, List.append_nil]

/-- The filter is read with all its options, and with its text as it is but for the apostrophes, exactly if
there is no backslash in the text. -/
theorem read_write_iff (h : d.Numeric) :
    readFilter d.write = some ("drawtext", d.readable.options) ↔ '\\' ∉ d.content.toList := by
  have keys : ∀ option ∈ d.readable.options, '=' ∉ option.1.toList :=
    List.forall_mem_cons.2 ⟨show '=' ∉ "fontfile".toList by decide, List.forall_mem_cons.2
      ⟨show '=' ∉ "text".toList by decide, fun option mem => (d.others_keys option mem).2⟩⟩
  have nonempty : d.readable.options ≠ [] := List.cons_ne_nil _ _
  have content : '\\' ∈ (withoutApostrophes d.content).toList ↔ '\\' ∈ d.content.toList := by
    simp [withoutApostrophes]
  have arguments : d.write.toList = optionText ("drawtext", .ofList (beforeText ++
      ('\'' :: (withoutApostrophes d.content).toList.flatMap escapeColon ++
        '\'' :: ':' :: [':'].intercalate (d.others.map optionText)))) := by
    rw [write_toList, beforeText]
    simp only [optionText, String.toList_ofList, List.append_assoc, List.cons_append]
  have read : readFilter d.write = some ("drawtext", d.readable.options) ↔
      readMarks (writeEnded ([':'].intercalate (d.others.map optionText))
        (withoutApostrophes d.content).toList) = (withoutApostrophes d.content).toList.map some ++
          none :: readMarks ([':'].intercalate (d.others.map optionText)) := by
    rw [← List.append_right_inj (beforeText.map mark), ← readable_tokens h,
      ← readMarks_append (by decide), ← readOptions_iff nonempty keys,
      ← unquote_arguments h]
    unfold readFilter
    rw [arguments, readOption_optionText (show '=' ∉ "drawtext".toList by decide)]
    simp [Option.bind_eq_some_iff]
  rw [read, ← content]
  constructor
  · exact fun same backslash => readMarks_writeEnded_ne backslash _ same
  · exact fun none => readMarks_writeEnded none _

end Drawtext

namespace Settings

variable {raw : Raw} {hasImage : Bool} {s : Settings}

/-- The picture of clean settings that have a text has one text filter, that of the text. -/
theorem drawtext_picture (h : s.Clean) (text : s.text.content ≠ "") : ∃ filters d,
    s.pictureFilters = .ok filters ∧ filters.filterMap VideoFilter.drawtext? = [d] ∧ s.drawtext = .ok d ∧
      d.Numeric ∧ d.content = s.text.content := by
  obtain ⟨d, drawn, numeric, content, filters, built, before, after, rfl, hb, ha⟩ := pictureFilters_numeric h
  refine ⟨_, d, built, ?_, drawn, numeric, content⟩
  have none {fs : List VideoFilter} (h : Measured fs) : fs.filterMap VideoFilter.drawtext? = [] :=
    List.filterMap_eq_nil_iff.2 fun f hf => (h f hf).2
  have nonempty : s.text.content.isEmpty = false := by
    simpa [String.isEmpty_iff] using text
  rw [List.filterMap_append, List.filterMap_append, none hb, none ha, nonempty]
  rfl

/-- The picture of settings that were sanitized and have a text has one text filter. It is read with all
options that it is meant to have, and with its text but for the apostrophes, exactly if there is no backslash
in the text. -/
theorem text_read_iff (h : sanitize raw hasImage = .ok s) (text : s.text.content ≠ "") :
    ∃ filters d, s.pictureFilters = .ok filters ∧ filters.filterMap VideoFilter.drawtext? = [d] ∧
      s.drawtext = .ok d ∧ d.content = s.text.content ∧
      d.readable.options.map Prod.fst = ["fontfile", "text", "x", "y", "fontsize", "fontcolor",
        "shadowcolor", "shadowx", "shadowy"] ∧
      (readFilter (VideoFilter.text d).write = some ("drawtext", d.readable.options) ↔
        '\\' ∉ s.text.content.toList) := by
  obtain ⟨filters, d, built, only, drawn, numeric, content⟩ :=
    drawtext_picture (clean_of_sanitized h) text
  exact ⟨filters, d, built, only, drawn, content, rfl, content ▸ Drawtext.read_write_iff numeric⟩

/-- An input that gives a text and nothing else. -/
def titled (text : String) : Raw := .value (.map [("watermark_text", .text text)])

theorem text_read_of_titled : ∃ s d, sanitize (titled "it's 12:30") false = .ok s ∧ s.drawtext = .ok d ∧
    d.readable.content = "its 12:30" ∧
    readFilter (VideoFilter.text d).write = some ("drawtext", d.readable.options) := by
  obtain ⟨s, hs, content⟩ : ∃ s, sanitize (titled "it's 12:30") false = .ok s ∧
      s.text.content = "it's 12:30" := ⟨_, rfl, rfl⟩
  obtain ⟨filters, d, -, -, drawn, same, -, read⟩ := text_read_iff hs (by rw [content]; decide)
  refine ⟨s, d, hs, drawn, ?_, read.2 (by rw [content]; decide)⟩
  show withoutApostrophes d.content = _
  rw [same, content]
  decide

/-- A text with a backslash is read as another. -/
theorem backslash_misread : ∃ s d, sanitize (titled "a\\b") false = .ok s ∧ s.drawtext = .ok d ∧
    d.content = "a\\b" ∧ readFilter (VideoFilter.text d).write ≠ some ("drawtext", d.readable.options) := by
  obtain ⟨s, hs, content⟩ : ∃ s, sanitize (titled "a\\b") false = .ok s ∧ s.text.content = "a\\b" :=
    ⟨_, rfl, rfl⟩
  obtain ⟨d, drawn, numeric, same⟩ := drawtext_numeric (clean_of_sanitized hs)
  refine ⟨s, d, hs, drawn, same.trans content, fun read => ?_⟩
  have none := (Drawtext.read_write_iff numeric).1 read
  rw [same, content] at none
  exact absurd none (by decide)

end Settings

end VideoExport
