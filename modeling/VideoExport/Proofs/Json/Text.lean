import VideoExport.Json.Reader
import VideoExport.Json.Writer
import VideoExport.Proofs.Number

/-!
# Texts of documents

What may stand between the quotes of a text stands for certain characters (`Json.TextBody`). The reader
takes exactly that, up to the closing quote, for those characters (`Json.TextBody.read`,
`Json.readText_verdict`). The writer writes each character in one of four ways (`Json.Writes`), so a text is
read as what was written, whatever characters it holds and whether or not those beyond ASCII are escaped
(`Json.readText_textBody`).
-/

set_option autoImplicit false

namespace VideoExport.Json

/-! ## Verdicts -/

/-- How reading ends: with something that was taken and the text after it, or with a refusal. Where it is
the nesting that is refused, `deep` is the case. -/
inductive Verdict {α : Type} (taken : α → List Char → Prop) (deep : Prop) :
    Except Stop (α × List Char) → Prop
  | taken {a : α} {rest : List Char} (h : taken a rest) : Verdict taken deep (.ok (a, rest))
  | tooDeep (atMap : Bool) (h : deep) : Verdict taken deep (.error (.tooDeep atMap))
  | fault (f : Fault) (rest : List Char) : Verdict taken deep (.error (.fault f rest))
  | integerTooLong (digits : Nat) : Verdict taken deep (.error (.integerTooLong digits))

section
variable {α β : Type} {taken : α → List Char → Prop} {taken' : β → List Char → Prop} {deep deep' : Prop}
  {x : Except Stop (α × List Char)}

/-- What is read after something else ends as the second part does, if the first one does not refuse. -/
theorem Verdict.bind {k : α × List Char → Except Stop (β × List Char)} (h : Verdict taken deep x)
    (next : ∀ a rest, taken a rest → Verdict taken' deep' (k (a, rest))) (deeper : deep → deep') :
    Verdict taken' deep' (x >>= k) := by
  cases h with
  | taken h => exact next _ _ h
  | tooDeep atMap h => exact .tooDeep atMap (deeper h)
  | fault f rest => exact .fault f rest
  | integerTooLong digits => exact .integerTooLong digits

theorem Verdict.mono {taken' : α → List Char → Prop} (h : Verdict taken deep x)
    (more : ∀ a rest, taken a rest → taken' a rest) (deeper : deep → deep') : Verdict taken' deep' x := by
  cases h with
  | taken h => exact .taken (more _ _ h)
  | tooDeep atMap h => exact .tooDeep atMap (deeper h)
  | fault f rest => exact .fault f rest
  | integerTooLong digits => exact .integerTooLong digits

theorem Verdict.of_ok {a : α} {rest : List Char} (h : Verdict taken deep x) (is : x = .ok (a, rest)) :
    taken a rest := by
  cases h with
  | taken h =>
    cases is
    exact h
  | tooDeep | fault | integerTooLong => cases is

theorem Verdict.of_tooDeep {atMap : Bool} (h : Verdict taken deep x) (is : x = .error (.tooDeep atMap)) :
    deep := by
  cases h with
  | tooDeep _ h => exact h
  | taken | fault | integerTooLong => cases is

end

/-! ## Units -/

theorem hexValue?_hexDigit (n : Nat) : hexValue? (Text.hexDigit n) = some (n % 16) := by
  have digit : ∀ k < 16, hexValue? (Nat.digitChar k) = some k := by decide
  exact digit _ (Nat.mod_lt _ (by decide))

/-- Four hexadecimal digits and their value. -/
inductive HexUnit : List Char → Nat → Prop
  | digits {a b c d : Char} {i j k l : Nat} (ha : hexValue? a = some i) (hb : hexValue? b = some j)
      (hc : hexValue? c = some k) (hd : hexValue? d = some l) :
      HexUnit [a, b, c, d] (((i * 16 + j) * 16 + k) * 16 + l)

section
variable {digits s rest : List Char} {u : Nat}

theorem HexUnit.length (h : HexUnit digits u) : digits.length = 4 := by
  cases h
  rfl

/-- Four digits are read as a unit if they are not the end of the text. -/
theorem HexUnit.read (h : HexUnit digits u) (more : rest ≠ []) :
    hexUnit? (digits ++ rest) = some (u, rest) ∧ ¬(digits ++ rest).length < 5 := by
  have length := h.length
  obtain ⟨next, rest, rfl⟩ := List.exists_cons_of_ne_nil more
  refine ⟨?_, ?_⟩
  · cases h with
    | digits ha hb hc hd => simp [hexUnit?, ha, hb, hc, hd]
  · rw [List.length_append, length, List.length_cons]
    omega

theorem hexUnit?_sound (h : hexUnit? s = some (u, rest)) :
    ∃ digits, s = digits ++ rest ∧ HexUnit digits u ∧ rest ≠ [] := by
  unfold hexUnit? at h
  split at h
  · rename_i a b c d next more
    simp only [Option.bind_eq_bind, Option.bind_eq_some_iff, pure, Option.some.injEq, Prod.mk.injEq] at h
    obtain ⟨i, ha, j, hb, k, hc, l, hd, rfl, rfl⟩ := h
    exact ⟨[a, b, c, d], rfl, .digits ha hb hc hd, List.cons_ne_nil _ _⟩
  · cases h

theorem hexUnit_hexDigits (hu : u < 0x10000) : HexUnit (Text.hexDigits 4 u) u := by
  have value : ((u / 16 / 16 / 16 % 16 * 16 + u / 16 / 16 % 16) * 16 + u / 16 % 16) * 16 + u % 16 = u := by
    omega
  have unit := HexUnit.digits (hexValue?_hexDigit (u / 16 / 16 / 16)) (hexValue?_hexDigit (u / 16 / 16))
    (hexValue?_hexDigit (u / 16)) (hexValue?_hexDigit u)
  rwa [value] at unit

end

/-- A character is no surrogate. -/
theorem toNat_valid (c : Char) : c.toNat < 0xD800 ∨ 0xDFFF < c.toNat ∧ c.toNat < 0x110000 := c.valid

theorem charOfCode_toNat (c : Char) : Text.charOfCode c.toNat = c := by
  have valid := toNat_valid c
  unfold Text.charOfCode
  rw [if_neg (by simp only [Bool.and_eq_true, decide_eq_true_eq]; omega), Char.ofNat_toNat]

/-! ## Texts -/

/-- An escaped low surrogate comes next. -/
def LowAhead (s : List Char) : Prop :=
  ∃ digits v rest, s = '\\' :: 'u' :: (digits ++ rest) ∧ HexUnit digits v ∧ isLowSurrogate v = true

/-- What may stand between the quotes of a text, and the characters of the text: a character that is
neither a quote nor a backslash nor a control character, an escape of one letter, a unit of four
hexadecimal digits, or two such units that are surrogates of one character. -/
inductive TextBody : List Char → List Char → Prop
  | nil : TextBody [] []
  | plain {c : Char} {w cs : List Char} (quote : c ≠ '"') (backslash : c ≠ '\\')
      (control : ¬ c.toNat < 0x20) (rest : TextBody w cs) : TextBody (c :: w) (c :: cs)
  | letter {e c : Char} {w cs : List Char} (stands : escaped? e = some c) (rest : TextBody w cs) :
      TextBody ('\\' :: e :: w) (c :: cs)
  | unit {digits w cs : List Char} {u : Nat} (hex : HexUnit digits u)
      (alone : isHighSurrogate u = true → ¬ LowAhead w) (rest : TextBody w cs) :
      TextBody ('\\' :: 'u' :: (digits ++ w)) (Text.charOfCode u :: cs)
  | pair {digits digits' w cs : List Char} {u v : Nat} (hex : HexUnit digits u)
      (hex' : HexUnit digits' v) (high : isHighSurrogate u = true) (low : isLowSurrogate v = true)
      (rest : TextBody w cs) :
      TextBody ('\\' :: 'u' :: (digits ++ '\\' :: 'u' :: (digits' ++ w)))
        (Char.ofNat (0x10000 + (u - 0xD800) * 0x400 + (v - 0xDC00)) :: cs)

section
variable {s digits rest after opening cs body : List Char} {u v : Nat} {c next : Char} {fuel : Nat}

/-- A unit that is no high surrogate is the character of that code. -/
theorem joinUnits_single (high : isHighSurrogate u = false) (s : List Char) :
    joinUnits u s = .ok (Text.charOfCode u, s) := by
  unfold joinUnits
  rw [if_neg (by simp [high])]

theorem escaped?_ne_unit {e : Char} (stands : escaped? e = some c) : e ≠ 'u' := by
  rintro rfl
  cases stands

/-- Next to a high surrogate, an escaped unit that is no low one is left to stand for itself. -/
theorem joinUnits_other (hex : HexUnit digits v) (high : isHighSurrogate u = true)
    (low : isLowSurrogate v = false) (more : rest ≠ []) :
    joinUnits u ('\\' :: 'u' :: (digits ++ rest)) =
      .ok (Text.charOfCode u, '\\' :: 'u' :: (digits ++ rest)) := by
  obtain ⟨read, long⟩ := hex.read more
  unfold joinUnits
  rw [if_pos high]
  simp only [if_neg long, read, low, Bool.false_eq_true, if_false]

/-- Two surrogates are one character. -/
theorem joinUnits_pair (hex : HexUnit digits v) (high : isHighSurrogate u = true)
    (low : isLowSurrogate v = true) (more : rest ≠ []) :
    joinUnits u ('\\' :: 'u' :: (digits ++ rest)) =
      .ok (Char.ofNat (0x10000 + (u - 0xD800) * 0x400 + (v - 0xDC00)), rest) := by
  obtain ⟨read, long⟩ := hex.read more
  unfold joinUnits
  rw [if_pos high]
  simp only [if_neg long, read, if_pos low]

theorem joinUnits_apart (apart : ∀ second, s ≠ '\\' :: 'u' :: second) (u : Nat) :
    joinUnits u s = .ok (Text.charOfCode u, s) := by
  unfold joinUnits
  split
  · split
    · exact absurd rfl (apart _)
    · rfl
  · rfl

/-- A high surrogate stands alone if no low one follows. -/
theorem joinUnits_alone (high : isHighSurrogate u = true) (alone : ¬ LowAhead body) (rest : TextBody body cs)
    (after : List Char) :
    joinUnits u (body ++ '"' :: after) = .ok (Text.charOfCode u, body ++ '"' :: after) := by
  have quoted (w : List Char) : w ++ '"' :: after ≠ [] :=
    List.append_ne_nil_of_right_ne_nil _ (List.cons_ne_nil _ _)
  cases rest with
  | nil => exact joinUnits_apart (fun second is => by simp at is) u
  | plain quote backslash control rest =>
    exact joinUnits_apart (fun second is => backslash (List.cons.inj is).1) u
  | letter stands rest =>
    exact joinUnits_apart (fun second is => escaped?_ne_unit stands (List.cons.inj (List.cons.inj is).2).1) u
  | @unit digits w _ v hex _ rest =>
    have low := Bool.eq_false_iff.2 fun low => alone ⟨digits, v, w, rfl, hex, low⟩
    rw [List.cons_append, List.cons_append, List.append_assoc]
    exact joinUnits_other hex high low (quoted w)
  | @pair digits _ w _ v _ hex _ high' _ rest =>
    have low : isLowSurrogate v = false := by
      simp only [isHighSurrogate, isLowSurrogate, Bool.and_eq_true, Bool.and_eq_false_iff, decide_eq_true_eq,
        decide_eq_false_iff_not] at high' ⊢
      omega
    rw [List.cons_append, List.cons_append, List.append_assoc]
    exact joinUnits_other hex high low (List.append_ne_nil_of_left_ne_nil (List.cons_ne_nil _ _) _)

theorem readText_unit (hex : HexUnit digits u) (more : rest ≠ []) (joined : joinUnits u rest = .ok (c, s))
    (hr : readText opening fuel s = .ok (cs, after)) :
    readText opening (fuel + 1) ('\\' :: 'u' :: (digits ++ rest)) = .ok (c :: cs, after) := by
  unfold readText
  rw [if_neg (by decide), if_pos rfl]
  simp only [(hex.read more).1, joined]
  show (readText opening fuel s >>= _) = _
  rw [hr]
  rfl

theorem readText_letter {e : Char} (stands : escaped? e = some c)
    (hr : readText opening fuel rest = .ok (cs, after)) :
    readText opening (fuel + 1) ('\\' :: e :: rest) = .ok (c :: cs, after) := by
  have mark := escaped?_ne_unit stands
  unfold readText
  rw [if_neg (by decide), if_pos rfl]
  split
  · rename_i none
    cases none
  · rename_i unit
    exact absurd (List.cons.inj unit).1 mark
  · rename_i letter
    cases letter
    rw [stands]
    show (readText opening fuel rest >>= _) = _
    rw [hr]
    rfl

/-- What stands between quotes is read as the characters it stands for. -/
theorem TextBody.read (h : TextBody body cs) (opening after : List Char) (hf : body.length < fuel) :
    readText opening fuel (body ++ '"' :: after) = .ok (cs, after) := by
  induction h generalizing fuel with
  | nil =>
    obtain ⟨fuel, rfl⟩ := Nat.exists_eq_succ_of_ne_zero (Nat.ne_zero_of_lt hf)
    unfold readText
    exact if_pos rfl
  | plain quote backslash control rest ih =>
    obtain ⟨fuel, rfl⟩ := Nat.exists_eq_succ_of_ne_zero (Nat.ne_zero_of_lt hf)
    rw [List.cons_append]
    unfold readText
    rw [if_neg quote, if_neg backslash, if_neg control, ih (Nat.lt_of_succ_lt_succ hf)]
    rfl
  | letter stands rest ih =>
    obtain ⟨fuel, rfl⟩ := Nat.exists_eq_succ_of_ne_zero (Nat.ne_zero_of_lt hf)
    simp only [List.length_cons] at hf
    exact readText_letter stands (ih (by omega))
  | @unit digits w cs u hex alone rest ih =>
    obtain ⟨fuel, rfl⟩ := Nat.exists_eq_succ_of_ne_zero (Nat.ne_zero_of_lt hf)
    simp only [List.length_cons, List.length_append] at hf
    have joined : joinUnits u (w ++ '"' :: after) = .ok (Text.charOfCode u, w ++ '"' :: after) := by
      cases high : isHighSurrogate u with
      | false => exact joinUnits_single high _
      | true => exact joinUnits_alone high (alone high) rest after
    rw [List.cons_append, List.cons_append, List.append_assoc]
    exact readText_unit hex (List.append_ne_nil_of_right_ne_nil _ (List.cons_ne_nil _ _)) joined
      (ih (by omega))
  | @pair digits digits' w cs u v hex hex' high low rest ih =>
    obtain ⟨fuel, rfl⟩ := Nat.exists_eq_succ_of_ne_zero (Nat.ne_zero_of_lt hf)
    simp only [List.length_cons, List.length_append] at hf
    have joined := joinUnits_pair hex' high low
      (List.append_ne_nil_of_right_ne_nil w (List.cons_ne_nil '"' after))
    rw [List.cons_append, List.cons_append, List.append_assoc, List.cons_append, List.cons_append,
      List.append_assoc]
    exact readText_unit hex (List.cons_ne_nil _ _) joined (ih (by omega))

/-- The characters that are left are fuel enough. -/
theorem TextBody.readAll (h : TextBody body cs) (opening after : List Char) :
    readText opening (body ++ '"' :: after).length (body ++ '"' :: after) = .ok (cs, after) := by
  refine h.read opening after ?_
  rw [List.length_append, List.length_cons]
  omega

/-- A unit stands for itself or is joined with a second one. -/
theorem joinUnits_sound (h : joinUnits u s = .ok (c, rest)) :
    rest = s ∧ c = Text.charOfCode u ∨
      ∃ digits v, s = '\\' :: 'u' :: (digits ++ rest) ∧ HexUnit digits v ∧ isHighSurrogate u = true ∧
        isLowSurrogate v = true ∧ c = Char.ofNat (0x10000 + (u - 0xD800) * 0x400 + (v - 0xDC00)) := by
  have own {x : Except Stop (Char × List Char)} (is : x = .ok (Text.charOfCode u, s))
      (h : x = .ok (c, rest)) : rest = s ∧ c = Text.charOfCode u := by
    cases is.symm.trans h
    exact ⟨rfl, rfl⟩
  unfold joinUnits at h
  split at h
  · rename_i high
    split at h
    · split at h
      · exact .inl (own rfl h)
      · split at h
        · cases h
        · rename_i v rest' unit
          obtain ⟨digits, rfl, hex, -⟩ := hexUnit?_sound unit
          split at h
          · rename_i low
            obtain ⟨joined, rfl⟩ := Prod.mk.inj (Except.ok.inj h)
            exact .inr ⟨digits, v, rfl, hex, high, low, joined.symm⟩
          · exact .inl (own rfl h)
    · exact .inl (own rfl h)
  · exact .inl (own rfl h)

/-- A unit that stands for itself is not followed by what it would be joined with. -/
theorem notLowAhead_of_joinUnits (joined : joinUnits u (body ++ '"' :: after) = .ok (c, body ++ '"' :: after))
    (high : isHighSurrogate u = true) : ¬ LowAhead body := by
  rintro ⟨digits, v, rest, rfl, hex, low⟩
  have pair := joinUnits_pair hex high low
    (List.append_ne_nil_of_right_ne_nil rest (List.cons_ne_nil '"' after))
  rw [List.cons_append, List.cons_append, List.append_assoc, pair] at joined
  have same := congrArg List.length (Prod.mk.inj (Except.ok.inj joined)).2
  simp only [List.length_cons, List.length_append] at same
  omega

theorem joinUnits_verdict (u : Nat) (s : List Char) :
    Verdict (fun c rest => joinUnits u s = .ok (c, rest)) False (joinUnits u s) := by
  cases joined : joinUnits u s with
  | ok found => exact .taken rfl
  | error stop =>
    unfold joinUnits at joined
    split at joined
    · split at joined
      · split at joined
        · cases joined
        · split at joined
          · cases joined
            exact .fault _ _
          · split at joined <;> cases joined
      · cases joined
    · cases joined

/-- What is read as a text up to its closing quote has the characters that are read. -/
theorem readText_verdict (opening : List Char) (fuel : Nat) (s : List Char) :
    Verdict (fun cs after => ∃ body, s = body ++ '"' :: after ∧ TextBody body cs) False
      (readText opening fuel s) := by
  induction fuel generalizing s with
  | zero => cases s <;> exact .fault _ _
  | succ fuel ih =>
    cases s with
    | nil => exact .fault _ _
    | cons c rest =>
      unfold readText
      split
      · rename_i quote
        exact .taken ⟨[], by rw [quote]; rfl, .nil⟩
      · rename_i quote
        split
        · rename_i backslash
          subst backslash
          split
          · exact .fault _ _
          · rename_i digits
            split
            · exact .fault _ _
            · rename_i u rest' unit
              obtain ⟨digits, rfl, hex, -⟩ := hexUnit?_sound unit
              refine (joinUnits_verdict u rest').bind (fun d rest'' joined => ?_) id
              refine (ih rest'').bind (fun tail after read => .taken ?_) id
              obtain ⟨body, rfl, text⟩ := read
              obtain ⟨rfl, rfl⟩ | ⟨digits', v, rfl, hex', high, low, is⟩ := joinUnits_sound joined
              · exact ⟨'\\' :: 'u' :: (digits ++ body), by simp,
                  .unit hex (notLowAhead_of_joinUnits joined) text⟩
              · refine ⟨'\\' :: 'u' :: (digits ++ '\\' :: 'u' :: (digits' ++ body)), by simp, ?_⟩
                rw [is]
                exact .pair hex hex' high low text
          · rename_i e rest' _
            split
            · exact .fault _ _
            · rename_i d stands
              refine (ih rest').bind (fun tail after read => .taken ?_) id
              obtain ⟨body, rfl, text⟩ := read
              exact ⟨'\\' :: e :: body, rfl, .letter stands text⟩
        · rename_i backslash
          split
          · exact .fault _ _
          · rename_i control
            refine (ih rest).bind (fun tail after read => .taken ?_) id
            obtain ⟨body, rfl, text⟩ := read
            exact ⟨c :: body, rfl, .plain quote backslash control text⟩

end

/-! ## Characters -/

/-- The ways in which a character can be written. -/
inductive Writes (c : Char) : List Char → Prop
  | plain (quote : c ≠ '"') (backslash : c ≠ '\\') (control : ¬c.toNat < 0x20) : Writes c [c]
  | escape (e : Char) (stands : escaped? e = some c) : Writes c ['\\', e]
  | unit (single : c.toNat < 0x10000) : Writes c (unitEscape c.toNat)
  | pair (double : ¬c.toNat < 0x10000) : Writes c
      (unitEscape (0xD800 + (c.toNat - 0x10000) / 0x400) ++
        unitEscape (0xDC00 + (c.toNat - 0x10000) % 0x400))

theorem writes_writeChar (asciiOnly : Bool) (c : Char) : Writes c (writeChar asciiOnly c) := by
  unfold writeChar
  split
  · rename_i h
    exact .escape '"' (by rw [h]; rfl)
  rename_i quote
  split
  · rename_i h
    exact .escape '\\' (by rw [h]; rfl)
  rename_i backslash
  split
  · rename_i h
    exact .escape 'n' (h ▸ rfl)
  split
  · rename_i h
    exact .escape 'r' (h ▸ rfl)
  split
  · rename_i h
    exact .escape 't' (h ▸ rfl)
  split
  · rename_i h
    exact .escape 'b' (h ▸ rfl)
  split
  · rename_i h
    exact .escape 'f' (h ▸ rfl)
  split
  · exact .unit (by omega)
  rename_i control
  split
  · exact .plain quote backslash control
  split
  · rename_i single
    exact .unit single
  · rename_i double
    exact .pair double

/-- A written character stands for what it is. -/
theorem Writes.body {c : Char} {written body cs : List Char} (h : Writes c written)
    (rest : TextBody body cs) : TextBody (written ++ body) (c :: cs) := by
  cases h with
  | plain quote backslash control => exact .plain quote backslash control rest
  | escape e stands => exact .letter stands rest
  | unit single =>
    have valid := toNat_valid c
    have low : isHighSurrogate c.toNat = false := by
      simp only [isHighSurrogate, Bool.and_eq_false_iff, decide_eq_false_iff_not]
      omega
    have unit := TextBody.unit (hexUnit_hexDigits single) (fun high => by rw [low] at high; cases high) rest
    rwa [charOfCode_toNat] at unit
  | pair double =>
    have valid := toNat_valid c
    generalize hu : 0xD800 + (c.toNat - 0x10000) / 0x400 = u
    generalize hv : 0xDC00 + (c.toNat - 0x10000) % 0x400 = v
    have code : 0x10000 + (u - 0xD800) * 0x400 + (v - 0xDC00) = c.toNat := by omega
    have high : isHighSurrogate u = true := by
      simp only [isHighSurrogate, Bool.and_eq_true, decide_eq_true_eq]
      omega
    have low : isLowSurrogate v = true := by
      simp only [isLowSurrogate, Bool.and_eq_true, decide_eq_true_eq]
      omega
    have pair := TextBody.pair (hexUnit_hexDigits (u := u) (by omega))
      (hexUnit_hexDigits (u := v) (by omega)) high low rest
    rw [code, Char.ofNat_toNat] at pair
    rw [List.append_assoc]
    exact pair

/-! ## Whole texts -/

theorem textBody_written (asciiOnly : Bool) (cs : List Char) :
    TextBody (cs.flatMap (writeChar asciiOnly)) cs := by
  induction cs with
  | nil => exact .nil
  | cons c cs ih => exact (writes_writeChar asciiOnly c).body ih

/-- What is written for the characters of a text, up to and with its closing quote. -/
def textBody (asciiOnly : Bool) (s : String) (rest : List Char) : List Char :=
  s.toList.flatMap (writeChar asciiOnly) ++ '"' :: rest

theorem writeText_append (asciiOnly : Bool) (s : String) (rest : List Char) :
    (writeText asciiOnly s).toList ++ rest = '"' :: textBody asciiOnly s rest := by
  unfold writeText textBody
  rw [String.toList_ofList, List.cons_append, List.append_assoc, List.singleton_append]

/-- A text is read as what was written, up to its closing quote. -/
theorem readText_textBody (asciiOnly : Bool) (s : String) (opening rest : List Char) :
    readText opening (textBody asciiOnly s rest).length (textBody asciiOnly s rest) =
      .ok (s.toList, rest) :=
  (textBody_written asciiOnly s.toList).readAll opening rest

theorem readValue_writeText (asciiOnly : Bool) (s : String) (rest : List Char) (depth fuel : Nat) :
    readValue depth (fuel + 1) ((writeText asciiOnly s).toList ++ rest) = .ok (.text s, rest) := by
  rw [writeText_append]
  unfold readValue
  rw [if_pos rfl, readText_textBody]
  show Except.ok (Value.text (String.ofList s.toList), rest) = _
  rw [String.ofList_toList]

end VideoExport.Json
