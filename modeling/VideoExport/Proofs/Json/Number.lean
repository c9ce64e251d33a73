import Mathlib.Data.List.Induction
import VideoExport.Proofs.Json.Text

/-!
# Numbers of documents

The text of a number is a sign, if it is below zero, and a `Json.NumberBody`: an integer that is not too
long, or digits with a point or an exponent. That is what the reader takes, if nothing follows with which
the number would go on (`Json.NumberBody.spells`, `Json.Spells.value`), and nothing else
(`Json.readNumber_verdict`).
-/

set_option autoImplicit false

namespace VideoExport.Json

/-! ## Digits -/

/-- Decimal digits only. -/
def Digits (ds : List Char) : Prop := ∀ c ∈ ds, isDigit c = true

/-- No further digit. -/
def NoDigit (rest : List Char) : Prop := ∀ c ∈ rest.head?, isDigit c = false

/-- What may come after a number: nothing with which the number would go on. -/
def Follows (rest : List Char) : Prop :=
  ∀ c ∈ rest.head?, isDigit c = false ∧ c ≠ '.' ∧ c ≠ 'e' ∧ c ≠ 'E'

theorem Follows.noDigit {rest : List Char} (h : Follows rest) : NoDigit rest := fun c hc => (h c hc).1

section
variable {ds es rest : List Char}

theorem Digits.append (hd : Digits ds) (he : Digits es) : Digits (ds ++ es) :=
  fun c hc => (List.mem_append.1 hc).elim (hd c) (he c)

theorem Digits.toDigits (n : Nat) : Digits (Nat.toDigits 10 n) :=
  fun _ hc => Nat.isDigit_of_mem_toDigits (by decide) (by decide) hc

theorem Digits.zeros (n : Nat) : Digits (List.replicate n '0') := by
  intro c hc
  rw [List.eq_of_mem_replicate hc]
  rfl

theorem NoDigit.takeWhile (h : NoDigit rest) : rest.takeWhile isDigit = [] := by
  cases rest with
  | nil => rfl
  | cons c rest => exact List.takeWhile_cons_of_neg (by rw [h c rfl]; decide)

theorem Digits.takeWhile (hd : Digits ds) (h : NoDigit rest) : (ds ++ rest).takeWhile isDigit = ds := by
  rw [List.takeWhile_append_of_pos hd, h.takeWhile, List.append_nil]

theorem Digits.dropWhile (hd : Digits ds) (h : NoDigit rest) : (ds ++ rest).dropWhile isDigit = rest := by
  have whole := List.takeWhile_append_dropWhile (p := isDigit) (l := ds ++ rest)
  rw [hd.takeWhile h] at whole
  exact List.append_cancel_left whole

theorem Digits.append_ne (hd : Digits ds) (any : ds ≠ []) {c : Char} (hc : isDigit c = false)
    {s : List Char} : ds ++ rest ≠ c :: s := by
  intro is
  obtain ⟨d, ds, rfl⟩ := List.exists_cons_of_ne_nil any
  have digit := hd d (.head _)
  rw [(List.cons.inj is).1, hc] at digit
  cases digit

theorem digit_le {c : Char} (h : isDigit c = true) : c.toNat - '0'.toNat ≤ 9 := by
  unfold isDigit at h
  simp only [Bool.and_eq_true, decide_eq_true_eq] at h
  have le : c.toNat ≤ '9'.toNat := h.2
  have nine : '9'.toNat = 57 := rfl
  have zero : '0'.toNat = 48 := rfl
  omega

/-- Digits stand for less than the power of ten of their number. -/
theorem Digits.value_lt (hd : Digits ds) : digitsValue ds < Nat.pow 10 ds.length := by
  induction ds using List.reverseRecOn with
  | nil => exact Nat.one_pos
  | append_singleton ds c ih =>
    have lt := ih fun d hd' => hd d (List.mem_append_left _ hd')
    have le := digit_le (hd c (List.mem_append_right _ (.head _)))
    have value : digitsValue (ds ++ [c]) = digitsValue ds * 10 + (c.toNat - '0'.toNat) := by
      unfold digitsValue
      rw [List.foldl_append]
      rfl
    have power : Nat.pow 10 (ds ++ [c]).length = Nat.pow 10 ds.length * 10 := by
      rw [List.length_append]
      rfl
    omega

/-- Digits as they stand before a point: at least one, and no zero before another. -/
structure Whole (ds : List Char) : Prop where
  digits : Digits ds
  cases : ds = ['0'] ∨ ∃ c rest, ds = c :: rest ∧ c ≠ '0'

theorem Whole.zero : Whole ['0'] := ⟨Digits.zeros 1, .inl rfl⟩

theorem Whole.ne_nil (h : Whole ds) : ds ≠ [] := by
  rcases h.cases with rfl | ⟨c, rest, rfl, -⟩ <;> exact List.cons_ne_nil _ _

end

theorem toDigits_head {n : Nat} (h : 0 < n) : ∃ c rest, Nat.toDigits 10 n = c :: rest ∧ c ≠ '0' := by
  induction n using Nat.strongRecOn with
  | ind n ih =>
    rw [Nat.toDigits_eq_if (by decide)]
    split
    · exact ⟨_, [], rfl, fun zero => Nat.ne_of_gt h (Nat.digitChar_eq_zero.1 zero)⟩
    · obtain ⟨c, rest, digits, hc⟩ := ih (n / 10) (by omega) (by omega)
      rw [digits]
      exact ⟨c, rest ++ _, rfl, hc⟩

theorem Whole.toDigits (n : Nat) : Whole (Nat.toDigits 10 n) := by
  refine ⟨.toDigits n, ?_⟩
  rcases Nat.eq_zero_or_pos n with rfl | h
  · exact .inl (Nat.toDigits_zero 10)
  · exact .inr (toDigits_head h)

/-! ## The parts of a number -/

section
variable {start ds fs rest after : List Char} {negative : Bool}

theorem Whole.read (h : Whole ds) (hr : NoDigit rest) : wholeDigits (ds ++ rest) = ds := by
  unfold wholeDigits
  rcases h.cases with rfl | ⟨c, cs, rfl, hc⟩
  · rfl
  · split
    · rename_i zero
      exact absurd (List.cons.inj zero).1 hc
    · exact h.digits.takeWhile hr

/-- A number is read in parts. -/
theorem readNumber_parts (h : Whole ds) (hr : NoDigit rest) :
    readNumber start negative (ds ++ rest) =
      let (fraction, rest') := fractionDigits rest
      let (exponent?, rest'') := exponentPart rest'
      if fraction.isEmpty && exponent?.isNone then
        if digitLimit < ds.length then .error (.integerTooLong ds.length)
        else .ok (.int (if negative then -(digitsValue ds : Int) else digitsValue ds), rest'')
      else
        let exponent := exponent?.getD 0 - (fraction.length : Int)
        .ok (.real (.ofDecimal negative (digitsValue (ds ++ fraction)) exponent), rest'') := by
  unfold readNumber
  dsimp only
  rw [h.read hr, if_neg (by simpa using h.ne_nil), List.drop_left]

/-- Digits after a point, which is there only if they are. -/
def pointed (fs : List Char) : List Char := if fs = [] then [] else '.' :: fs

theorem pointed_noDigit (fs : List Char) (hr : NoDigit rest) : NoDigit (pointed fs ++ rest) := by
  unfold pointed
  split
  · exact hr
  · rintro c ⟨⟩
    rfl

theorem fractionDigits_pointed (hf : Digits fs) (hr : NoDigit rest) (hp : ∀ c ∈ rest.head?, c ≠ '.') :
    fractionDigits (pointed fs ++ rest) = (fs, rest) := by
  unfold pointed
  split
  · rename_i none
    subst none
    show fractionDigits rest = _
    unfold fractionDigits
    split
    · exact absurd rfl (hp '.' rfl)
    · rfl
  · rename_i any
    show (if ((fs ++ rest).takeWhile isDigit).isEmpty then _
      else ((fs ++ rest).takeWhile isDigit, (fs ++ rest).dropWhile isDigit)) = _
    rw [hf.takeWhile hr, hf.dropWhile hr, if_neg (by simpa using any)]

/-- The text of an exponent and its value; there may be none. -/
inductive ExponentText : List Char → Int → Prop
  | absent : ExponentText [] 0
  | natural {mark : Char} {plus ds : List Char} (hm : mark = 'e' ∨ mark = 'E')
      (hp : plus = [] ∨ plus = ['+']) (digits : Digits ds) (any : ds ≠ []) :
      ExponentText (mark :: (plus ++ ds)) (digitsValue ds)
  | negative {mark : Char} {ds : List Char} (hm : mark = 'e' ∨ mark = 'E') (digits : Digits ds)
      (any : ds ≠ []) : ExponentText (mark :: '-' :: ds) (-(digitsValue ds : Int))

/-- What an exponent is read as, if its digits come next. -/
def exponentOf (s : List Char) (negative : Bool) (digits : List Char) : Option Int × List Char :=
  if (digits.takeWhile isDigit).isEmpty then (none, s)
  else
    let value : Int := digitsValue (digits.takeWhile isDigit)
    (some (if negative then -value else value), digits.dropWhile isDigit)

theorem exponentPart_mark {mark : Char} (hm : mark = 'e' ∨ mark = 'E') (s : List Char) :
    exponentPart (mark :: s) =
      match s with
      | '+' :: digits => exponentOf (mark :: s) false digits
      | '-' :: digits => exponentOf (mark :: s) true digits
      | digits => exponentOf (mark :: s) false digits := by
  have marked : (decide (mark = 'e') || decide (mark = 'E')) = true := by simpa using hm
  unfold exponentPart
  dsimp only
  rw [if_pos marked]
  rfl

theorem exponentPart_none (h : ∀ c ∈ rest.head?, c ≠ 'e' ∧ c ≠ 'E') :
    exponentPart rest = (none, rest) := by
  unfold exponentPart
  dsimp only
  cases rest with
  | nil => rfl
  | cons c rest =>
    obtain ⟨small, large⟩ := h c rfl
    exact if_neg (by simp [small, large])

theorem exponentOf_digits (hd : Digits ds) (any : ds ≠ []) (hr : NoDigit rest) (s : List Char)
    (negative : Bool) : exponentOf s negative (ds ++ rest) =
      (some (if negative then -(digitsValue ds : Int) else digitsValue ds), rest) := by
  unfold exponentOf
  rw [hd.takeWhile hr, hd.dropWhile hr, if_neg (by simpa using any)]

/-- An exponent is read if no further digit follows, and if there is none, what could start one does not
follow either. -/
theorem ExponentText.read {ex : List Char} {e : Int} (h : ExponentText ex e) (hr : Follows rest) :
    ∃ e?, exponentPart (ex ++ rest) = (e?, rest) ∧ e?.getD 0 = e ∧ (e? = none ↔ ex = []) := by
  cases h with
  | absent => exact ⟨none, exponentPart_none fun c hc => (hr c hc).2.2, rfl, by simp⟩
  | @natural mark plus ds hm hp digits any =>
    refine ⟨some (digitsValue ds), ?_, rfl, by simp⟩
    rw [List.cons_append, exponentPart_mark hm]
    obtain rfl | rfl := hp
    · rw [List.nil_append]
      split
      · rename_i is
        exact absurd is (digits.append_ne any rfl)
      · rename_i is
        exact absurd is (digits.append_ne any rfl)
      · exact exponentOf_digits digits any hr.noDigit _ false
    · exact exponentOf_digits digits any hr.noDigit _ false
  | @negative mark ds hm digits any =>
    refine ⟨some (-(digitsValue ds : Int)), ?_, rfl, by simp⟩
    rw [List.cons_append, exponentPart_mark hm]
    exact exponentOf_digits digits any hr.noDigit _ true

/-- No exponent starts with a digit or a point. -/
theorem ExponentText.ends {ex : List Char} {e : Int} (h : ExponentText ex e) (hr : Follows rest) :
    ∀ c ∈ (ex ++ rest).head?, isDigit c = false ∧ c ≠ '.' := by
  cases h with
  | absent => exact fun c hc => ⟨(hr c hc).1, (hr c hc).2.1⟩
  | natural hm | negative hm =>
    rintro c ⟨⟩
    rcases hm with rfl | rfl <;> decide

theorem exponentOf_sound {s digits : List Char} {e? : Option Int} {negative : Bool}
    (h : exponentOf s negative digits = (e?, rest)) : e? = none ∧ rest = s ∨
      ∃ ds, digits = ds ++ rest ∧ Digits ds ∧ ds ≠ [] ∧
        e? = some (if negative then -(digitsValue ds : Int) else digitsValue ds) := by
  unfold exponentOf at h
  split at h
  · cases h
    exact .inl ⟨rfl, rfl⟩
  · rename_i any
    obtain ⟨rfl, rfl⟩ := Prod.mk.inj h
    exact .inr ⟨_, List.takeWhile_append_dropWhile.symm, List.all_eq_true.1 List.all_takeWhile,
      by simpa using any, rfl⟩

/-- What is read as an exponent is the text of one. -/
theorem exponentPart_sound {s : List Char} {e? : Option Int} (h : exponentPart s = (e?, rest)) :
    ∃ ex, s = ex ++ rest ∧ ExponentText ex (e?.getD 0) ∧ (e? = none ↔ ex = []) := by
  have without (is : e? = none ∧ rest = s) : ∃ ex, s = ex ++ rest ∧ ExponentText ex (e?.getD 0) ∧
      (e? = none ↔ ex = []) := by
    obtain ⟨rfl, rfl⟩ := is
    exact ⟨[], rfl, .absent, by simp⟩
  by_cases mark : ∃ c s', s = c :: s' ∧ (c = 'e' ∨ c = 'E')
  · obtain ⟨c, s', rfl, hm⟩ := mark
    rw [exponentPart_mark hm] at h
    split at h
    · obtain is | ⟨ds, rfl, digits, any, rfl⟩ := exponentOf_sound h
      · exact without is
      · exact ⟨c :: (['+'] ++ ds), by simp, .natural hm (.inr rfl) digits any, by simp⟩
    · obtain is | ⟨ds, rfl, digits, any, rfl⟩ := exponentOf_sound h
      · exact without is
      · exact ⟨c :: '-' :: ds, by simp, .negative hm digits any, by simp⟩
    · obtain is | ⟨ds, rfl, digits, any, rfl⟩ := exponentOf_sound h
      · exact without is
      · exact ⟨c :: ([] ++ ds), by simp, .natural hm (.inl rfl) digits any, by simp⟩
  · have unmarked : ∀ c ∈ s.head?, c ≠ 'e' ∧ c ≠ 'E' := fun c hc => by
      obtain ⟨s', rfl⟩ := List.head?_eq_some_iff.1 hc
      exact not_or.1 fun hm => mark ⟨c, s', rfl, hm⟩
    rw [exponentPart_none unmarked] at h
    cases h
    exact without ⟨rfl, rfl⟩

end

/-! ## Numbers without a sign -/

/-- A text that the reader takes for a number of that sign, whatever follows it. -/
structure Spells (negative : Bool) (body : List Char) (n : Number) : Prop where
  head : ∃ c rest, body = c :: rest ∧ isDigit c = true
  read : ∀ start rest, Follows rest → readNumber start negative (body ++ rest) = .ok (n, rest)

section
variable {ds fs : List Char}

theorem Whole.head (h : Whole ds) (rest : List Char) :
    ∃ c cs, ds ++ rest = c :: cs ∧ isDigit c = true := by
  have first := h.digits
  cases ds with
  | nil => exact absurd rfl h.ne_nil
  | cons c cs => exact ⟨c, cs ++ rest, rfl, first c (.head _)⟩

theorem Whole.int (h : Whole ds) (negative : Bool) (short : ds.length ≤ digitLimit) :
    Spells negative ds (.int (if negative then -(digitsValue ds : Int) else digitsValue ds)) := by
  refine ⟨by simpa using h.head [], fun start rest hr => ?_⟩
  have none : Digits [] := List.forall_mem_nil _
  have fraction := fractionDigits_pointed none hr.noDigit fun c hc => (hr c hc).2.1
  rw [readNumber_parts h hr.noDigit, show rest = pointed [] ++ rest from rfl, fraction]
  dsimp only
  rw [exponentPart_none fun c hc => (hr c hc).2.2]
  dsimp only
  rw [if_pos (by decide), if_neg (Nat.not_lt.2 short)]
  rfl

/-- A number with digits after a point, or with an exponent, or with both. -/
theorem Whole.real {ex : List Char} {e : Int} (h : Whole ds) (negative : Bool) (hf : Digits fs)
    (he : ExponentText ex e) (any : fs ≠ [] ∨ ex ≠ []) : Spells negative (ds ++ (pointed fs ++ ex))
      (.real (.ofDecimal negative (digitsValue (ds ++ fs)) (e - fs.length))) := by
  refine ⟨h.head _, fun start rest hr => ?_⟩
  obtain ⟨e?, read, rfl, absent⟩ := he.read hr
  have mark := he.ends hr
  have noDigit : NoDigit (ex ++ rest) := fun c hc => (mark c hc).1
  have more : ¬(fs.isEmpty && e?.isNone) = true := by
    rw [Bool.and_eq_true, List.isEmpty_iff, Option.isNone_iff_eq_none, absent]
    exact fun none => any.elim (· none.1) (· none.2)
  rw [List.append_assoc, List.append_assoc, readNumber_parts h (pointed_noDigit fs noDigit),
    fractionDigits_pointed hf noDigit fun c hc => (mark c hc).2]
  dsimp only
  rw [read]
  dsimp only
  rw [if_neg more]

theorem Whole.point (h : Whole ds) (negative : Bool) (hf : Digits fs) (hne : fs ≠ []) :
    Spells negative (ds ++ pointed fs)
      (.real (.ofDecimal negative (digitsValue (ds ++ fs)) (-(fs.length : Int)))) := by
  have spells := h.real negative hf .absent (.inl hne)
  rwa [List.append_nil, Int.zero_sub] at spells

/-- The text of a number without its sign: an integer that is not too long, or a number with digits after a
point or with an exponent. -/
inductive NumberBody (negative : Bool) : List Char → Number → Prop
  | int {ds : List Char} (whole : Whole ds) (short : ds.length ≤ digitLimit) : NumberBody negative ds
      (.int (if negative then -(digitsValue ds : Int) else digitsValue ds))
  | real {ds fs ex : List Char} {e : Int} (whole : Whole ds) (fraction : Digits fs)
      (exponent : ExponentText ex e) (any : fs ≠ [] ∨ ex ≠ []) :
      NumberBody negative (ds ++ (pointed fs ++ ex))
        (.real (.ofDecimal negative (digitsValue (ds ++ fs)) (e - fs.length)))

theorem NumberBody.spells {negative : Bool} {body : List Char} {n : Number}
    (h : NumberBody negative body n) : Spells negative body n := by
  cases h with
  | int whole short => exact whole.int negative short
  | real whole fraction exponent any => exact whole.real negative fraction exponent any

theorem wholeDigits_sound {s : List Char} (any : wholeDigits s ≠ []) :
    Whole (wholeDigits s) ∧ s = wholeDigits s ++ s.drop (wholeDigits s).length := by
  unfold wholeDigits at any ⊢
  split
  · exact ⟨Whole.zero, rfl⟩
  · rename_i other
    split at any
    · exact absurd rfl (other _)
    · have split := (List.prefix_iff_eq_append.1 (List.takeWhile_prefix isDigit (l := s))).symm
      refine ⟨⟨List.all_eq_true.1 List.all_takeWhile, .inr ?_⟩, split⟩
      obtain ⟨c, ds, head⟩ := List.exists_cons_of_ne_nil any
      refine ⟨c, ds, head, ?_⟩
      rintro rfl
      rw [head] at split
      exact other _ split

theorem fractionDigits_sound {s rest : List Char} (h : fractionDigits s = (fs, rest)) :
    s = pointed fs ++ rest ∧ Digits fs := by
  have none (is : (([], s) : List Char × List Char) = (fs, rest)) : s = pointed fs ++ rest ∧ Digits fs := by
    cases is
    exact ⟨rfl, List.forall_mem_nil _⟩
  unfold fractionDigits at h
  split at h
  · rename_i more
    dsimp only at h
    split at h
    · exact none h
    · rename_i any
      cases h
      refine ⟨?_, List.all_eq_true.1 List.all_takeWhile⟩
      rw [pointed, if_neg (by simpa using any), List.cons_append, List.takeWhile_append_dropWhile]
  · exact none h

/-- What is read as a number is the text of one. -/
theorem readNumber_verdict (start : List Char) (negative : Bool) (s : List Char) :
    Verdict (fun n rest => ∃ body, s = body ++ rest ∧ NumberBody negative body n) False
      (readNumber start negative s) := by
  unfold readNumber
  dsimp only
  split
  · exact .fault _ _
  · rename_i any
    obtain ⟨whole, split⟩ := wholeDigits_sound (s := s) (by simpa using any)
    generalize wholeDigits s = ds at *
    cases hf : fractionDigits (s.drop ds.length) with
    | mk fs rest' =>
      obtain ⟨point, fraction⟩ := fractionDigits_sound hf
      cases he : exponentPart rest' with
      | mk e? rest'' =>
        obtain ⟨ex, rfl, exponent, absent⟩ := exponentPart_sound he
        dsimp only
        split
        · rename_i none
          rw [Bool.and_eq_true, List.isEmpty_iff, Option.isNone_iff_eq_none, absent] at none
          obtain ⟨rfl, rfl⟩ := none
          split
          · exact .integerTooLong _
          · rename_i short
            refine .taken ⟨ds, ?_, .int whole (Nat.le_of_not_lt short)⟩
            rw [split, point]
            rfl
        · rename_i some
          rw [Bool.and_eq_true, List.isEmpty_iff, Option.isNone_iff_eq_none, absent, not_and_or] at some
          refine .taken ⟨ds ++ (pointed fs ++ ex), ?_, .real whole fraction exponent some⟩
          rw [split, point, List.append_assoc, List.append_assoc]

end

/-! ## Numbers as values -/

/-- A sign, if the number has one. -/
def sign (negative : Bool) : List Char := if negative then ['-'] else []

theorem digit_ne {c d : Char} (hc : isDigit c = true) (hd : isDigit d = false) : c ≠ d := by
  rintro rfl
  rw [hc] at hd
  cases hd

theorem afterWord?_none {word s : List Char} (h : word.isPrefixOf s = false) : afterWord? word s = none :=
  if_neg (by rw [h]; decide)

/-- No word starts with a digit, nor with a sign and a digit. -/
theorem word?_number {c : Char} (rest : List Char) (hc : isDigit c = true) (negative : Bool) :
    word? (sign negative ++ c :: rest) = none := by
  have other {w d : Char} (ws s : List Char) (h : w ≠ d) : (w :: ws).isPrefixOf (d :: s) = false := by
    rw [List.isPrefixOf_cons_cons, beq_eq_false_iff_ne.2 h, Bool.false_and]
  have letter {w : Char} (ws : List Char) (hw : isDigit w = false) (hs : w ≠ '-') :
      afterWord? (w :: ws) (sign negative ++ c :: rest) = none := by
    cases negative with
    | false => exact afterWord?_none (other _ _ (digit_ne hc hw).symm)
    | true => exact afterWord?_none (other _ _ hs)
  have null : afterWord? "null".toList (sign negative ++ c :: rest) = none := letter _ rfl (by decide)
  have yes : afterWord? "true".toList (sign negative ++ c :: rest) = none := letter _ rfl (by decide)
  have no : afterWord? "false".toList (sign negative ++ c :: rest) = none := letter _ rfl (by decide)
  have nan : afterWord? "NaN".toList (sign negative ++ c :: rest) = none := letter _ rfl (by decide)
  have infinity : afterWord? "Infinity".toList (sign negative ++ c :: rest) = none :=
    letter _ rfl (by decide)
  have below : afterWord? "-Infinity".toList (sign negative ++ c :: rest) = none := by
    cases negative with
    | false => exact afterWord?_none (other "Infinity".toList _ (digit_ne hc rfl).symm)
    | true =>
      have second := other "nfinity".toList rest (digit_ne hc (rfl : isDigit 'I' = false)).symm
      exact afterWord?_none (Bool.and_eq_false_iff.2 (.inr second))
  unfold word?
  dsimp only
  rw [null, yes, no, nan, infinity, below]
  rfl

theorem Spells.value {negative : Bool} {body rest : List Char} {n : Number} (h : Spells negative body n)
    (hr : Follows rest) (depth fuel : Nat) :
    readValue depth (fuel + 1) (sign negative ++ body ++ rest) = .ok (.number n, rest) := by
  obtain ⟨c, cs, rfl, hc⟩ := h.head
  have words := word?_number (cs ++ rest) hc negative
  have read := fun start => h.read start rest hr
  cases negative with
  | false =>
    have ne {d : Char} (hd : isDigit d = false) : c ≠ d := digit_ne hc hd
    show readValue depth (fuel + 1) (c :: (cs ++ rest)) = _
    unfold readValue
    rw [if_neg (ne rfl), if_neg (ne rfl), if_neg (ne rfl)]
    replace words : word? (c :: (cs ++ rest)) = none := words
    rw [words, if_neg (ne rfl), ← List.cons_append, read]
    rfl
  | true =>
    show readValue depth (fuel + 1) ('-' :: (c :: cs ++ rest)) = _
    unfold readValue
    replace words : word? ('-' :: (c :: cs ++ rest)) = none := words
    rw [if_neg (by decide), if_neg (by decide), if_neg (by decide), words, if_pos rfl, read]
    rfl

end VideoExport.Json
