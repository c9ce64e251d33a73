import VideoExport.Json.Writer
import VideoExport.Proofs.Json.Number
import VideoExport.Proofs.Numeric.Shortest

/-!
# Numbers read back

A number is written so that it is read as what it is (`Json.Spells`): an integer that is not too long
(`Json.intText_spells`) and every finite binary64 number (`Json.text_spells`).
-/

set_option autoImplicit false

namespace VideoExport.Json

open Binary64 (digitText zeros placePoint leadPoint exponentText)

/-! ## Values of digits -/

theorem digitsValue_eq (ds : List Char) : digitsValue ds = Nat.ofDigitChars 10 ds 0 := by
  unfold digitsValue
  rw [Nat.ofDigitChars_eq_foldl]
  simp only [Nat.mul_comm]

theorem digitsValue_toDigits (n : Nat) : digitsValue (Nat.toDigits 10 n) = n := by
  rw [digitsValue_eq, Nat.ofDigitChars_ten_toDigits]

theorem digitsValue_zeros_append (k : Nat) (ds : List Char) :
    digitsValue (List.replicate k '0' ++ ds) = digitsValue ds := by
  rw [digitsValue_eq, digitsValue_eq, Nat.ofDigitChars_append, Nat.ofDigitChars_replicate_zero,
    Nat.mul_zero]

theorem digitsValue_append_zeros (ds : List Char) (k : Nat) :
    digitsValue (ds ++ List.replicate k '0') = digitsValue ds * 10 ^ k := by
  rw [digitsValue_eq, digitsValue_eq, Nat.ofDigitChars_append, Nat.ofDigitChars_replicate_zero,
    Nat.mul_comm]

/-! ## Written exponents -/

/-- The digits of a written exponent: at least two. -/
def exponentDigits (e : Int) : List Char :=
  if (Nat.toDigits 10 e.natAbs).length < 2 then '0' :: Nat.toDigits 10 e.natAbs
  else Nat.toDigits 10 e.natAbs

theorem exponentDigits_digits (e : Int) : Digits (exponentDigits e) := by
  unfold exponentDigits
  split
  · exact (Digits.zeros 1).append (.toDigits _)
  · exact .toDigits _

theorem exponentDigits_value (e : Int) : digitsValue (exponentDigits e) = e.natAbs := by
  unfold exponentDigits
  split
  · exact (digitsValue_zeros_append 1 _).trans (digitsValue_toDigits _)
  · exact digitsValue_toDigits _

theorem exponentDigits_ne_nil (e : Int) : exponentDigits e ≠ [] := by
  unfold exponentDigits
  split
  · exact List.cons_ne_nil _ _
  · exact Nat.toDigits_ne_nil

theorem exponentText_toList (e : Int) :
    (exponentText e).toList = 'e' :: (if e < 0 then '-' else '+') :: exponentDigits e := by
  unfold exponentText exponentDigits digitText
  dsimp only
  rw [String.toList_append, String.length_ofList]
  split <;> split <;> simp

theorem exponentText_written (e : Int) : ExponentText (exponentText e).toList e := by
  have digits := exponentDigits_digits e
  have any := exponentDigits_ne_nil e
  rw [exponentText_toList]
  split
  · rename_i below
    have magnitude : -(digitsValue (exponentDigits e) : Int) = e := by
      rw [exponentDigits_value]
      omega
    have text := ExponentText.negative (.inl rfl) digits any
    rwa [magnitude] at text
  · rename_i natural
    have magnitude : (digitsValue (exponentDigits e) : Int) = e := by
      rw [exponentDigits_value]
      omega
    have text := ExponentText.natural (.inl rfl) (.inr rfl) digits any
    rwa [magnitude] at text

theorem Whole.exponent {ds fs : List Char} (h : Whole ds) (negative : Bool) (hf : Digits fs) (e : Int) :
    Spells negative (ds ++ (pointed fs ++ (exponentText e).toList))
      (.real (.ofDecimal negative (digitsValue (ds ++ fs)) (e - fs.length))) :=
  h.real negative hf (exponentText_written e) (.inr (by rw [exponentText_toList]; exact List.cons_ne_nil _ _))

/-! ## Texts of numbers -/

theorem intText_spells {n : Int} {t : String} (h : Number.intText n = .ok t) :
    ∃ body, t.toList = sign (decide (n < 0)) ++ body ∧ Spells (decide (n < 0)) body (.int n) := by
  unfold Number.intText at h
  split at h
  · rename_i short
    rw [Nat.pow_eq] at short
    cases h
    refine ⟨Nat.toDigits 10 n.natAbs, ?_, ?_⟩
    · rw [String.toList_append]
      split <;> rename_i below <;> simp [digitText, sign, below]
    · have length := (Nat.length_toDigits_le_iff (k := digitLimit) (by decide) (by decide)).2 short
      have spells := (Whole.toDigits n.natAbs).int (decide (n < 0)) length
      rw [digitsValue_toDigits] at spells
      convert spells using 2
      split <;> rename_i sign <;> simp at sign <;> omega
  · cases h

section
variable {d : Nat} {e : Int}

theorem zero_spells (negative : Bool) : Spells negative ['0', '.', '0'] (.real (.zero negative)) :=
  Whole.zero.point negative (Digits.zeros 1) (List.cons_ne_nil _ _)

section
variable {ds : List Char}

/-- All digits stand after the point, and perhaps zeros before them. -/
theorem Digits.afterPoint (h : Digits ds) (ne : ds ≠ []) (negative : Bool) (place : e + ds.length ≤ 0) :
    Spells negative (['0'] ++ pointed (List.replicate (-(e + ds.length)).toNat '0' ++ ds))
      (.real (.ofDecimal negative (digitsValue ds) e)) := by
  have spells := Whole.zero.point negative ((Digits.zeros (-(e + ds.length)).toNat).append h)
    (List.append_ne_nil_of_right_ne_nil _ ne)
  have number : digitsValue (['0'] ++ (List.replicate (-(e + ds.length)).toNat '0' ++ ds)) =
      digitsValue ds :=
    (digitsValue_zeros_append 1 _).trans (digitsValue_zeros_append _ _)
  have exponent : -((List.replicate (-(e + ds.length)).toNat '0' ++ ds).length : Int) = e := by
    rw [List.length_append, List.length_replicate]
    omega
  rwa [number, exponent] at spells

/-- All digits stand before the point, and perhaps zeros after them. -/
theorem Digits.beforePoint (h : Digits ds) (lead : ∃ c cs, ds = c :: cs ∧ c ≠ '0') (negative : Bool)
    (positive : 0 < digitsValue ds) (natural : 0 ≤ e) (he : Binary64.InReach e) :
    Spells negative (ds ++ List.replicate e.toNat '0' ++ pointed ['0'])
      (.real (.ofDecimal negative (digitsValue ds) e)) := by
  obtain ⟨c, cs, head, hc⟩ := lead
  have front : Whole (ds ++ List.replicate e.toNat '0') :=
    ⟨h.append (.zeros _), .inr ⟨c, _, by rw [head]; rfl, hc⟩⟩
  have last : List.replicate e.toNat '0' ++ ['0'] = List.replicate (e.toNat + 1) '0' :=
    List.replicate_succ'.symm
  have number : digitsValue (ds ++ List.replicate e.toNat '0' ++ ['0']) =
      digitsValue ds * 10 ^ (e.toNat + 1) := by
    rw [List.append_assoc, last, digitsValue_append_zeros]
  have exponent : -1 + ((e.toNat + 1 : Nat) : Int) = e := by omega
  -- The zero after the point is a digit too many: the number is ten times that of one place less.
  have same := Binary64.ofDecimal_zeros negative positive (e := -1) ⟨by decide, by decide⟩
    (e.toNat + 1) (by rwa [exponent])
  have spells := front.point negative (Digits.zeros 1) (List.cons_ne_nil _ _)
  rwa [List.replicate_one, number, List.length_singleton, Int.natCast_one, same, exponent] at spells

/-- The point stands among the digits. -/
theorem Digits.aroundPoint (h : Digits ds) (lead : ∃ c cs, ds = c :: cs ∧ c ≠ '0') (negative : Bool)
    (some : 0 < e + ds.length) (below : e < 0) :
    Spells negative (ds.take (e + ds.length).toNat ++ pointed (ds.drop (e + ds.length).toNat))
      (.real (.ofDecimal negative (digitsValue ds) e)) := by
  obtain ⟨c, cs, head, hc⟩ := lead
  have inside : 0 < (e + ds.length).toNat := by omega
  obtain ⟨p, hp⟩ := Nat.exists_eq_add_of_lt inside
  rw [Nat.zero_add] at hp
  have front : Whole (ds.take (e + ds.length).toNat) := by
    refine ⟨fun b hb => h b (List.mem_of_mem_take hb), .inr ⟨c, cs.take p, ?_, hc⟩⟩
    rw [hp, head, List.take_succ_cons]
  have back : Digits (ds.drop (e + ds.length).toNat) := fun b hb => h b (List.mem_of_mem_drop hb)
  have length : (ds.drop (e + ds.length).toNat).length = (-e).toNat := by
    rw [List.length_drop]
    omega
  have exponent : -((-e).toNat : Int) = e := by omega
  have spells := front.point negative back (List.ne_nil_of_length_pos (by omega))
  rwa [List.take_append_drop, length, exponent] at spells

end

theorem placePoint_spells (negative : Bool) (hd : 0 < d) (he : Binary64.InReach e) :
    Spells negative (placePoint (digitText d) (e + (Nat.toDigits 10 d).length)).toList
      (.real (.ofDecimal negative d e)) := by
  have digits := Digits.toDigits d
  have lead := toDigits_head hd
  have number : Binary64.ofDecimal negative d e =
      .ofDecimal negative (digitsValue (Nat.toDigits 10 d)) e := by rw [digitsValue_toDigits]
  rw [← digitsValue_toDigits d] at hd
  rw [number]
  unfold placePoint digitText
  dsimp only
  rw [String.length_ofList, String.toList_ofList]
  generalize Nat.toDigits 10 d = ds at *
  have ne : ds ≠ [] := by
    obtain ⟨c, cs, rfl, -⟩ := lead
    exact List.cons_ne_nil _ _
  split
  · rename_i place
    have spells := digits.afterPoint ne negative place
    convert spells using 1
    simp [zeros, pointed, ne]
  · rename_i late
    split
    · rename_i whole
      have spells := digits.beforePoint lead negative hd (by omega) he
      rw [Int.add_sub_cancel]
      convert spells using 1
      simp [zeros, pointed]
    · rename_i among
      have spells := digits.aroundPoint lead negative (Int.lt_of_not_ge late) (by omega)
      have rest : ds.drop (e + ds.length).toNat ≠ [] := by
        refine List.ne_nil_of_length_pos ?_
        rw [List.length_drop]
        omega
      rw [List.splitAt_eq]
      convert spells using 1
      simp [pointed, rest]

theorem leadPoint_spells (negative : Bool) (e : Int) (hd : 0 < d) :
    Spells negative
      (leadPoint (digitText d) ++ exponentText (e + (Nat.toDigits 10 d).length - 1)).toList
      (.real (.ofDecimal negative d e)) := by
  obtain ⟨c, cs, head, hc⟩ := toDigits_head hd
  have digits := Digits.toDigits d
  have value := digitsValue_toDigits d
  have lead : (leadPoint (digitText d)).toList = [c] ++ pointed cs := by
    unfold leadPoint digitText
    rw [String.toList_ofList, head]
    cases cs <;> simp [pointed]
  rw [head] at digits value ⊢
  have whole : Whole [c] := ⟨fun b hb => digits b (List.mem_cons.2 (.inl (List.mem_singleton.1 hb))),
    .inr ⟨c, [], rfl, hc⟩⟩
  have spells := whole.exponent negative (fun b hb => digits b (.tail _ hb))
    (e + (c :: cs).length - 1)
  have exponent : e + ((c :: cs).length : Int) - 1 - cs.length = e := by
    rw [List.length_cons]
    omega
  have parts : [c] ++ cs = c :: cs := rfl
  rw [exponent, parts, value] at spells
  rw [String.toList_append, lead, List.append_assoc]
  exact spells

end

theorem text_spells (x : Binary64.Finite) :
    ∃ body, (Binary64.finite x).text.toList = sign x.negative ++ body ∧
      Spells x.negative body (.real (.finite x)) := by
  have signed (t : String) :
      ((if x.negative then "-" else "") ++ t).toList = sign x.negative ++ t.toList := by
    cases x.negative <;> simp [sign]
  unfold Binary64.text
  dsimp only
  split
  · rename_i zero
    have same : Binary64.finite x = .zero x.negative := by
      obtain ⟨negative, mantissa, exponent, canonical⟩ := x
      cases zero
      obtain rfl : exponent = -1074 := canonical.2.2.2.resolve_left (by decide)
      rfl
    rw [same]
    exact ⟨_, signed _, zero_spells _⟩
  · rename_i nonzero
    have reads := Binary64.shortest_reads (x := { x with negative := false })
      (Nat.pos_of_ne_zero nonzero) rfl
    generalize Binary64.shortest _ _ = d at reads ⊢
    have number : Binary64.ofDecimal x.negative d.digits d.exponent = .finite x := by
      obtain ⟨negative, mantissa, exponent, canonical⟩ := x
      cases negative with
      | false => exact reads.reads
      | true =>
        rw [Binary64.ofDecimal_true, reads.reads]
        rfl
    have length : (digitText d.digits).length = (Nat.toDigits 10 d.digits).length :=
      String.length_ofList
    rw [length]
    split
    · have spells := placePoint_spells x.negative reads.positive reads.reach
      exact ⟨_, signed _, number ▸ spells⟩
    · have spells := leadPoint_spells x.negative d.exponent reads.positive
      rw [String.append_assoc]
      exact ⟨_, signed _, number ▸ spells⟩

/-- The text of a finite number is read as that number. -/
theorem number_spells {n : Number} {t : String} (hn : n.isFinite = true) (h : n.text = .ok t) :
    ∃ negative body, t.toList = sign negative ++ body ∧ Spells negative body n := by
  cases n with
  | int n =>
    obtain ⟨body, ht, spells⟩ := intText_spells h
    exact ⟨_, body, ht, spells⟩
  | real x =>
    cases x with
    | finite x =>
      cases h
      obtain ⟨body, ht, spells⟩ := text_spells x
      exact ⟨_, body, ht, spells⟩
    | nan => cases hn
    | infinite => cases hn

end VideoExport.Json
