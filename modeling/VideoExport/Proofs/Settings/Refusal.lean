import VideoExport.Proofs.Settings

/-!
# What sanitizing refuses

Sanitizing is refused exactly where a text field is given a value whose text would hold an integer of
more digits than may be written (`Settings.sanitize_refused`). The integer may stand inside lists and
maps (`Value.Oversized`).
-/

set_option autoImplicit false

namespace VideoExport

/-! ## Values without text -/

/-- An integer of more than `digitLimit` digits, or a list or map that holds one. -/
inductive Value.Oversized : Value → Prop where
  | integer {n : Int} (h : Nat.pow 10 digitLimit ≤ n.natAbs) : Oversized (.number (.int n))
  | item {items : List Value} {v : Value} (mem : v ∈ items) (h : Oversized v) :
    Oversized (.list items)
  | entry {entries : List (String × Value)} {key : String} {v : Value} (mem : (key, v) ∈ entries)
    (h : Oversized v) : Oversized (.map entries)

/-- A text, or the refusal of an integer for its digits. -/
inductive Written {α : Type} : Except NumericError α → Prop → Prop where
  | text {P : Prop} (a : α) (fits : ¬ P) : Written (.ok a) P
  | refused {P : Prop} (oversized : P) : Written (.error .tooManyDigits) P

theorem Written.iff {α : Type} {x : Except NumericError α} {P Q : Prop} (h : Written x P)
    (hPQ : P ↔ Q) : Written x Q := propext hPQ ▸ h

theorem Written.map {α β : Type} {x : Except NumericError α} {P : Prop} (h : Written x P) (f : α → β) :
    Written (f <$> x) P := by
  cases h with
  | text a fits => exact .text (f a) fits
  | refused oversized => exact .refused oversized

/-- A text made of two is refused where one of the two is. -/
theorem Written.both {α β γ : Type} {x : Except NumericError α} {y : Except NumericError β} {P Q : Prop}
    (hx : Written x P) (hy : Written y Q) (f : α → β → γ) :
    Written (do return f (← x) (← y)) (P ∨ Q) := by
  cases hx with
  | text a fits =>
    cases hy with
    | text b fits' => exact .text (f a b) (not_or.2 ⟨fits, fits'⟩)
    | refused oversized => exact .refused (.inr oversized)
  | refused oversized => exact .refused (.inl oversized)

/-- Texts that are refused alike are the same if they are the same where both are given. -/
theorem Written.eq {α : Type} {x y : Except NumericError α} {P : Prop} (hx : Written x P)
    (hy : Written y P) (same : ∀ a b, x = .ok a → y = .ok b → a = b) : x = y := by
  cases hx with
  | text a fits =>
    cases hy with
    | text b _ => exact congrArg _ (same a b rfl rfl)
    | refused oversized => exact absurd oversized fits
  | refused oversized =>
    cases hy with
    | text b fits => exact absurd oversized fits
    | refused _ => rfl

namespace Value

theorem oversized_integer_iff {n : Int} :
    Oversized (.number (.int n)) ↔ Nat.pow 10 digitLimit ≤ n.natAbs :=
  ⟨fun | .integer h => h, .integer⟩

theorem oversized_list_iff {items : List Value} :
    Oversized (.list items) ↔ ∃ v ∈ items, v.Oversized :=
  ⟨fun | .item mem h => ⟨_, mem, h⟩, fun ⟨_, mem, h⟩ => .item mem h⟩

theorem oversized_map_iff {entries : List (String × Value)} :
    Oversized (.map entries) ↔ ∃ e ∈ entries, e.2.Oversized :=
  ⟨fun | .entry mem h => ⟨_, mem, h⟩, fun ⟨_, mem, h⟩ => .entry mem h⟩

theorem exists_mem_cons {α : Type} {a : α} {rest : List α} {P : α → Prop} :
    (∃ b ∈ a :: rest, P b) ↔ P a ∨ ∃ b ∈ rest, P b := by
  simp only [List.mem_cons, exists_eq_or_imp]

theorem intText_written (n : Int) : Written (Number.intText n) (Nat.pow 10 digitLimit ≤ n.natAbs) := by
  unfold Number.intText
  split
  · rename_i fits
    exact .text _ (Nat.not_le_of_lt fits)
  · rename_i oversized
    exact .refused (Nat.le_of_not_lt oversized)

mutual

theorem inner_written : (v : Value) → Written v.inner v.Oversized
  | .null => .text _ nofun
  | .bool _ => .text _ nofun
  | .number (.int n) => (intText_written n).iff oversized_integer_iff.symm
  | .number (.real _) => .text _ nofun
  | .text _ => .text _ nofun
  | .octets _ => .text _ nofun
  | .list items => by
    unfold inner
    exact ((innerItems_written items).map _).iff oversized_list_iff.symm
  | .map entries => by
    unfold inner
    exact ((innerEntries_written entries).map _).iff oversized_map_iff.symm

theorem innerItems_written : (items : List Value) →
    Written (innerItems items) (∃ v ∈ items, v.Oversized)
  | [] => .text _ nofun
  | v :: rest => by
    unfold innerItems
    exact ((inner_written v).both (innerItems_written rest) _).iff exists_mem_cons.symm

theorem innerEntries_written : (entries : List (String × Value)) →
    Written (innerEntries entries) (∃ e ∈ entries, e.2.Oversized)
  | [] => .text _ nofun
  | (k, v) :: rest => by
    unfold innerEntries
    exact ((inner_written v).both (innerEntries_written rest) _).iff
      (exists_mem_cons (a := (k, v)) (P := fun e => e.2.Oversized)).symm

end

/-- A value is displayed unless it is oversized. -/
theorem display_written (v : Value) : Written v.display v.Oversized := by
  cases v with
  | text s => exact .text _ nofun
  | _ => exact inner_written _

end Value

/-! ## Inputs that are refused -/

/-- Whether a text field is given an oversized value. -/
def Draft.OversizedAt (d : Draft) (f : Field) : Prop := ∃ v, d.value? f = some v ∧ v.Oversized

def Raw.Oversized (raw : Raw) : Prop :=
  raw.draft.OversizedAt .textContent ∨ raw.draft.OversizedAt .textFontFamily

theorem Draft.text_written (d : Draft) (f : Field) (fallback : String) :
    Written (d.text f fallback) (d.OversizedAt f) := by
  unfold text OversizedAt
  cases d.value? f with
  | none => exact .text _ nofun
  | some v =>
    have given : v.Oversized ↔ ∃ w, some v = some w ∧ w.Oversized := by simp
    refine Written.iff ?_ given
    cases v with
    | null => exact .text _ nofun
    | _ => exact Value.display_written _

namespace Settings

theorem sanitize_written (raw : Raw) (hasImage : Bool) :
    Written (sanitize raw hasImage) raw.Oversized :=
  (raw.draft.text_written .textContent "").both (raw.draft.text_written .textFontFamily "Arial") _

/-- Whatever the input is, sanitizing gives settings, unless a text field is given an oversized value: then
it is refused for the digits. -/
theorem sanitize_refused (raw : Raw) (hasImage : Bool) :
    ((∃ s, sanitize raw hasImage = .ok s) ↔ ¬ raw.Oversized) ∧
      (sanitize raw hasImage = .error .tooManyDigits ↔ raw.Oversized) := by
  have written := sanitize_written raw hasImage
  generalize sanitize raw hasImage = outcome at written
  cases written with
  | text s fits =>
    refine ⟨⟨fun _ => fits, fun _ => ⟨s, rfl⟩⟩, ?_, fun oversized => absurd oversized fits⟩
    intro refused
    cases refused
  | refused oversized =>
    refine ⟨⟨?_, fun fits => absurd oversized fits⟩, fun _ => oversized, fun _ => rfl⟩
    rintro ⟨s, given⟩
    cases given

/-- A text field that is given an integer of one digit too many. -/
theorem oversized_text_refused : sanitize
    (.value (.map [("watermark_text", .number (.int (Nat.pow 10 digitLimit)))])) false =
      .error .tooManyDigits := by
  have oversized : (Value.number (.int (Nat.pow 10 digitLimit))).Oversized :=
    .integer (Nat.le_of_eq (Int.natAbs_natCast _).symm)
  have written := sanitize_written
    (.value (.map [("watermark_text", .number (.int (Nat.pow 10 digitLimit)))])) false
  generalize sanitize _ _ = outcome at written
  cases written with
  | text s fits => exact absurd (.inl ⟨_, rfl, oversized⟩) fits
  | refused _ => rfl

end Settings

end VideoExport
