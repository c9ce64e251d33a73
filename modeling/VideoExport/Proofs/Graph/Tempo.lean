import VideoExport.Graph.Filter
import VideoExport.Graph.Tempo
import VideoExport.Proofs.Json.Document
import VideoExport.Proofs.Numeric.Scaling

/-!
# The tempo factors of a speed

The tempo factors of a positive speed lie between one half and two, and their exact product is the speed,
for the smallest and the largest numbers too (`tempoFactors_chain`). They are written with numerals from
which their exact values are read back (`Numeral.Denotes`, `mapM_denotes`).
-/

set_option autoImplicit false

namespace VideoExport

open Binary64 (Finite two half)

variable {x : Finite}

/-! ## Factors -/

/-- Numbers between one half and two whose product is a speed. All but the last are two if the speed is
above two, and one half if it is below one half; else there is no other than the last. -/
structure TempoChain (x : Finite) (factors : List Finite) : Prop where
  any : factors ≠ []
  within : ∀ f ∈ factors, 1 / 2 ≤ f.value ∧ f.value ≤ 2
  repeated : ∀ f ∈ factors.dropLast, 2 < x.value ∧ f.value = 2 ∨ x.value < 1 / 2 ∧ f.value = 1 / 2
  product : (factors.map Finite.value).prod = x.value

/-- A number as often as it was divided by, and then what was left. -/
theorem TempoChain.of_division {lead last : Finite} {n : Nat}
    (hl : 2 < x.value ∧ lead.value = 2 ∨ x.value < 1 / 2 ∧ lead.value = 1 / 2)
    (within : 1 / 2 ≤ last.value ∧ last.value ≤ 2) (product : x.value = lead.value ^ n * last.value) :
    TempoChain x (List.replicate n lead ++ [last]) where
  any := by simp
  within f hf := by
    rcases List.mem_append.1 hf with hf | hf
    · rw [List.eq_of_mem_replicate hf]
      rcases hl with ⟨-, value⟩ | ⟨-, value⟩ <;> rw [value] <;> norm_num
    · rwa [List.mem_singleton.1 hf]
  repeated f hf := by
    rw [List.dropLast_concat] at hf
    rwa [List.eq_of_mem_replicate hf]
  product := by simp [product]

/-- The factors of a positive speed, subnormal or huge as it may be. -/
theorem tempoFactors_chain (positive : 0 < x.value) : ∃ factors : List Finite,
    tempoFactors (.real (.finite x)) = .ok (factors.map fun f => .real (.finite f)) ∧
      TempoChain x factors := by
  have zero : ¬ (Number.real (.finite x)).le 0 = true :=
    mt Binary64.finite_le_zero_iff.1 (not_le.2 positive)
  unfold tempoFactors
  rw [if_neg zero]
  by_cases above : 2 < x.value
  · obtain ⟨t, ht, value⟩ := Binary64.exists_two
    obtain ⟨n, y, loop, product, low, high⟩ := Binary64.run_halving above
    refine ⟨List.replicate n t ++ [y], ?_, .of_division (.inl ⟨above, value⟩) ⟨by linarith, high⟩
      (value ▸ product)⟩
    rw [if_pos (Binary64.two_lt_iff.2 above)]
    rw [ht] at loop
    simp [Number.toReal, bind, Except.bind, pure, Except.pure, Binary64.isFinite, loop, ht]
  · rw [if_neg (mt Binary64.two_lt_iff.1 above)]
    by_cases below : x.value < 1 / 2
    · obtain ⟨t, ht, value⟩ := Binary64.exists_oneHalf
      obtain ⟨n, y, loop, product, low, high⟩ := Binary64.run_doubling positive below
      refine ⟨List.replicate n t ++ [y], ?_, .of_division (.inr ⟨below, value⟩) ⟨low, by linarith⟩
        (value ▸ product)⟩
      rw [if_pos (Binary64.lt_half_iff.2 below)]
      rw [ht] at loop
      simp [Number.toReal, bind, Except.bind, pure, Except.pure, loop, ht]
    · rw [if_neg (mt Binary64.lt_half_iff.1 below)]
      refine ⟨[x], rfl, ?_⟩
      constructor
      case any => simp
      case within => exact List.forall_mem_singleton.2 ⟨not_lt.1 below, not_lt.1 above⟩
      case repeated => simp
      case product => simp

/-! ## Numerals -/

/-- A numeral that is read as a number of a certain exact value. -/
def Numeral.Denotes (t : Numeral) (q : Rat) : Prop :=
  ∃ n : Number, Json.read t = .ok (.number n) ∧ n.place? = some (0, q)

theorem denotes_of_text {n : Number} {t : Numeral} {q : Rat} (finite : n.isFinite = true)
    (h : n.text = .ok t) (hq : n.place? = some (0, q)) : t.Denotes q := by
  obtain ⟨negative, body, written, spells⟩ := Json.number_spells finite h
  obtain ⟨c, cs, rfl, digit⟩ := spells.head
  refine ⟨n, Json.read_of_renders (Json.renders_number finite h) ?_, hq⟩
  intro mark
  rw [written] at mark
  cases negative with
  | true => exact absurd (Option.some.inj mark) (by decide)
  | false =>
    obtain rfl : c = Char.ofNat 0xFEFF := Option.some.inj mark
    exact absurd digit (by decide)

/-- A number is written so that its value can be read back. -/
theorem Number.compact_denotes (x : Finite) :
    ∃ t, (Number.real (.finite x)).compact = .ok t ∧ Numeral.Denotes t x.value := by
  unfold Number.compact
  dsimp only
  split
  · rename_i integer
    have value := Finite.truncate_value (beq_iff_eq.1 integer)
    have text : Number.intText x.truncate = .ok _ := if_pos x.truncate_short
    refine ⟨_, text, denotes_of_text (n := .int x.truncate) ?_ text (by rw [← value]; rfl)⟩
    rw [Number.int_isFinite_iff, value]
    exact x.abs_value_lt
  · exact ⟨_, rfl, denotes_of_text (n := .real (.finite x)) rfl rfl rfl⟩

/-- The tempo filters of factors, each with the numeral of its factor. -/
theorem mapM_denotes (factors : List Finite) : ∃ audio : List TempoFilter,
    (factors.map fun f => Number.real (.finite f)).mapM
      (fun n => do return TempoFilter.mk (← n.compact)) = .ok audio ∧
    List.Forall₂ (fun f a => Numeral.Denotes a.factor f.value) factors audio := by
  induction factors with
  | nil => exact ⟨[], rfl, .nil⟩
  | cons f factors ih =>
    obtain ⟨t, ht, denotes⟩ := Number.compact_denotes f
    obtain ⟨audio, ha, each⟩ := ih
    refine ⟨⟨t⟩ :: audio, ?_, .cons denotes each⟩
    rw [List.map_cons, List.mapM_cons, ht, ha]
    rfl

end VideoExport
