import VideoExport.Progress
import VideoExport.Proofs.Number

/-!
# Progress that never falls

What is shown for a number is a fraction (`Progress.normalize_fraction`), and a tracker shows the
largest fraction so far: its history ascends, and ends in what it shows (`Progress.Tracker.Sound`).
-/

set_option autoImplicit false

namespace VideoExport

/-! ## Events -/

/-- The line that an event of an engine's log tells. -/
def EngineEvent.line? : EngineEvent → Option String
  | .log message => some message
  | _ => none

/-- The report that an event of an engine makes of its progress. -/
def EngineEvent.report? : EngineEvent → Option ProgressReport
  | .progress report => some report
  | _ => none

/-! ## Fractions -/

namespace Binary64

variable {x y : Binary64}

/-- A number from zero to one. -/
def IsFraction (x : Binary64) : Prop :=
  ∃ q, (Number.real x).place? = some (0, q) ∧ 0 ≤ q ∧ q ≤ 1

theorem place_zero : (Number.real (zero false)).place? = some (0, 0) := by decide +kernel

theorem place_one : (Number.real one).place? = some (0, 1) := by decide +kernel

theorem isFraction_zero : (zero false).IsFraction := ⟨0, place_zero, by decide, by decide⟩

theorem isFraction_one : one.IsFraction := ⟨1, place_one, by decide, by decide⟩

theorem clampUnit_fraction (x : Binary64) : x.clampUnit.IsFraction := by
  have positive : (Number.real (zero false)).lt (.real one) = true :=
    (Number.lt_iff place_zero place_one).2 (by decide)
  unfold clampUnit
  dsimp only
  by_cases below : (Number.real x).lt (.real one) = true
  · rw [if_pos below]
    split
    · rename_i above
      obtain ⟨i, p, j, q, hx, hone, hlt⟩ := Number.lt_place below
      obtain ⟨i', p', j', q', hzero, hx', hlt'⟩ := Number.lt_place above
      cases hx.symm.trans hx'
      cases place_one.symm.trans hone
      cases place_zero.symm.trans hzero
      -- a place below one and above zero is not at either end of the line
      obtain rfl : i = 0 := by
        rcases hlt with h | ⟨h, -⟩
        · rcases hlt' with h' | ⟨h', -⟩ <;> omega
        · exact h
      refine ⟨p, hx, ?_, ?_⟩
      · exact Rat.le_of_lt (hlt'.resolve_left (Int.lt_irrefl 0)).2
      · exact Rat.le_of_lt (hlt.resolve_left (Int.lt_irrefl 0)).2
    · exact isFraction_zero
  · rw [if_neg below, if_pos positive]
    exact isFraction_one

/-- Not above. -/
def AtMost (x y : Binary64) : Prop := (Number.real x).le (.real y) = true

theorem IsFraction.atMost_refl (hx : x.IsFraction) : x.AtMost x := by
  obtain ⟨p, hp, -⟩ := hx
  exact (Number.le_iff hp hp).2 Rat.le_refl

theorem AtMost.trans {z : Binary64} (h : x.AtMost y) (hx : x.IsFraction) (hy : y.IsFraction)
    (hz : z.IsFraction) (h' : y.AtMost z) : x.AtMost z := by
  obtain ⟨p, hp, -⟩ := hx
  obtain ⟨q, hq, -⟩ := hy
  obtain ⟨r, hr, -⟩ := hz
  exact (Number.le_iff hp hr).2
    (Rat.le_trans ((Number.le_iff hp hq).1 h) ((Number.le_iff hq hr).1 h'))

theorem IsFraction.atMost_one (hx : x.IsFraction) : x.AtMost one := by
  obtain ⟨p, hp, -, h⟩ := hx
  exact (Number.le_iff hp place_one).2 h

theorem greatest_fraction (hx : x.IsFraction) (hy : y.IsFraction) : (greatest x y).IsFraction := by
  unfold greatest
  split
  · exact hy
  · exact hx

theorem atMost_greatest (hx : x.IsFraction) : x.AtMost (greatest x y) := by
  unfold greatest
  split
  · rename_i h
    exact Bool.or_eq_true_iff.2 (.inl h)
  · exact hx.atMost_refl

theorem atMost_greatest_right (hx : x.IsFraction) (hy : y.IsFraction) : y.AtMost (greatest x y) := by
  unfold greatest
  split
  · exact hy.atMost_refl
  · rename_i h
    obtain ⟨p, hp, -⟩ := hx
    obtain ⟨q, hq, -⟩ := hy
    rw [Number.lt_iff hp hq] at h
    exact (Number.le_iff hq hp).2 (Rat.not_lt.1 h)

/-- One of some numbers, and none of them is above it. -/
def Largest (x : Binary64) (among : List Binary64) : Prop := x ∈ among ∧ ∀ y ∈ among, y.AtMost x

theorem Largest.fraction {among : List Binary64} (h : x.Largest among)
    (fractions : ∀ y ∈ among, y.IsFraction) : x.IsFraction := fractions x h.1

/-- The larger of the largest so far and another number is the largest of all. -/
theorem Largest.greatest {among : List Binary64} (h : x.Largest among)
    (fractions : ∀ z ∈ among, z.IsFraction) (hy : y.IsFraction) :
    (Binary64.greatest x y).Largest (among ++ [y]) := by
  have hx := h.fraction fractions
  refine ⟨?_, fun z hz => ?_⟩
  · unfold Binary64.greatest
    split
    · exact List.mem_append_right _ (.head _)
    · exact List.mem_append_left _ h.1
  · rcases List.mem_append.1 hz with hz | hz
    · exact (h.2 z hz).trans (fractions z hz) hx (greatest_fraction hx hy) (atMost_greatest hx)
    · rw [List.mem_singleton.1 hz]
      exact atMost_greatest_right hx hy

end Binary64

namespace Progress

open Number (bind_ok)

variable {n : Number} {x : Binary64}

theorem ofNumber_fraction (h : ofNumber n = .ok x) : x.IsFraction := by
  unfold ofNumber at h
  obtain ⟨y, -, h⟩ := bind_ok h
  split at h
  · cases h
    exact Binary64.isFraction_zero
  · split at h
    · cases h
      exact Binary64.clampUnit_fraction _
    · split at h
      · obtain ⟨m, -, h⟩ := bind_ok h
        obtain ⟨z, -, h⟩ := bind_ok h
        cases h
        exact Binary64.clampUnit_fraction _
      · cases h
        exact Binary64.isFraction_zero

/-- What is shown for a number, or for the lack of one, is a fraction. -/
theorem normalize_fraction : ∀ {n : Option Number}, normalize n = .ok x → x.IsFraction
  | none, h => by
    cases h
    exact Binary64.isFraction_zero
  | some _, h => ofNumber_fraction h

/-- Numbers from zero to one that do not fall. -/
def Ascends (numbers : List Number) : Prop :=
  (∀ n ∈ numbers, (0 : Number).le n = true ∧ n.le 1 = true) ∧
    numbers.Pairwise fun m n => m.le n = true

namespace Tracker

/-- The history of a tracker ascends among the fractions up to what the tracker shows, which is the
last entry. -/
structure Sound (t : Tracker) : Prop where
  value : t.value = t.history.getLast?.getD (.zero false)
  fraction : t.value.IsFraction
  fractions : ∀ x ∈ t.history, x.IsFraction
  ascends : t.history.Pairwise Binary64.AtMost
  below : ∀ x ∈ t.history, x.AtMost t.value

theorem sound_new : ({} : Tracker).Sound where
  value := rfl
  fraction := Binary64.isFraction_zero
  fractions _ h := absurd h List.not_mem_nil
  ascends := .nil
  below _ h := absurd h List.not_mem_nil

theorem Sound.ascends_map {t : Tracker} (h : t.Sound) : Ascends (t.history.map .real) := by
  refine ⟨fun n hn => ?_, List.pairwise_map.2 h.ascends⟩
  obtain ⟨x, hx, rfl⟩ := List.mem_map.1 hn
  obtain ⟨p, hp, nonnegative, atMostOne⟩ := h.fractions x hx
  have zero : (0 : Number).place? = some (0, 0) := rfl
  have one : (1 : Number).place? = some (0, 1) := rfl
  exact ⟨(Number.le_iff zero hp).2 nonnegative, (Number.le_iff hp one).2 atMostOne⟩

/-- A sound tracker with a larger fraction. -/
theorem Sound.extend {t : Tracker} (h : t.Sound) (fraction : x.IsFraction)
    (larger : t.value.AtMost x) : Sound ⟨x, t.history ++ [x]⟩ where
  value := by simp
  fraction := fraction
  fractions y hy := by
    rcases List.mem_append.1 hy with hy | hy
    · exact h.fractions y hy
    · exact List.mem_singleton.1 hy ▸ fraction
  ascends := by
    refine List.pairwise_append.2 ⟨h.ascends, List.pairwise_singleton _ _, fun y hy z hz => ?_⟩
    rw [List.mem_singleton.1 hz]
    exact (h.below y hy).trans (h.fractions y hy) h.fraction fraction larger
  below y hy := by
    rcases List.mem_append.1 hy with hy | hy
    · exact (h.below y hy).trans (h.fractions y hy) h.fraction fraction larger
    · rw [List.mem_singleton.1 hy]
      exact fraction.atMost_refl

/-- Whatever number comes, what is shown does not fall. -/
theorem Sound.update {t u : Tracker} {n : Option Number} (h : t.Sound)
    (hu : t.update n = .ok u) : u.Sound ∧ u.history = t.history ++ [u.value] := by
  unfold Tracker.update at hu
  obtain ⟨y, hn, hu⟩ := bind_ok hu
  cases hu
  exact ⟨h.extend (Binary64.greatest_fraction h.fraction (normalize_fraction hn))
    (Binary64.atMost_greatest h.fraction), rfl⟩

end Tracker

/-! ## Reports -/

/-- The values that are shown after each of some fractions: the largest one of zero and the fractions so
far. -/
structure Maxima (fractions values : List Binary64) : Prop where
  length : values.length = fractions.length
  largest : ∀ (i : Nat) (h : i < values.length),
    values[i].Largest (.zero false :: fractions.take (i + 1))

/-- A tracker shows what some reports tell, one after another. -/
structure Tracker.Shows (t : Tracker) (reports : List ProgressReport) (fractions : List Binary64) :
    Prop where
  sound : t.Sound
  normal : reports.mapM (fun report => normalize report.number?) = .ok fractions
  unit : ∀ x ∈ fractions, x.IsFraction
  maxima : Maxima fractions t.history
  value : t.value.Largest (.zero false :: fractions)

theorem Tracker.shows_new : ({} : Tracker).Shows [] [] where
  sound := sound_new
  normal := rfl
  unit _ h := absurd h List.not_mem_nil
  maxima := ⟨rfl, nofun⟩
  value := ⟨.head _, fun _ hy => List.mem_singleton.1 hy ▸ Binary64.isFraction_zero.atMost_refl⟩

/-- The tracker shows one report more. -/
theorem Tracker.Shows.update {t u : Tracker} {reports : List ProgressReport}
    {fractions : List Binary64} {report : ProgressReport} (h : t.Shows reports fractions)
    (hu : t.update report.number? = .ok u) :
    ∃ x, u.Shows (reports ++ [report]) (fractions ++ [x]) ∧ u.history = t.history ++ [u.value] := by
  obtain ⟨sound, history⟩ := h.sound.update hu
  unfold Tracker.update at hu
  obtain ⟨x, hx, hu⟩ := bind_ok hu
  cases hu
  have fraction := normalize_fraction hx
  have all : ∀ y ∈ Binary64.zero false :: fractions, y.IsFraction :=
    List.forall_mem_cons.2 ⟨Binary64.isFraction_zero, h.unit⟩
  have value := h.value.greatest all fraction
  refine ⟨x, ⟨sound, ?_, ?_, ⟨?_, fun i hi => ?_⟩, value⟩, history⟩
  · rw [List.mapM_append, h.normal, List.mapM_cons, hx]
    rfl
  · exact List.forall_mem_append.2 ⟨h.unit, List.forall_mem_singleton.2 fraction⟩
  · simp [h.maxima.length]
  · dsimp only at hi ⊢
    rw [List.length_append, List.length_singleton] at hi
    by_cases before : i < t.history.length
    · rw [List.getElem_append_left before, List.take_append_of_le_length]
      · exact h.maxima.largest i before
      · have := h.maxima.length
        omega
    · obtain rfl : i = t.history.length := by omega
      rw [List.getElem_append_right (Nat.le_refl _), List.take_of_length_le]
      · simpa using value
      · simp [h.maxima.length]

end Progress

end VideoExport
