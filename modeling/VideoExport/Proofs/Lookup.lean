/-!
# Entries under keys

What is found under a key in a list of entries once the entries of a key have been taken away.
-/

set_option autoImplicit false

namespace VideoExport

variable {α β : Type} [BEq α] [LawfulBEq α] {entries : List (α × β)} {key k : α}

/-- A key whose entries are kept has what it had. -/
theorem lookup_filter {keep : α → Bool} (h : keep k = true) :
    (entries.filter fun e => keep e.1).lookup k = entries.lookup k := by
  induction entries with
  | nil => rfl
  | cons e entries ih =>
    rw [List.filter_cons]
    split
    · rw [List.lookup_cons, List.lookup_cons, ih]
    · rename_i dropped
      have hn : (k == e.1) = false := beq_eq_false_iff_ne.2 fun same => dropped (same ▸ h)
      rw [ih, List.lookup_cons, hn]

variable [DecidableEq α]

theorem lookup_removed : (entries.filter fun e => e.1 ≠ key).lookup key = none := by
  rw [List.lookup_eq_none_iff]
  intro e he
  have hne : e.1 ≠ key := by simpa using (List.mem_filter.1 he).2
  exact bne_iff_ne.2 (Ne.symm hne)

theorem lookup_kept (h : k ≠ key) :
    (entries.filter fun e => e.1 ≠ key).lookup k = entries.lookup k :=
  @lookup_filter _ _ _ _ entries k (fun n => decide (n ≠ key)) (decide_eq_true h)

/-- What is found under a key in entries of which those of a key have been replaced by one. -/
theorem lookup_replaced {value : β} :
    (entries.filter (fun e => e.1 ≠ key) ++ [(key, value)]).lookup k =
      if k = key then some value else entries.lookup k := by
  rw [List.lookup_append]
  by_cases h : k = key
  · subst h
    rw [lookup_removed]
    simp
  · have hn : (k == key) = false := beq_eq_false_iff_ne.2 h
    rw [lookup_kept h]
    simp [h, List.lookup_cons, hn]

end VideoExport
