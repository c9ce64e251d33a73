import VideoExport.Proofs.Json.Grammar

/-!
# What the reader takes

Whatever the reader takes is the text of what it gives, and it refuses the nesting of a text only where the
text opens more brackets at once than it may (`Json.sound`, by induction on the fuel).
-/

set_option autoImplicit false

namespace VideoExport.Json

/-! ## Parts -/

theorem blank_takeWhile (s : List Char) : Blank (s.takeWhile isSpace) :=
  List.all_eq_true.1 List.all_takeWhile

/-- What is left after white space, with the white space. -/
theorem skipSpace_split {s rest : List Char} (h : skipSpace s = rest) : ∃ w, Blank w ∧ s = w ++ rest :=
  ⟨s.takeWhile isSpace, blank_takeWhile s, h ▸ List.takeWhile_append_dropWhile.symm⟩

theorem afterWord?_sound {word s rest : List Char} (h : afterWord? word s = some rest) :
    s = word ++ rest := by
  unfold afterWord? at h
  split at h
  · rename_i starts
    cases h
    exact (List.prefix_iff_eq_append.1 (List.isPrefixOf_iff_prefix.1 starts)).symm
  · cases h

theorem word?_sound {s rest : List Char} {v : Value} (h : word? s = some (v, rest)) :
    ∃ t, (t, v) ∈ words ∧ s = t.toList ++ rest := by
  have entry {t : String} {u : Value} (mem : (t, u) ∈ words)
      (h : (afterWord? t.toList s).map (u, ·) = some (v, rest)) :
      ∃ t, (t, v) ∈ words ∧ s = t.toList ++ rest := by
    obtain ⟨rest', found, is⟩ := Option.map_eq_some_iff.1 h
    cases is
    exact ⟨t, mem, afterWord?_sound found⟩
  unfold word? at h
  simp only [Option.orElse_eq_orElse, Option.orElse_eq_or, Option.or_eq_some_iff] at h
  unfold words at *
  rcases h with h | ⟨-, h | ⟨-, h | ⟨-, h | ⟨-, h | ⟨-, h⟩⟩⟩⟩⟩
  all_goals exact entry (by simp) h

/-! ## Values -/

/-- The text begins with a value. -/
def TakesValue (s : List Char) (v : Value) (rest : List Char) : Prop :=
  ∃ w, s = w ++ rest ∧ Derives (.value v) w

/-- The text begins with items and the bracket that ends them. -/
def TakesItems (s : List Char) (vs : List Value) (rest : List Char) : Prop :=
  ∃ w, s = w ++ ']' :: rest ∧ Derives (.items vs) w

/-- The text begins with members, which are added to entries, and the bracket that ends them. -/
def TakesMembers (before : List (String × Value)) (s : List Char) (es : List (String × Value))
    (rest : List Char) : Prop :=
  ∃ new w, s = w ++ '\x7d' :: rest ∧ Derives (.members new) w ∧ es = setEntries before new

/-- How the readers of values, of items and of entries end with an amount of fuel. -/
structure Sound (fuel : Nat) : Prop where
  value : ∀ depth s, Verdict (TakesValue s) (Exceeds .value depth s) (readValue depth fuel s)
  items : ∀ depth s, Verdict (TakesItems s) (Exceeds .items depth s) (readItems depth fuel s)
  members : ∀ depth before s,
    Verdict (TakesMembers before s) (Exceeds .members depth s) (readEntries depth fuel before s)

theorem Sound.zero : Sound 0 where
  value depth s := by
    unfold readValue
    exact .fault _ _
  items depth s := by
    unfold readItems
    exact .fault _ _
  members depth before s := by
    unfold readEntries
    exact .fault _ _

variable {fuel : Nat}

theorem Sound.nextValue (ih : Sound fuel) (depth : Nat) (s : List Char) :
    Verdict (TakesValue s) (Exceeds .value depth s) (readValue depth (fuel + 1) s) := by
  cases s with
  | nil =>
    unfold readValue
    exact .fault _ _
  | cons c s =>
    unfold readValue
    split
    · rename_i quote
      refine (readText_verdict _ _ s).bind (fun chars after read => .taken ?_) False.elim
      obtain ⟨body, rfl, text⟩ := read
      exact ⟨'"' :: (body ++ ['"']), by simp [quote], .text text⟩
    split
    · rename_i brace
      subst brace
      cases depth with
      | zero => exact .tooDeep _ (.bracket (.inr rfl) s)
      | succ depth =>
        dsimp only
        obtain ⟨l, blank, split⟩ := skipSpace_split (s := s) rfl
        split
        · rename_i after closing
          rw [closing] at split
          exact .taken ⟨'\x7b' :: (l ++ ['\x7d']), by simp [split], .noMembers blank⟩
        · refine (ih.members depth [] (skipSpace s)).bind (fun es after read => .taken ?_) fun deep => ?_
          · obtain ⟨new, w, more, members, rfl⟩ := read
            exact ⟨'\x7b' :: (l ++ w ++ ['\x7d']), by rw [split, more]; simp,
              .map (members.blank_members blank)⟩
          · rw [split]
            exact .map (deep.blank_members blank)
    split
    · rename_i bracket
      subst bracket
      cases depth with
      | zero => exact .tooDeep _ (.bracket (.inl rfl) s)
      | succ depth =>
        dsimp only
        obtain ⟨l, blank, split⟩ := skipSpace_split (s := s) rfl
        split
        · rename_i after closing
          rw [closing] at split
          exact .taken ⟨'[' :: (l ++ [']']), by simp [split], .noItems blank⟩
        · refine (ih.items depth (skipSpace s)).bind (fun vs after read => .taken ?_) fun deep => ?_
          · obtain ⟨w, more, items⟩ := read
            exact ⟨'[' :: (l ++ w ++ [']']), by rw [split, more]; simp, .list (items.blank_items blank)⟩
          · rw [split]
            exact .list (deep.blank_items blank)
    split
    · rename_i found word
      obtain ⟨t, mem, split⟩ := word?_sound word
      exact .taken ⟨t.toList, split, .word mem⟩
    · dsimp only
      split
      · rename_i minus
        refine (readNumber_verdict _ true s).bind (fun n after read => .taken ?_) False.elim
        obtain ⟨body, rfl, number⟩ := read
        exact ⟨sign true ++ body, by simp [sign, minus], .number number⟩
      · refine (readNumber_verdict _ false (c :: s)).bind (fun n after read => .taken ?_) False.elim
        obtain ⟨body, split, number⟩ := read
        exact ⟨sign false ++ body, split, .number number⟩

theorem Sound.nextItems (ih : Sound fuel) (depth : Nat) (s : List Char) :
    Verdict (TakesItems s) (Exceeds .items depth s) (readItems depth (fuel + 1) s) := by
  unfold readItems
  refine (ih.value depth s).bind (fun v rest read => ?_) fun deep => .item deep.unspaced
  obtain ⟨w, rfl, value⟩ := read
  obtain ⟨r, blank, split⟩ := skipSpace_split (s := rest) rfl
  have item := Derives.element Blank.nil value blank
  dsimp only
  split
  · rename_i after closing
    rw [closing] at split
    exact .taken ⟨[] ++ (w ++ r), by simp [split], .lastItem item⟩
  · rename_i more comma
    -- White space that the reader skips before an item belongs to the item.
    obtain ⟨l, blank', split'⟩ := skipSpace_split (s := more) rfl
    rw [comma, split'] at split
    have joined : w ++ rest = ([] ++ (w ++ r)) ++ ',' :: (l ++ skipSpace more) := by simp [split]
    refine (ih.items depth (skipSpace more)).bind (fun vs after read => .taken ?_) fun deep => ?_
    · obtain ⟨t, further, items⟩ := read
      exact ⟨_, by rw [joined, further]; simp, .item item (items.blank_items blank')⟩
    · rw [joined]
      exact .laterItem item (deep.blank_items blank')
  · exact .fault _ _

theorem Sound.nextMembers (ih : Sound fuel) (depth : Nat) (before : List (String × Value))
    (s : List Char) :
    Verdict (TakesMembers before s) (Exceeds .members depth s) (readEntries depth (fuel + 1) before s) := by
  unfold readEntries
  split
  · rename_i s
    refine (readText_verdict _ _ s).bind (fun chars rest read => ?_) False.elim
    obtain ⟨body, rfl, key⟩ := read
    obtain ⟨r, blank, split⟩ := skipSpace_split (s := rest) rfl
    dsimp only
    split
    · rename_i rest' colon
      obtain ⟨l, blank', split'⟩ := skipSpace_split (s := rest') rfl
      rw [colon, split'] at split
      refine (ih.value depth (skipSpace rest')).bind (fun v rest'' read => ?_) fun deep => ?_
      · obtain ⟨w, value, derives⟩ := read
        obtain ⟨r', blank'', last⟩ := skipSpace_split (s := rest'') rfl
        have member := Derives.member Blank.nil key blank (.element blank' derives blank'')
        dsimp only
        split
        · rename_i after closing
          rw [closing] at last
          exact .taken ⟨[(String.ofList chars, v)], _, by rw [split, value, last]; simp,
            .lastMember member, rfl⟩
        · rename_i more comma
          obtain ⟨l', blankMore, further⟩ := skipSpace_split (s := more) rfl
          rw [comma, further] at last
          have entries := ih.members depth (Value.setEntry before (String.ofList chars) v) (skipSpace more)
          refine entries.mono (fun es after read => ?_) fun deep => ?_
          · obtain ⟨new, t, rest, members, rfl⟩ := read
            exact ⟨(String.ofList chars, v) :: new, _, by rw [split, value, last, rest]; simp,
              .members member (members.blank_members blankMore), rfl⟩
          · have begins := Exceeds.laterMember member (deep.blank_members blankMore)
            rw [split, value, last]
            simpa using begins
        · exact .fault _ _
      · rw [split]
        exact .member Blank.nil key blank (.element blank' deep)
    · exact .fault _ _
  · exact .fault _ _

/-- Whatever the fuel and the depth, what is read is the text of a phrase. -/
theorem sound (fuel : Nat) : Sound fuel := by
  induction fuel with
  | zero => exact .zero
  | succ fuel ih => exact ⟨ih.nextValue, ih.nextItems, ih.nextMembers⟩

end VideoExport.Json
