import VideoExport.Proofs.Json.Soundness

/-!
# What the reader does not miss

The text of a phrase is read as what the phrase stands for, unless its nesting is refused
(`Json.Derives.taken`), and a text that opens more brackets at once than it may is refused for that
(`Json.Exceeds.refused`). So a text is read as the value of a document exactly if it is that document and
not overnested (`Json.readDocument_iff`).
-/

set_option autoImplicit false

namespace VideoExport.Json

/-! ## Brackets -/

section
variable {c : Char} {v : Value}

theorem readValue_noItems (depth fuel : Nat) {s after : List Char} (h : skipSpace s = ']' :: after) :
    readValue (depth + 1) (fuel + 1) ('[' :: s) = .ok (.list [], after) := by
  unfold readValue
  rw [if_neg (by decide), if_neg (by decide), if_pos rfl]
  simp only [h]

theorem readValue_items (depth fuel : Nat) {s cs : List Char} (h : skipSpace s = c :: cs)
    (other : c ≠ ']') : readValue (depth + 1) (fuel + 1) ('[' :: s) = (do
      let (items, after) ← readItems depth fuel (skipSpace s)
      return (.list items, after)) := by
  unfold readValue
  rw [if_neg (by decide), if_neg (by decide), if_pos rfl]
  dsimp only
  split
  · rename_i closing
    rw [h] at closing
    exact absurd (List.cons.inj closing).1 other
  · rfl

theorem readValue_noMembers (depth fuel : Nat) {s after : List Char} (h : skipSpace s = '\x7d' :: after) :
    readValue (depth + 1) (fuel + 1) ('\x7b' :: s) = .ok (.map [], after) := by
  unfold readValue
  rw [if_neg (by decide), if_pos rfl]
  simp only [h]

theorem readValue_members (depth fuel : Nat) {s cs : List Char} (h : skipSpace s = '"' :: cs) :
    readValue (depth + 1) (fuel + 1) ('\x7b' :: s) = (do
      let (entries, after) ← readEntries depth fuel [] (skipSpace s)
      return (.map entries, after)) := by
  unfold readValue
  rw [if_neg (by decide), if_pos rfl]
  simp only [h]
  rfl

theorem readValue_zero (fuel : Nat) {c : Char} (hc : c = '[' ∨ c = '\x7b') (s : List Char) :
    readValue 0 (fuel + 1) (c :: s) = .error (.tooDeep (c = '\x7b')) := by
  unfold readValue
  rcases hc with rfl | rfl <;> rfl

theorem readValue_word {t : String} (h : (t, v) ∈ words) (depth fuel : Nat) (rest : List Char) :
    readValue depth (fuel + 1) (t.toList ++ rest) = .ok (v, rest) := by
  unfold words at h
  simp only [List.mem_cons, Prod.mk.injEq, List.not_mem_nil, or_false] at h
  rcases h with ⟨rfl, rfl⟩ | ⟨rfl, rfl⟩ | ⟨rfl, rfl⟩ | ⟨rfl, rfl⟩ | ⟨rfl, rfl⟩ | ⟨rfl, rfl⟩ <;> rfl

end

/-! ## Phrases -/

/-- It is the nesting that is refused. -/
def Refuses {α : Type} (x : Except Stop α) : Prop := ∃ atMap, x = .error (.tooDeep atMap)

/-- Something that was read, or the refusal of its nesting. -/
def Gives {α : Type} (a : α) (x : Except Stop α) : Prop := x = .ok a ∨ Refuses x

section
variable {α β : Type} {a : α} {b : β} {x : Except Stop α} {k : α → Except Stop β}

theorem Refuses.bind (h : Refuses x) (k : α → Except Stop β) : Refuses (x >>= k) := by
  obtain ⟨atMap, rfl⟩ := h
  exact ⟨atMap, rfl⟩

theorem Gives.bind (h : Gives a x) (hk : Gives b (k a)) : Gives b (x >>= k) := by
  obtain rfl | h := h
  · exact hk
  · exact .inr (h.bind k)

theorem Gives.refuses (h : Gives a x) (hk : Refuses (k a)) : Refuses (x >>= k) := by
  obtain rfl | h := h
  · exact hk
  · exact h.bind k

end

/-- How the reader takes the text of a phrase: as what it means, if it does not nest too deeply. Two units of
fuel for each character that is left are enough. -/
def Phrase.Taken : Phrase → List Char → Prop
  | .value v, w => ∀ depth fuel rest, 2 * (w ++ rest).length ≤ fuel + 1 → Follows rest →
    Gives (v, rest) (readValue depth (fuel + 1) (w ++ rest))
  | .element v, w => ∀ depth fuel rest, 2 * (w ++ rest).length ≤ fuel → Follows rest →
    ∃ r, Blank r ∧ Gives (v, r ++ rest) (readValue depth fuel (skipSpace (w ++ rest)))
  | .items vs, w => ∀ depth fuel rest, 2 * (w ++ ']' :: rest).length < fuel →
    Gives (vs, rest) (readItems depth fuel (skipSpace (w ++ ']' :: rest)))
  | .member key v, w => ∀ depth fuel before rest, 2 * (w ++ rest).length ≤ fuel → Follows rest →
    readEntries depth (fuel + 1) before (skipSpace (w ++ rest)) =
        afterEntry depth fuel (Value.setEntry before key v) (skipSpace rest) ∨
      Refuses (readEntries depth (fuel + 1) before (skipSpace (w ++ rest)))
  | .members es, w => ∀ depth fuel before rest, 2 * (w ++ '\x7d' :: rest).length < fuel →
    Gives (setEntries before es, rest) (readEntries depth fuel before (skipSpace (w ++ '\x7d' :: rest)))

/-- A value between brackets is read if it is where a bracket may still be opened. -/
theorem gives_bracket {c : Char} {fuel : Nat} {s rest : List Char} {v : Value} (opens : c = '[' ∨ c = '\x7b')
    (inner : ∀ depth, Gives (v, rest) (readValue (depth + 1) (fuel + 1) (c :: s))) (depth : Nat) :
    Gives (v, rest) (readValue depth (fuel + 1) (c :: s)) := by
  cases depth with
  | zero => exact .inr ⟨_, readValue_zero fuel opens s⟩
  | succ depth => exact inner depth

/-- The text of a phrase is read as what it means, unless it nests too deeply. -/
theorem Derives.taken {p : Phrase} {w : List Char} (h : Derives p w) : p.Taken w := by
  -- Along the derivation: a bracket or a separator pays for the unit of fuel that its reader takes.
  induction h with
  | word mem =>
    intro depth fuel rest _ _
    exact .inl (readValue_word mem depth fuel rest)
  | @text body cs text =>
    intro depth fuel rest _ _
    rw [List.cons_append, List.append_assoc, List.singleton_append]
    unfold readValue
    rw [if_pos rfl, text.readAll]
    exact .inl rfl
  | number number =>
    intro depth fuel rest _ follows
    exact .inl (number.spells.value follows depth fuel)
  | @noItems w blank =>
    intro depth fuel rest _ _
    rw [List.cons_append, List.append_assoc, List.singleton_append]
    exact gives_bracket (.inl rfl)
      (fun depth => .inl (readValue_noItems depth fuel (blank.skipTo rfl rest))) depth
  | @list vs w h ih =>
    intro depth fuel rest hf _
    rw [List.cons_append, List.append_assoc, List.singleton_append]
    refine gives_bracket (.inl rfl) (fun depth => ?_) depth
    obtain ⟨c, cs, head, other⟩ := h.items_head (']' :: rest)
    have items := ih depth fuel rest (by simp at hf ⊢; omega)
    rw [readValue_items depth fuel head other]
    exact items.bind (.inl rfl)
  | @noMembers w blank =>
    intro depth fuel rest _ _
    rw [List.cons_append, List.append_assoc, List.singleton_append]
    exact gives_bracket (.inr rfl)
      (fun depth => .inl (readValue_noMembers depth fuel (blank.skipTo rfl rest))) depth
  | @map es w h ih =>
    intro depth fuel rest hf _
    rw [List.cons_append, List.append_assoc, List.singleton_append]
    refine gives_bracket (.inr rfl) (fun depth => ?_) depth
    obtain ⟨cs, head⟩ := h.members_head ('\x7d' :: rest)
    have members := ih depth fuel [] rest (by simp at hf ⊢; omega)
    rw [readValue_members depth fuel head]
    exact members.bind (.inl rfl)
  | @element v l w r before h after ih =>
    intro depth fuel rest hf follows
    obtain ⟨c, cs, rfl, space, -⟩ := h.head
    obtain ⟨fuel, rfl⟩ : ∃ f, fuel = f + 1 := ⟨fuel - 1, by simp at hf; omega⟩
    refine ⟨r, after, ?_⟩
    rw [List.append_assoc, List.append_assoc, List.cons_append, before.skipTo space]
    exact ih depth fuel (r ++ rest) (by simp at hf ⊢; omega) (after.follows follows)
  | @lastItem v w h ih =>
    intro depth fuel rest hf
    obtain ⟨fuel, rfl⟩ : ∃ f, fuel = f + 1 := ⟨fuel - 1, by omega⟩
    obtain ⟨r, blank, value⟩ := ih depth fuel (']' :: rest) (by omega) (by rintro c ⟨⟩; decide)
    unfold readItems
    refine value.bind ?_
    dsimp only
    rw [blank.skipTo rfl]
    exact .inl rfl
  | @item v vs w t h more ih ihMore =>
    intro depth fuel rest hf
    obtain ⟨fuel, rfl⟩ : ∃ f, fuel = f + 1 := ⟨fuel - 1, by omega⟩
    rw [List.append_assoc, List.cons_append] at hf ⊢
    obtain ⟨r, blank, value⟩ := ih depth fuel (',' :: (t ++ ']' :: rest)) (by omega)
      (by rintro c ⟨⟩; decide)
    unfold readItems
    refine value.bind ?_
    dsimp only
    rw [blank.skipTo rfl]
    exact (ihMore depth fuel rest (by simp at hf ⊢; omega)).bind (.inl rfl)
  | @member cs body l r w v before key after h ih =>
    intro depth fuel before' rest hf follows
    obtain ⟨r', blank, value⟩ := ih depth fuel rest (by simp at hf ⊢; omega) follows
    rw [List.append_assoc, List.cons_append, List.append_assoc, List.cons_append, List.append_assoc,
      List.cons_append, before.skipTo rfl, readEntries_key key after]
    obtain value | deep := value
    · rw [value, ← blank.skip rest]
      exact .inl rfl
    · exact .inr (deep.bind _)
  | @lastMember key v w h ih =>
    intro depth fuel before rest hf
    obtain ⟨fuel, rfl⟩ : ∃ f, fuel = f + 1 := ⟨fuel - 1, by omega⟩
    obtain read | deep := ih depth fuel before ('\x7d' :: rest) (by omega) (by rintro c ⟨⟩; decide)
    · rw [read, skipSpace_cons rfl]
      exact .inl rfl
    · exact .inr deep
  | @members key v es w t h more ih ihMore =>
    intro depth fuel before rest hf
    obtain ⟨fuel, rfl⟩ : ∃ f, fuel = f + 1 := ⟨fuel - 1, by omega⟩
    rw [List.append_assoc, List.cons_append] at hf ⊢
    obtain read | deep := ih depth fuel before (',' :: (t ++ '\x7d' :: rest)) (by omega)
      (by rintro c ⟨⟩; decide)
    · rw [read, skipSpace_cons rfl]
      exact ihMore depth fuel (Value.setEntry before key v) rest (by simp at hf ⊢; omega)
    · exact .inr deep

/-! ## Nesting -/

/-- How the reader refuses a text that opens more than `n` brackets at once. -/
def Place.Refused : Place → Nat → List Char → Prop
  | .value, n, s => ∀ fuel, 2 * s.length ≤ fuel + 1 → Refuses (readValue n (fuel + 1) s)
  | .element, n, s => ∀ fuel, 2 * s.length ≤ fuel → Refuses (readValue n fuel (skipSpace s))
  | .items, n, s => ∀ fuel, 2 * s.length < fuel → Refuses (readItems n fuel (skipSpace s))
  | .members, n, s => ∀ fuel before, 2 * s.length < fuel → Refuses (readEntries n fuel before (skipSpace s))

/-- A text that opens more than `n` brackets at once is refused for it. -/
theorem Exceeds.refused {p : Place} {n : Nat} {s : List Char} (h : Exceeds p n s) : p.Refused n s := by
  induction h with
  | bracket opens s =>
    intro fuel _
    exact ⟨_, readValue_zero fuel opens s⟩
  | @list n s h ih =>
    intro fuel hf
    obtain ⟨c, cs, head, other⟩ := h.items_head
    rw [readValue_items n fuel head other]
    exact (ih fuel (by simp at hf; omega)).bind _
  | @map n s h ih =>
    intro fuel hf
    obtain ⟨cs, head⟩ := h.members_head
    rw [readValue_members n fuel head]
    exact (ih fuel [] (by simp at hf; omega)).bind _
  | @element n l s before h ih =>
    intro fuel hf
    obtain ⟨c, cs, rfl, opens⟩ := h.head
    obtain ⟨fuel, rfl⟩ : ∃ f, fuel = f + 1 := ⟨fuel - 1, by simp at hf; omega⟩
    rw [before.skipTo (by rcases opens with rfl | rfl <;> rfl)]
    exact ih fuel (by simp at hf ⊢; omega)
  | @item n s h ih =>
    intro fuel hf
    obtain ⟨fuel, rfl⟩ : ∃ f, fuel = f + 1 := ⟨fuel - 1, by omega⟩
    unfold readItems
    exact (ih fuel (by omega)).bind _
  | @laterItem n v w s item h ih =>
    intro fuel hf
    obtain ⟨fuel, rfl⟩ : ∃ f, fuel = f + 1 := ⟨fuel - 1, by omega⟩
    obtain ⟨r, blank, value⟩ := item.taken n fuel (',' :: s) (by omega) (by rintro c ⟨⟩; decide)
    unfold readItems
    refine value.refuses ?_
    dsimp only
    rw [blank.skipTo rfl]
    exact (ih fuel (by simp at hf; omega)).bind _
  | @member n cs body l r s before key after h ih =>
    intro fuel entries hf
    obtain ⟨fuel, rfl⟩ : ∃ f, fuel = f + 1 := ⟨fuel - 1, by omega⟩
    rw [before.skipTo rfl, readEntries_key key after]
    exact (ih fuel (by simp at hf; omega)).bind _
  | @laterMember n key v w s member h ih =>
    intro fuel entries hf
    obtain ⟨fuel, rfl⟩ : ∃ f, fuel = f + 1 := ⟨fuel - 1, by omega⟩
    obtain read | deep := member.taken n fuel entries (',' :: s) (by omega) (by rintro c ⟨⟩; decide)
    · rw [read, skipSpace_cons rfl]
      exact ih fuel _ (by simp at hf; omega)
    · exact deep

/-! ## Documents -/

section
variable {s : List Char} {v : Value}

theorem readDocument_sound (h : readDocument s = .ok v) : Document v s := by
  obtain ⟨⟨v', rest⟩, read, last⟩ := Number.bind_ok h
  obtain ⟨w, split, value⟩ := ((sound _).value _ _).of_ok read
  obtain ⟨l, before, start⟩ := skipSpace_split (s := s) rfl
  obtain ⟨r, after, ends⟩ := skipSpace_split (s := rest) rfl
  dsimp only at last
  split at last
  · rename_i empty
    cases last
    rw [start, split, ends, empty, List.append_nil]
    exact .element before value after
  · cases last

/-- A document is read as its value, unless it nests too deeply. -/
theorem Document.gives (h : Document v s) : Gives v (readDocument s) := by
  cases h with
  | @element _ l w r before h after =>
    obtain ⟨c, cs, rfl, space, -⟩ := h.head
    have start : skipSpace (l ++ (c :: cs ++ r)) = c :: cs ++ r := before.skipTo space _
    have follows : Follows (r ++ []) := after.follows (by simp [Follows])
    rw [List.append_nil] at follows
    -- The reader has fuel for what is left after the white space, so it is the value that is taken here.
    have value := h.taken nestingLimit (2 * (c :: cs ++ r).length + 1) r (by omega) follows
    unfold readDocument
    dsimp only
    rw [start]
    refine value.bind ?_
    have ends : skipSpace r = [] := by
      have all := after.skip []
      rwa [List.append_nil] at all
    dsimp only
    rw [ends]
    exact .inl rfl

theorem Overnested.refuses (h : Overnested s) : Refuses (readDocument s) := by
  cases h with
  | @element _ l s before h =>
    obtain ⟨c, cs, rfl, opens⟩ := h.head
    have space : isSpace c = false := by rcases opens with rfl | rfl <;> rfl
    have refused := h.refused (2 * (c :: cs).length + 1) (by omega)
    unfold readDocument
    dsimp only
    rw [before.skipTo space]
    exact refused.bind _

/-- The nesting is refused of the texts that open more brackets at once than can be read. -/
theorem readDocument_refuses_iff : Refuses (readDocument s) ↔ Overnested s := by
  refine ⟨fun refused => ?_, Overnested.refuses⟩
  obtain ⟨atMap, refused⟩ := refused
  obtain ⟨l, blank, start⟩ := skipSpace_split (s := s) rfl
  unfold readDocument at refused
  dsimp only at refused
  cases read : readValue nestingLimit (2 * (skipSpace s).length + 2) (skipSpace s) with
  | ok found =>
    rw [read] at refused
    simp only [bind, Except.bind] at refused
    split at refused <;> cases refused
  | error stop =>
    rw [read] at refused
    cases refused
    have deep := ((sound _).value _ _).of_tooDeep read
    rw [start]
    exact .element blank deep

/-- The texts that are read are the documents that do not nest too deeply, each as its value. -/
theorem readDocument_iff : readDocument s = .ok v ↔ Document v s ∧ ¬ Overnested s := by
  constructor
  · intro read
    refine ⟨readDocument_sound read, fun deep => ?_⟩
    obtain ⟨atMap, refused⟩ := deep.refuses
    rw [read] at refused
    cases refused
  · rintro ⟨document, shallow⟩
    exact document.gives.resolve_right fun deep => shallow (readDocument_refuses_iff.1 deep)

/-- A byte order mark begins no document. -/
theorem readDocument_mark (rest : List Char) :
    readDocument (Char.ofNat 0xFEFF :: rest) = .error (.fault .value (Char.ofNat 0xFEFF :: rest)) := by
  have value (fuel : Nat) : readValue nestingLimit (fuel + 1) (Char.ofNat 0xFEFF :: rest) =
      .error (.fault .value (Char.ofNat 0xFEFF :: rest)) := by
    unfold readValue
    rfl
  unfold readDocument
  dsimp only
  rw [skipSpace_cons (by decide), value]
  rfl

end

/-! ## Nested lists -/

/-- Lists in one another, `n` of them. -/
def nestedLists (n : Nat) : List Char := List.replicate n '[' ++ List.replicate n ']'

theorem nestedLists_document {n : Nat} (any : 0 < n) : ∃ v, Document v (nestedLists n) := by
  suffices value : ∃ v, Derives (.value v) (nestedLists n) from value.imp fun _ => Derives.unspaced
  induction n, any using Nat.le_induction with
  | base => exact ⟨_, .noItems Blank.nil⟩
  | succ n _ ih =>
    obtain ⟨v, inner⟩ := ih
    have outer : nestedLists (n + 1) = '[' :: (nestedLists n ++ [']']) := by
      unfold nestedLists
      rw [List.replicate_succ, List.replicate_succ', List.cons_append, List.append_assoc]
    rw [outer]
    exact ⟨_, .list (.lastItem inner.unspaced)⟩

/-- One bracket more than may be open at once. -/
theorem exceeds_brackets (n : Nat) (s : List Char) :
    Exceeds .value n (List.replicate (n + 1) '[' ++ s) := by
  induction n with
  | zero => exact .bracket (.inl rfl) s
  | succ n ih => exact .list (.item ih.unspaced)

theorem nestedLists_overnested {n : Nat} (many : nestingLimit < n) :
    Overnested (nestedLists n) := by
  obtain ⟨k, rfl⟩ := Nat.exists_eq_add_of_le many
  unfold nestedLists
  rw [List.replicate_add, List.append_assoc]
  exact (exceeds_brackets _ _).unspaced

end VideoExport.Json
