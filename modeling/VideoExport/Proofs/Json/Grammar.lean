import VideoExport.Proofs.Json.Document

/-!
# The grammar of documents

Which texts are values, items and entries, and what they stand for (`Json.Derives`), and which texts begin
like one and go on to open more brackets at once than a limit allows (`Json.Exceeds`). A document is a value
with white space around it (`Json.Document`).
-/

set_option autoImplicit false

namespace VideoExport.Json

/-! ## Phrases -/

/-- The values that are a single word. -/
def words : List (String × Value) := [("null", .null), ("true", .bool true), ("false", .bool false),
  ("NaN", .number (.real .nan)), ("Infinity", .number (.real (.infinite false))),
  ("-Infinity", .number (.real (.infinite true)))]

/-- What a part of a document can be, with what it means. -/
inductive Phrase where
  | value (v : Value)
  /-- A value with white space around it. -/
  | element (v : Value)
  | items (vs : List Value)
  | member (key : String) (v : Value)
  | members (entries : List (String × Value))

/-- The entries of a map whose members are given in order: a key that comes again changes its entry. -/
def setEntries (before entries : List (String × Value)) : List (String × Value) :=
  entries.foldl (fun es e => Value.setEntry es e.1 e.2) before

/-- The texts of phrases. -/
inductive Derives : Phrase → List Char → Prop
  | word {t : String} {v : Value} (h : (t, v) ∈ words) : Derives (.value v) t.toList
  | text {body cs : List Char} (h : TextBody body cs) :
      Derives (.value (.text (String.ofList cs))) ('"' :: (body ++ ['"']))
  | number {negative : Bool} {body : List Char} {n : Number} (h : NumberBody negative body n) :
      Derives (.value (.number n)) (sign negative ++ body)
  | noItems {w : List Char} (blank : Blank w) : Derives (.value (.list [])) ('[' :: (w ++ [']']))
  | list {vs : List Value} {w : List Char} (h : Derives (.items vs) w) :
      Derives (.value (.list vs)) ('[' :: (w ++ [']']))
  | noMembers {w : List Char} (blank : Blank w) : Derives (.value (.map [])) ('\x7b' :: (w ++ ['\x7d']))
  | map {es : List (String × Value)} {w : List Char} (h : Derives (.members es) w) :
      Derives (.value (.map (setEntries [] es))) ('\x7b' :: (w ++ ['\x7d']))
  | element {v : Value} {l w r : List Char} (before : Blank l) (h : Derives (.value v) w)
      (after : Blank r) : Derives (.element v) (l ++ (w ++ r))
  | lastItem {v : Value} {w : List Char} (h : Derives (.element v) w) : Derives (.items [v]) w
  | item {v : Value} {vs : List Value} {w t : List Char} (h : Derives (.element v) w)
      (rest : Derives (.items vs) t) : Derives (.items (v :: vs)) (w ++ ',' :: t)
  | member {cs body l r w : List Char} {v : Value} (before : Blank l) (key : TextBody body cs)
      (after : Blank r) (h : Derives (.element v) w) :
      Derives (.member (String.ofList cs) v) (l ++ '"' :: (body ++ '"' :: (r ++ ':' :: w)))
  | lastMember {key : String} {v : Value} {w : List Char} (h : Derives (.member key v) w) :
      Derives (.members [(key, v)]) w
  | members {key : String} {v : Value} {es : List (String × Value)} {w t : List Char}
      (h : Derives (.member key v) w) (rest : Derives (.members es) t) :
      Derives (.members ((key, v) :: es)) (w ++ ',' :: t)

/-! ## Nesting -/

/-- What is to come in a document that begins. -/
inductive Place where
  | value
  | element
  | items
  | members

/-- Where `n` more brackets may be open at once, the text opens a further one. What comes before that
bracket is complete but for the brackets that are open there. -/
inductive Exceeds : Place → Nat → List Char → Prop
  | bracket {c : Char} (opens : c = '[' ∨ c = '\x7b') (s : List Char) : Exceeds .value 0 (c :: s)
  | list {n : Nat} {s : List Char} (h : Exceeds .items n s) : Exceeds .value (n + 1) ('[' :: s)
  | map {n : Nat} {s : List Char} (h : Exceeds .members n s) : Exceeds .value (n + 1) ('\x7b' :: s)
  | element {n : Nat} {l s : List Char} (before : Blank l) (h : Exceeds .value n s) :
      Exceeds .element n (l ++ s)
  | item {n : Nat} {s : List Char} (h : Exceeds .element n s) : Exceeds .items n s
  | laterItem {n : Nat} {v : Value} {w s : List Char} (item : Derives (.element v) w)
      (h : Exceeds .items n s) : Exceeds .items n (w ++ ',' :: s)
  | member {n : Nat} {cs body l r s : List Char} (before : Blank l) (key : TextBody body cs)
      (after : Blank r) (h : Exceeds .element n s) :
      Exceeds .members n (l ++ '"' :: (body ++ '"' :: (r ++ ':' :: s)))
  | laterMember {n : Nat} {key : String} {v : Value} {w s : List Char}
      (member : Derives (.member key v) w) (h : Exceeds .members n s) : Exceeds .members n (w ++ ',' :: s)

/-- The text of a document, and its value. -/
def Document (v : Value) (s : List Char) : Prop := Derives (.element v) s

/-- A text that opens more brackets at once than can be read. -/
def Overnested (s : List Char) : Prop := Exceeds .element nestingLimit s

/-! ## White space -/

section
variable {l w : List Char} {v : Value} {vs : List Value} {es : List (String × Value)} {n : Nat}

theorem Derives.unspaced (h : Derives (.value v) w) : Derives (.element v) w := by
  have element := Derives.element Blank.nil h Blank.nil
  rwa [List.nil_append, List.append_nil] at element

theorem Exceeds.unspaced (h : Exceeds .value n w) : Exceeds .element n w := .element Blank.nil h

theorem Derives.blank_element (blank : Blank l) (h : Derives (.element v) w) :
    Derives (.element v) (l ++ w) := by
  cases h with
  | element before h after =>
    rw [← List.append_assoc]
    exact .element (blank.append before) h after

theorem Derives.blank_items (blank : Blank l) (h : Derives (.items vs) w) :
    Derives (.items vs) (l ++ w) := by
  cases h with
  | lastItem h => exact .lastItem (h.blank_element blank)
  | item h rest =>
    rw [← List.append_assoc]
    exact .item (h.blank_element blank) rest

theorem Derives.blank_member {key : String} (blank : Blank l) (h : Derives (.member key v) w) :
    Derives (.member key v) (l ++ w) := by
  cases h with
  | member before key after h =>
    rw [← List.append_assoc]
    exact .member (blank.append before) key after h

theorem Derives.blank_members (blank : Blank l) (h : Derives (.members es) w) :
    Derives (.members es) (l ++ w) := by
  cases h with
  | lastMember h => exact .lastMember (h.blank_member blank)
  | members h rest =>
    rw [← List.append_assoc]
    exact .members (h.blank_member blank) rest

theorem Exceeds.blank_element (blank : Blank l) (h : Exceeds .element n w) :
    Exceeds .element n (l ++ w) := by
  cases h with
  | element before h =>
    rw [← List.append_assoc]
    exact .element (blank.append before) h

theorem Exceeds.blank_items (blank : Blank l) (h : Exceeds .items n w) : Exceeds .items n (l ++ w) := by
  cases h with
  | item h => exact .item (h.blank_element blank)
  | laterItem item h =>
    rw [← List.append_assoc]
    exact .laterItem (item.blank_element blank) h

theorem Exceeds.blank_members (blank : Blank l) (h : Exceeds .members n w) :
    Exceeds .members n (l ++ w) := by
  cases h with
  | member before key after h =>
    rw [← List.append_assoc]
    exact .member (blank.append before) key after h
  | laterMember member h =>
    rw [← List.append_assoc]
    exact .laterMember (member.blank_member blank) h

/-! ## First characters -/

theorem word_head {t : String} (h : (t, v) ∈ words) :
    ∃ c cs, t.toList = c :: cs ∧ isSpace c = false ∧ c ≠ ']' := by
  unfold words at h
  simp only [List.mem_cons, Prod.mk.injEq, List.not_mem_nil, or_false] at h
  rcases h with ⟨rfl, -⟩ | ⟨rfl, -⟩ | ⟨rfl, -⟩ | ⟨rfl, -⟩ | ⟨rfl, -⟩ | ⟨rfl, -⟩ <;>
    exact ⟨_, _, rfl, rfl, by decide⟩

/-- A value starts with neither white space nor a closing bracket. -/
theorem Derives.head (h : Derives (.value v) w) : ∃ c cs, w = c :: cs ∧ isSpace c = false ∧ c ≠ ']' := by
  cases h with
  | word mem => exact word_head mem
  | @number negative body n h =>
    obtain ⟨c, cs, rfl, digit⟩ := h.spells.head
    cases negative with
    | false => exact ⟨c, cs, rfl, isSpace_digit digit, digit_ne digit rfl⟩
    | true => exact ⟨'-', c :: cs, rfl, rfl, by decide⟩
  | text | noItems | list | noMembers | map => exact ⟨_, _, rfl, rfl, by decide⟩

theorem Derives.element_head (h : Derives (.element v) w) (rest : List Char) :
    ∃ c cs, skipSpace (w ++ rest) = c :: cs ∧ c ≠ ']' := by
  cases h with
  | @element _ l w r before h after =>
    obtain ⟨c, cs, rfl, space, other⟩ := h.head
    refine ⟨c, cs ++ (r ++ rest), ?_, other⟩
    rw [List.append_assoc, List.append_assoc]
    exact before.skipTo space _

theorem Derives.items_head (h : Derives (.items vs) w) (rest : List Char) :
    ∃ c cs, skipSpace (w ++ rest) = c :: cs ∧ c ≠ ']' := by
  cases h with
  | lastItem h => exact h.element_head rest
  | item h more =>
    rw [List.append_assoc]
    exact h.element_head _

theorem Derives.member_head {key : String} (h : Derives (.member key v) w) (rest : List Char) :
    ∃ cs, skipSpace (w ++ rest) = '"' :: cs := by
  cases h with
  | member before key after h =>
    rw [List.append_assoc]
    exact ⟨_, before.skipTo rfl _⟩

theorem Derives.members_head (h : Derives (.members es) w) (rest : List Char) :
    ∃ cs, skipSpace (w ++ rest) = '"' :: cs := by
  cases h with
  | lastMember h => exact h.member_head rest
  | members h more =>
    rw [List.append_assoc]
    exact h.member_head _

theorem Exceeds.head (h : Exceeds .value n w) : ∃ c cs, w = c :: cs ∧ (c = '[' ∨ c = '\x7b') := by
  cases h with
  | bracket opens s => exact ⟨_, s, rfl, opens⟩
  | list h => exact ⟨_, _, rfl, .inl rfl⟩
  | map h => exact ⟨_, _, rfl, .inr rfl⟩

theorem Exceeds.element_head (h : Exceeds .element n w) :
    ∃ c cs, skipSpace w = c :: cs ∧ (c = '[' ∨ c = '\x7b') := by
  cases h with
  | element before h =>
    obtain ⟨c, cs, rfl, opens⟩ := h.head
    exact ⟨c, cs, before.skipTo (by rcases opens with rfl | rfl <;> rfl) cs, opens⟩

theorem Exceeds.items_head (h : Exceeds .items n w) : ∃ c cs, skipSpace w = c :: cs ∧ c ≠ ']' := by
  cases h with
  | item h =>
    obtain ⟨c, cs, first, opens⟩ := h.element_head
    exact ⟨c, cs, first, by rcases opens with rfl | rfl <;> decide⟩
  | laterItem item h => exact item.element_head _

theorem Exceeds.members_head (h : Exceeds .members n w) : ∃ cs, skipSpace w = '"' :: cs := by
  cases h with
  | member before key after h => exact ⟨_, before.skipTo rfl _⟩
  | laterMember member h => exact member.member_head _

end

end VideoExport.Json
