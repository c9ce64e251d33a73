import VideoExport.Engine.Memory
import VideoExport.Proofs.Fonts

/-!
# Calls of a font loader

A loader is called to see to fonts, in worlds that may have changed in any way since the call before, and to
forget the font that it remembers: `Called e l calls l'`. What it remembers changes only if a font is
written, or is forgotten. So a font that could not be loaded is tried again when the loader is called with it
next, and while the fonts that are there have one key, no more than one is written (`fonts_retried`).
-/

set_option autoImplicit false

namespace VideoExport.FontLoader

variable {σ : Type} {e : Engine σ}

/-! ## Calls -/

/-- A call that saw to a font: the world in which it did, the loader before it, what it asked of the engine,
whether the font was there then, and the loader after it. -/
structure Visit (σ : Type) where
  font : Option MediaFile
  world : World (Recorded σ)
  had : FontLoader
  steps : List (EngineStep σ)
  present : Bool
  has : FontLoader

/-- A call of a loader. -/
inductive Call (σ : Type) where
  | visit (v : Visit σ)
  | forget

/-- The font has the key when it is seen to. -/
def Visit.Key (v : Visit σ) (k : String) : Prop := HasKey v.world.host v.font k

/-- The font has the content when it is seen to. -/
def Visit.Content (v : Visit σ) (content : ByteArray) : Prop :=
  HasContent v.world.host v.had v.font content

/-- The font is written. -/
def Visit.Wrote (v : Visit σ) : Prop := ∃ c ∈ v.steps, c.result = .returned ()

/-- The calls lead from one loader to another. -/
inductive Called (e : Engine σ) : FontLoader → List (Call σ) → FontLoader → Prop
  | nil (l : FontLoader) : Called e l [] l
  | visit {l l' last : FontLoader} {font : Option MediaFile} {w w' : World (Recorded σ)}
    {new : List (EngineStep σ)} {present : Bool} {calls : List (Call σ)}
    (ran : (ensure e.recorded l font).run w = (.returned (present, l'), w'))
    (steps : w'.engine.steps = w.engine.steps ++ new) (later : Called e l' calls last) :
    Called e l (.visit ⟨font, w, l, new, present, l'⟩ :: calls) last
  | forget {l last : FontLoader} {calls : List (Call σ)} (later : Called e l.forget calls last) :
    Called e l (.forget :: calls) last

/-- What a visit did. -/
def Visit.Turned (v : Visit σ) : Prop := Turn v.world v.had v.font v.steps v.present v.has

namespace Called

variable {l last : FontLoader} {calls rest : List (Call σ)} {v : Visit σ} {k : String}

theorem of_visit (h : Called e l (.visit v :: rest) last) :
    v.had = l ∧ v.Turned ∧ Called e v.has rest last := by
  cases h with
  | visit ran steps later =>
    obtain ⟨present, l', new, same, span, turn⟩ := ensure_turn (S := .any) ran nofun
    cases same
    cases span.unique steps
    exact ⟨rfl, turn, later⟩

theorem split : ∀ {calls : List (Call σ)} {l : FontLoader}, Called e l (calls ++ rest) last →
    ∃ m, Called e l calls m ∧ Called e m rest last
  | [], l, h => ⟨l, .nil l, h⟩
  | _ :: _, _, .visit ran steps later => by
    obtain ⟨m, first, then'⟩ := split later
    exact ⟨m, .visit ran steps first, then'⟩
  | _ :: _, _, .forget later => by
    obtain ⟨m, first, then'⟩ := split later
    exact ⟨m, .forget first, then'⟩

theorem turned (h : Called e l calls last) (mem : .visit v ∈ calls) : v.Turned := by
  obtain ⟨before, after, rfl⟩ := List.append_of_mem mem
  obtain ⟨m, -, h⟩ := h.split
  exact h.of_visit.2.1

end Called

/-! ## One call -/

theorem HasKey.unique {h : Host} {font : Option MediaFile} {k k' : String} (key : HasKey h font k)
    (key' : HasKey h font k') : k = k' :=
  Outcome.returned.inj (key.symm.trans key')

theorem HasContent.unique {h : Host} {l : FontLoader} {font : Option MediaFile} {c c' : ByteArray}
    (content : HasContent h l font c) (content' : HasContent h l font c') : c = c' :=
  Outcome.returned.inj (content.symm.trans content')

namespace Visit.Turned

variable {v : Visit σ} {k : String}

/-- At most one write is asked of the engine, of the entry of the font. -/
theorem asks (h : v.Turned) : v.steps.length ≤ 1 ∧
    ∀ c ∈ v.steps, ∃ content, v.Content content ∧ c.act = .write fontEntry content := by
  obtain ⟨font, w, had, steps, present, has⟩ := v
  change Turn w had font steps present has at h
  cases h with
  | remembered | unread => exact ⟨Nat.zero_le _, fun _ mem => absurd mem List.not_mem_nil⟩
  | refused _ _ read act _ | written _ _ read act _ =>
    exact ⟨Nat.le_refl _, fun c mem => ⟨_, read, List.mem_singleton.1 mem ▸ act⟩⟩

theorem present_iff (h : v.Turned) :
    v.present = true ↔ (∃ k, v.Key k ∧ v.had.loaded = some k) ∨ v.Wrote := by
  obtain ⟨font, w, had, steps, present, has⟩ := v
  change Turn w had font steps present has at h
  cases h with
  | remembered key loaded => exact iff_of_true rfl (.inl ⟨_, key, loaded⟩)
  | unread unread =>
    refine iff_of_false nofun ?_
    rintro (⟨k, key, loaded⟩ | ⟨c, mem, -⟩)
    · exact (unread k key).1 loaded
    · exact absurd mem List.not_mem_nil
  | refused key fresh _ _ result =>
    refine iff_of_false nofun ?_
    rintro (⟨k', key', loaded⟩ | ⟨c, mem, written⟩)
    · exact fresh (key.unique key' ▸ loaded)
    · exact result (List.mem_singleton.1 mem ▸ written)
  | written _ _ _ _ result => exact iff_of_true rfl (.inr ⟨_, .head _, result⟩)

/-- What the loader remembers changes if the font is written, and only then. -/
theorem remembers (h : v.Turned) :
    (v.Wrote → ∃ k, v.Key k ∧ v.had.loaded ≠ some k ∧ v.has = { v.had with loaded := some k }) ∧
      (¬ v.Wrote → v.has = v.had) := by
  obtain ⟨font, w, had, steps, present, has⟩ := v
  change Turn w had font steps present has at h
  cases h with
  | remembered | unread => exact ⟨fun ⟨_, mem, _⟩ => absurd mem List.not_mem_nil, fun _ => rfl⟩
  | refused _ _ _ _ result =>
    exact ⟨fun ⟨_, mem, written⟩ => absurd (List.mem_singleton.1 mem ▸ written) result, fun _ => rfl⟩
  | written key fresh _ _ result =>
    exact ⟨fun _ => ⟨_, key, fresh, rfl⟩, fun refused => absurd ⟨_, .head _, result⟩ refused⟩

/-- A font that is not remembered is tried. -/
theorem tries (h : v.Turned) (key : v.Key k) (fresh : v.had.loaded ≠ some k) {content : ByteArray}
    (read : v.Content content) : ∃ c, v.steps = [c] ∧ c.act = .write fontEntry content := by
  obtain ⟨font, w, had, steps, present, has⟩ := v
  change Turn w had font steps present has at h
  cases h with
  | remembered key' loaded => exact absurd (HasKey.unique key' key ▸ loaded) fresh
  | unread unread => exact absurd read ((unread k key).2 content)
  | refused _ _ read' act _ | written _ _ read' act _ =>
    exact ⟨_, rfl, HasContent.unique read' read ▸ act⟩

/-- The key of a font that is missing is not remembered. -/
theorem failed (h : v.Turned) (key : v.Key k) (absent : v.present = false) :
    v.has.loaded ≠ some k := by
  have missing := mt h.present_iff.2 (by simp [absent])
  rw [h.remembers.2 fun wrote => missing (.inr wrote)]
  exact fun loaded => missing (.inl ⟨k, key, loaded⟩)

/-- A font with another key leaves it at that that a key is not remembered. -/
theorem loaded_ne_of_other (h : v.Turned) (other : ¬ v.Key k) (fresh : v.had.loaded ≠ some k) :
    v.has.loaded ≠ some k := by
  by_cases wrote : v.Wrote
  · obtain ⟨k', key', -, has⟩ := h.remembers.1 wrote
    rw [has]
    rintro ⟨⟩
    exact other key'
  · rwa [h.remembers.2 wrote]

end Visit.Turned

/-! ## Calls one after the other -/

/-- The call writes a font. -/
def Call.Wrote : Call σ → Prop
  | .visit v => v.Wrote
  | .forget => False

/-- Nothing is forgotten in the calls, and the fonts that are there have the key. -/
structure Steady (calls : List (Call σ)) (k : String) : Prop where
  kept : .forget ∉ calls
  key : ∀ v, .visit v ∈ calls → v.present = true → v.Key k

namespace Called

variable {l last : FontLoader} {calls : List (Call σ)} {k : String}

/-- As long as no font with the key is seen to, the key is not remembered. -/
theorem loaded_ne (h : Called e l calls last) (others : ∀ v, .visit v ∈ calls → ¬ v.Key k)
    (fresh : l.loaded ≠ some k) : last.loaded ≠ some k := by
  induction calls generalizing l with
  | nil =>
    cases h
    exact fresh
  | cons call calls ih =>
    cases call with
    | visit v =>
      obtain ⟨rfl, turned, later⟩ := h.of_visit
      exact ih later (fun v mem => others v (.tail _ mem))
        (turned.loaded_ne_of_other (others v (.head _)) fresh)
    | forget =>
      cases h with
      | forget later => exact ih later (fun v mem => others v (.tail _ mem)) nofun

/-- Where no font is seen to, the loader stays as it is, or it was made to forget. -/
theorem of_no_visit (h : Called e l calls last) (unseen : ∀ v, .visit v ∉ calls) :
    last = if calls = [] then l else { l with loaded := none } := by
  induction calls generalizing l with
  | nil =>
    cases h
    rfl
  | cons call calls ih =>
    cases call with
    | visit v => exact absurd (.head _) (unseen v)
    | forget =>
      cases h with
      | forget later =>
        rw [ih later fun v mem => unseen v (.tail _ mem), if_neg (List.cons_ne_nil _ _)]
        split <;> rfl

/-- While the key that is remembered is that of the fonts that are there, nothing is written. -/
theorem not_wrote (h : Called e l calls last) (steady : Steady calls k) (loaded : l.loaded = some k) :
    ∀ call ∈ calls, ¬ call.Wrote := by
  induction calls generalizing l with
  | nil => exact fun _ mem => absurd mem List.not_mem_nil
  | cons call calls ih =>
    cases call with
    | visit v =>
      obtain ⟨rfl, turned, later⟩ := h.of_visit
      have quiet : ¬ v.Wrote := by
        intro wrote
        obtain ⟨k', key', fresh, -⟩ := turned.remembers.1 wrote
        have key := steady.key v (.head _) (turned.present_iff.2 (.inr wrote))
        exact fresh (HasKey.unique key key' ▸ loaded)
      have rest := ih later ⟨fun mem => steady.kept (.tail _ mem), fun v mem => steady.key v (.tail _ mem)⟩
        (by rw [turned.remembers.2 quiet, loaded])
      exact List.forall_mem_cons.2 ⟨quiet, rest⟩
    | forget => exact absurd (.head _) steady.kept

theorem pairwise_wrote (h : Called e l calls last) (steady : Steady calls k) :
    calls.Pairwise fun call call' => ¬ (call.Wrote ∧ call'.Wrote) := by
  induction calls generalizing l with
  | nil => exact .nil
  | cons call calls ih =>
    cases call with
    | visit v =>
      obtain ⟨rfl, turned, later⟩ := h.of_visit
      have rest : Steady calls k :=
        ⟨fun mem => steady.kept (.tail _ mem), fun v mem => steady.key v (.tail _ mem)⟩
      refine .cons (fun call mem both => ?_) (ih later rest)
      obtain ⟨k', key', -, has⟩ := turned.remembers.1 both.1
      have key := steady.key v (.head _) (turned.present_iff.2 (.inr both.1))
      have loaded : v.has.loaded = some k := by rw [has, HasKey.unique key key']
      exact later.not_wrote rest loaded call mem both.2
    | forget => exact absurd (.head _) steady.kept

end Called

/-- Seeing to a font never raises a failure, and ends if the engine's writes do.

Over any calls of a loader: a call tells that the font is there if and only if its key is remembered or it
was written, and the engine is asked for one write at most, of the entry to which text that is drawn refers.
The key of the font is remembered if it was written. Else what is remembered does not change, neither in a
call nor between two, unless it is forgotten there. So a font that could not be loaded is tried again by the
next call for its key, and while nothing is forgotten and the fonts that are there have one key, no more than
one is written. -/
theorem fonts_retried {l last : FontLoader} {calls : List (Call σ)} (h : Called e l calls last) :
    (∀ (l : FontLoader) (font : Option MediaFile) (w : World (Recorded σ)),
      (∀ f, ((ensure e.recorded l font).run w).1 ≠ .raised f) ∧
      ((∀ content, (e.recorded.write fontEntry content).Responds) →
        ∃ present l', ((ensure e.recorded l font).run w).1 = .returned (present, l'))) ∧
    (∀ v, .visit v ∈ calls →
      (v.present = true ↔ (∃ k, v.Key k ∧ v.had.loaded = some k) ∨ v.Wrote) ∧
      (v.Wrote → ∃ k, v.Key k ∧ v.has = { v.had with loaded := some k }) ∧
      (¬ v.Wrote → v.has = v.had) ∧
      v.steps.length ≤ 1 ∧
      ∀ c ∈ v.steps, ∃ content, v.Content content ∧ c.act = .write fontEntry content) ∧
    (∀ before v between v' after, calls = before ++ .visit v :: between ++ .visit v' :: after →
      (∀ u, .visit u ∉ between) →
        v'.had = if between = [] then v.has else { v.has with loaded := none }) ∧
    (∀ before v between v' after k, calls = before ++ .visit v :: between ++ .visit v' :: after →
      v.Key k → v.present = false → (∀ u, .visit u ∈ between → ¬ u.Key k) → v'.Key k →
        v'.had.loaded ≠ some k ∧
        ∀ content, v'.Content content → ∃ c, v'.steps = [c] ∧ c.act = .write fontEntry content) ∧
    (∀ before stretch after k, calls = before ++ stretch ++ after → Steady stretch k →
      stretch.Pairwise fun call call' => ¬ (call.Wrote ∧ call'.Wrote)) ∧
    ∀ d : Drawtext, d.options.lookup "fontfile" = some fontEntry := by
  refine ⟨fun l font w => ⟨fun f raised => ?_, fun writes => ?_⟩, fun v mem => ?_, ?_, ?_, ?_,
    fun d => rfl⟩
  · have ran : (ensure e.recorded l font).run w = (.raised f, _) := Prod.ext raised rfl
    obtain ⟨_, _, _, ⟨⟩, -⟩ := ensure_turn (S := .any) ran nofun
  · obtain ⟨present, l', _, returned, -⟩ :=
      ensure_turn (S := .any) (Prod.ext rfl rfl) (responds_ensure l font writes w)
    exact ⟨present, l', returned⟩
  · have turned := h.turned mem
    obtain ⟨written, kept⟩ := turned.remembers
    obtain ⟨once, entry⟩ := turned.asks
    refine ⟨turned.present_iff, fun wrote => ?_, kept, once, entry⟩
    obtain ⟨k, key, -, has⟩ := written wrote
    exact ⟨k, key, has⟩
  · rintro before v between v' after rfl unseen
    obtain ⟨m, first, rest⟩ := h.split
    obtain ⟨_, -, first⟩ := first.split
    obtain ⟨-, -, between⟩ := first.of_visit
    obtain ⟨rfl, -, -⟩ := rest.of_visit
    exact between.of_no_visit unseen
  · rintro before v between v' after k rfl key failed others key'
    obtain ⟨m, first, rest⟩ := h.split
    obtain ⟨_, -, first⟩ := first.split
    obtain ⟨-, turned, between⟩ := first.of_visit
    obtain ⟨rfl, turned', -⟩ := rest.of_visit
    have fresh := between.loaded_ne others (turned.failed key failed)
    exact ⟨fresh, fun content read => turned'.tries key' fresh read⟩
  · rintro before stretch after k rfl steady
    obtain ⟨m, first, -⟩ := h.split
    obtain ⟨_, -, stretch⟩ := first.split
    exact stretch.pairwise_wrote steady

/-! ## An engine that refuses the first font -/

/-- A loader of the font in a file. -/
def fileLoader : FontLoader := { path := some "font.ttf" }

/-- A host with the file. -/
def fontHost : Host := ((Host.writeFile "font.ttf" ⟨#[1]⟩).run {}).2

/-- An engine that refuses all writes, and one that does not. -/
def refusing : World (Recorded MemoryEngine) := ⟨fontHost, ⟨{ writeFaults := [⟨"", .notLoaded⟩] }, []⟩⟩

def accepting : World (Recorded MemoryEngine) := ⟨fontHost, ⟨{}, []⟩⟩

/-- What a visit of the default font does in a world. -/
def visitIn (w : World (Recorded MemoryEngine)) (l : FontLoader) : Visit MemoryEngine :=
  let ran := (ensure MemoryEngine.engine.recorded l none).run w
  { font := none, world := w, had := l, steps := ran.2.engine.steps
    present := match ran.1 with | .returned (present, _) => present | _ => false
    has := match ran.1 with | .returned (_, l') => l' | _ => l }

/-- The font is refused, then written, and then remembered. -/
theorem font_written_once :
    ∃ v v' u : Visit MemoryEngine, ∃ last,
      Called MemoryEngine.engine fileLoader [.visit v, .visit v', .visit u] last ∧
      v.Key defaultFontKey ∧ v.present = false ∧
      (∃ c, v'.steps = [c] ∧ c.act = .write fontEntry ⟨#[1]⟩) ∧
      v'.Wrote ∧ u.present = true ∧ ¬ u.Wrote := by
  have called : Called MemoryEngine.engine fileLoader
      [.visit (visitIn refusing fileLoader), .visit (visitIn accepting fileLoader),
        .visit (visitIn accepting { fileLoader with loaded := some defaultFontKey })]
      { fileLoader with loaded := some defaultFontKey } :=
    .visit rfl rfl (.visit rfl rfl (.visit rfl rfl (.nil _)))
  have wrote : (visitIn accepting fileLoader).Wrote := ⟨_, .head _, rfl⟩
  obtain ⟨-, -, -, retried, once, -⟩ := fonts_retried called
  have failed : (visitIn refusing fileLoader).present = false := rfl
  have key : (visitIn refusing fileLoader).Key defaultFontKey := rfl
  have key' : (visitIn accepting fileLoader).Key defaultFontKey := rfl
  have read : (visitIn accepting fileLoader).Content ⟨#[1]⟩ := rfl
  have present : (visitIn accepting { fileLoader with loaded := some defaultFontKey }).present = true := rfl
  refine ⟨_, _, _, _, called, key, failed, ?_, wrote, present, fun again => ?_⟩
  · obtain ⟨-, tried⟩ := retried [] _ [] _ _ _ rfl key failed
      (fun _ mem => absurd mem List.not_mem_nil) key'
    exact tried _ read
  · have steady : Steady [Call.visit (visitIn refusing fileLoader), .visit (visitIn accepting fileLoader),
        .visit (visitIn accepting { fileLoader with loaded := some defaultFontKey })] defaultFontKey := by
      refine ⟨by simp, fun v mem _ => ?_⟩
      simp only [List.mem_cons, List.not_mem_nil, or_false, Call.visit.injEq] at mem
      rcases mem with rfl | rfl | rfl <;> rfl
    have pairs := once [] _ [] _ rfl steady
    simp only [List.pairwise_cons] at pairs
    exact pairs.2.1 _ (.head _) ⟨wrote, again⟩

end VideoExport.FontLoader
