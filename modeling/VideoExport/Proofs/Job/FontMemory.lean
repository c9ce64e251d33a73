import VideoExport.Proofs.Engine.Storage
import VideoExport.Proofs.Job.Anatomy

/-!
# The font that is remembered

A runner remembers the key of the font in working storage. `FontSince v k since w`: a font with the
key `k` was put there, and the record has gone on by the steps `since`, none of which put another one
there; the entry is still present if none of them is a reset, and absent if a reset was the last to
concern it. `Coherent v lost j`: so it is for the key that is remembered, and unless something got
lost, an engine that is not about to be reset has not been reset since. Every run keeps this
(`Coherent.run`), and a job that finds its font is one whose key is remembered (`Coherent.ensureFont`).
-/

set_option autoImplicit false

namespace VideoExport

variable {σ κ : Type}

/-! ## Steps -/

/-- The step puts a font into working storage. -/
def EngineStep.PutsFont (c : EngineStep σ) : Prop :=
  (∃ content, c.act = .write fontEntry content) ∧ c.result = .returned ()

/-- The step may be a reset or fail at putting a font into working storage, and does not touch the
font otherwise. -/
def EngineStep.SparesFont (c : EngineStep σ) : Prop :=
  c.act.Touches fontEntry → c.act = .reset ∨
    (∃ content, c.act = .write fontEntry content) ∧ c.result ≠ .returned ()

theorem EngineStep.SparesFont.not_puts {c : EngineStep σ} (h : c.SparesFont) : ¬ c.PutsFont := by
  rintro ⟨⟨content, hact⟩, hres⟩
  have touches : c.act.Touches fontEntry := by rw [hact]; rfl
  rcases h touches with hreset | ⟨-, failed⟩
  · cases hact.symm.trans hreset
  · exact failed hres

/-- The last of the steps to touch the font is a reset that returned. -/
def FontDropped (steps : List (EngineStep σ)) : Prop :=
  ∃ a c b, steps = a ++ c :: b ∧ c.act = .reset ∧ c.result = .returned () ∧
    ∀ d ∈ b, ¬ d.act.Touches fontEntry

theorem fontDropped_nil : ¬ FontDropped ([] : List (EngineStep σ)) := by
  rintro ⟨a, c, b, h, -⟩
  cases a <;> cases h

theorem fontDropped_append {a b : List (EngineStep σ)} (h : FontDropped (a ++ b)) :
    FontDropped b ∨ FontDropped a ∧ ∀ d ∈ b, ¬ d.act.Touches fontEntry := by
  obtain ⟨x, c, y, h, hact, hres, hy⟩ := h
  rcases List.append_eq_append_iff.1 h with ⟨t, rfl, rfl⟩ | ⟨t, rfl, ht⟩
  · exact .inl ⟨t, c, y, rfl, hact, hres, hy⟩
  · cases t with
    | nil => exact .inl ⟨[], c, y, ht.symm, hact, hres, hy⟩
    | cons d t =>
      obtain ⟨rfl, rfl⟩ := List.cons.inj ht
      refine .inr ⟨⟨x, c, t, rfl, hact, hres, fun d hd => ?_⟩, fun d hd => ?_⟩
      · exact hy d (List.mem_append_left _ hd)
      · exact hy d (List.mem_append_right _ hd)

/-! ## The font in working storage -/

/-- A font with the key was put into working storage, and the record has gone on by steps that put no
other one there. -/
structure FontSince {e : Engine σ} (v : StorageView e) (k : String) (since : List (EngineStep σ))
    (w : World (Recorded σ)) : Prop where
  provided : ∃ t u, FontLoader.Provides e k t u ∧ w.engine.steps = u.engine.steps ++ since
  spared : ∀ c ∈ since, c.SparesFont
  present : (∀ c ∈ since, c.act ≠ .reset) → v.entry w.bare fontEntry ≠ none
  absent : FontDropped since → v.entry w.bare fontEntry = none

namespace FontSince

variable {e : Engine σ} {v : StorageView e} {k : String} {since new : List (EngineStep σ)}
  {w w' : World (Recorded σ)}

/-- A font that was just written is there. -/
theorem of_written (durable : v.Durable) (provided : FontLoader.Provides e k w w')
    {c : EngineStep σ} {content : ByteArray} (act : c.act = .write fontEntry content)
    (result : c.result = .returned ()) (span : Span e v.spares w [c] w') :
    FontSince v k [] w' where
  provided := ⟨w, w', provided, (List.append_nil _).symm⟩
  spared _ hc := absurd hc List.not_mem_nil
  present _ := by
    obtain ⟨-, linked⟩ := span
    cases linked with
    | cons _ _ made rest =>
      rw [StorageView.entry_of_linked rest fun _ hd => absurd hd List.not_mem_nil,
        durable.written made act result]
      exact nofun
  absent h := absurd h fontDropped_nil

/-- Steps that spare the font go on with it. -/
theorem extend (durable : v.Durable) (h : FontSince v k since w)
    (span : Span e v.spares w new w') (spared : ∀ c ∈ new, c.SparesFont) :
    FontSince v k (since ++ new) w' where
  provided := by
    obtain ⟨t, u, provided, hs⟩ := h.provided
    exact ⟨t, u, provided, by rw [span.steps, hs, List.append_assoc]⟩
  spared c hc := (List.mem_append.1 hc).elim (h.spared c) (spared c)
  present unreset := by
    have before := h.present fun c hc => unreset c (List.mem_append_left _ hc)
    refine StorageView.entry_invariant (P := (· ≠ none)) span.linked (fun c hc made present => ?_)
      before
    by_cases touches : c.act.Touches fontEntry
    · rcases spared c hc touches with hreset | ⟨⟨content, hact⟩, -⟩
      · exact absurd hreset (unreset c (List.mem_append_right _ hc))
      · exact durable.kept made hact present
    · rw [v.frame made touches]
      exact present
  absent dropped := by
    rcases fontDropped_append dropped with ⟨a, c, b, rfl, hact, hres, hb⟩ | ⟨dropped, untouched⟩
    · obtain ⟨u, -, linked⟩ := span.linked.split
      cases linked with
      | cons _ _ made rest =>
        rw [StorageView.entry_of_linked rest hb]
        exact durable.emptied made hact hres
    · rw [StorageView.entry_of_linked span.linked untouched]
      exact h.absent dropped

end FontSince

namespace Job

/-! ## The font that a runner remembers -/

/-- The font whose key is remembered was put into working storage. Unless something got lost, an
engine that is not to be reset has not been reset since. -/
def Coherent {e : Engine σ} (v : StorageView e) (lost : Prop) (j : Job (Recorded σ) κ) : Prop :=
  ∀ k, j.runner.fonts.loaded = some k → ∃ since, FontSince v k since j.toWorld ∧
    (¬ lost → j.runner.trusted = true ∨ j.runner.config.renewEngine = false →
      ∀ c ∈ since, c.act ≠ .reset)

variable {e : Engine σ} {v : StorageView e} {lost : Prop} {probe : DurationProbe κ}
  {r : JobRequest} {s : Settings} {listener : Option (ProgressListener κ)}
  {j k : Job (Recorded σ) κ}

namespace Coherent

theorem mono {lost' : Prop} (h : Coherent v lost j) (hl : lost → lost') : Coherent v lost' j := by
  intro key loaded
  obtain ⟨since, hs, unreset⟩ := h key loaded
  exact ⟨since, hs, fun kept => unreset fun gone => kept (hl gone)⟩

/-- A reset loses the font unless the engine is to be reset once more. -/
theorem extend (durable : v.Durable) (h : Coherent v lost j) {new : List (EngineStep σ)}
    (span : Span e v.spares j.toWorld new k.toWorld) (spared : ∀ c ∈ new, c.SparesFont)
    (fonts : k.runner.fonts = j.runner.fonts)
    (guard : ¬ lost → k.runner.trusted = true ∨ k.runner.config.renewEngine = false →
      (j.runner.trusted = true ∨ j.runner.config.renewEngine = false) ∧ ∀ c ∈ new, c.act ≠ .reset) :
    Coherent v lost k := by
  intro key loaded
  rw [fonts] at loaded
  obtain ⟨since, hs, unreset⟩ := h key loaded
  refine ⟨since ++ new, hs.extend durable span spared, fun hl ready c hc => ?_⟩
  obtain ⟨ready', unreset'⟩ := guard hl ready
  rcases List.mem_append.1 hc with hc | hc
  · exact unreset hl ready' c hc
  · exact unreset' c hc

/-- Steps that do not touch the font keep what is known of it. -/
theorem untouched (durable : v.Durable) (h : Coherent v lost j) {new : List (EngineStep σ)}
    (span : Span e v.spares j.toWorld new k.toWorld)
    (away : ∀ c ∈ new, ¬ c.act.Touches fontEntry)
    (config : k.runner.config = j.runner.config) (fonts : k.runner.fonts = j.runner.fonts)
    (trusted : k.runner.trusted = true → j.runner.trusted = true) : Coherent v lost k := by
  refine h.extend durable span (fun c hc touches => absurd touches (away c hc)) fonts
    fun _ ready => ⟨?_, fun c hc reset => ?_⟩
  · rw [config] at ready
    exact ready.imp_left trusted
  · exact away c hc (by rw [reset]; trivial)

theorem calm (durable : v.Durable) (h : Coherent v lost j) (calm : Calm v.spares j k) :
    Coherent v lost k := by
  refine h.untouched durable calm.span (fun _ hc => absurd hc List.not_mem_nil) calm.config
    calm.fonts fun trusted => ?_
  rw [← calm.trusted]
  exact trusted

theorem renew (durable : v.Durable) (h : Coherent v lost j) {o : Outcome Unit}
    (ran : (renew e.recorded).run j = (o, k)) :
    Coherent v lost k ∧ k.runner.config = j.runner.config ∧
      (o = .returned () → k.runner.trusted = true ∨ k.runner.config.renewEngine = false) := by
  rcases renew_cases (S := v.spares) ran with
    ⟨-, rfl, kept⟩ | ⟨untrusted, renewing, c, reset, -, span, returned, failed⟩
  · exact ⟨h, rfl, fun _ => kept⟩
  · by_cases ho : o = .returned ()
    · have runner := returned ho
      refine ⟨fun key loaded => ?_, by rw [runner], fun _ => .inl (by rw [runner])⟩
      rw [runner] at loaded
      cases loaded
    · have runner := failed ho
      refine ⟨h.extend durable span ?_ (by rw [runner]) fun _ ready => ?_, by rw [runner],
        fun h => absurd h ho⟩
      · intro d hd _
        rw [List.mem_singleton.1 hd]
        exact .inl reset
      · rw [runner, untrusted, renewing] at ready
        exact absurd ready (by decide)

theorem ensureLoaded (durable : v.Durable) (h : Coherent v lost j) {o : Outcome Unit}
    (ran : (ensureLoaded e.recorded).run j = (o, k)) (ends : o ≠ .stalled) :
    Coherent v lost k ∧ k.runner.config = j.runner.config ∧
      (o = .returned () → k.runner = j.runner) := by
  rcases ensureLoaded_cases (S := v.spares) ran with
    ⟨-, -, rfl⟩ | ⟨-, c, load, span, -, returned, failed⟩
  · exact ⟨h, rfl, fun _ => rfl⟩
  · have away : ∀ d ∈ [c], ¬ d.act.Touches fontEntry := by
      intro d hd
      rw [List.mem_singleton.1 hd, load]
      exact id
    match o, ends with
    | .returned (), _ =>
      have runner := returned rfl
      refine ⟨h.untouched durable span away ?_ ?_ ?_, ?_, fun _ => runner⟩ <;> rw [runner]
      exact id
    | .raised f, _ =>
      have runner := failed f rfl
      refine ⟨h.untouched durable span away ?_ ?_ fun trusted => ?_, ?_, nofun⟩
      · rw [runner]
      · rw [runner]
      · rw [runner] at trusted
        exact (Bool.and_eq_true_iff.1 trusted).1
      · rw [runner]
    | .stalled, ends => exact absurd rfl ends

/-- Making the engine ready keeps what is known of the font, and once it is ready, it is not to be
reset. -/
theorem ready (durable : v.Durable) (h : Coherent v lost j) {a : Job (Recorded σ) κ}
    {p : Outcome Number} {output : Path} (hb : Bystanders v.spares probe listener output)
    (ran : (ready e.recorded probe r s).run j = (p, a)) (ends : p ≠ .stalled) :
    Coherent v lost a ∧ a.runner.config = j.runner.config ∧
      (∀ d, p = .returned d → a.runner.trusted = true ∨ a.runner.config.renewEngine = false) := by
  have engine {q : Outcome Unit} {b : Job (Recorded σ) κ}
      (ran : (ensureEngine e.recorded).run j = (q, b)) (ends : q ≠ .stalled) :
      Coherent v lost b ∧ b.runner.config = j.runner.config ∧
        (q = .returned () → b.runner.trusted = true ∨ b.runner.config.renewEngine = false) := by
    rcases Action.bind_eq ran with ⟨_, i, hi, hl⟩ | ⟨f, hi, rfl⟩ | ⟨-, rfl⟩
    · obtain ⟨coherent, config, kept⟩ := h.renew durable hi
      obtain ⟨coherent', config', runner⟩ := coherent.ensureLoaded durable hl ends
      exact ⟨coherent', config'.trans config, fun hq => by rw [runner hq]; exact kept rfl⟩
    · obtain ⟨coherent, config, -⟩ := h.renew durable hi
      exact ⟨coherent, config, nofun⟩
    · exact absurd rfl ends
  rcases ready_cases hb ran ends with ⟨f, hf, rfl⟩ | ⟨d, b, hd, rfl, calm⟩
  · obtain ⟨coherent, config, -⟩ := engine hf nofun
    exact ⟨coherent, config, fun _ => nofun⟩
  · obtain ⟨coherent, config, kept⟩ := engine hd nofun
    refine ⟨coherent.calm durable calm, calm.config.trans config, fun _ _ => ?_⟩
    rw [calm.trusted, calm.config]
    exact kept rfl

/-- Seeing to the font of a job keeps what is known of it. If the font is then there, its key is
remembered. -/
theorem ensureFont (durable : v.Durable) (h : Coherent v lost j) {font : Option MediaFile}
    {present : Bool} (ran : (ensureFont e.recorded font).run j = (.returned present, k)) :
    Coherent v lost k ∧ k.runner.config = j.runner.config ∧ k.runner.trusted = j.runner.trusted ∧
      (present = true → ∃ key, FontLoader.HasKey j.host font key ∧
        k.runner.fonts.loaded = some key) := by
  obtain ⟨_, _, ⟨⟩, ran⟩ := Action.bind_total ran ⟨_, _, Action.run_get j⟩
  obtain ⟨⟨present', fonts⟩, l, hl, ran⟩ := Action.bind_returned ran
  obtain ⟨w, hw, rfl⟩ := world_eq hl
  cases ran
  obtain ⟨_, _, ⟨⟩, seen⟩ := FontLoader.ensure_eq (S := v.spares) hw nofun
  refine ⟨?_, rfl, rfl, ?_⟩
  · cases seen with
    | remembered _ _ span =>
      exact h.untouched durable span (fun _ hc => absurd hc List.not_mem_nil) rfl rfl id
    | written key _ act result span =>
      intro k' loaded
      cases loaded
      refine ⟨[], .of_written durable ⟨⟨_, font, _, key, hw⟩, _, _, span.steps, act, result⟩ act
        result span, fun _ _ _ hc => absurd hc List.not_mem_nil⟩
    | missing span failed =>
      refine h.extend durable span (fun c hc _ => .inr (failed c hc)) rfl fun _ ready =>
        ⟨ready, fun c hc reset => ?_⟩
      obtain ⟨⟨content, act⟩, -⟩ := failed c hc
      cases act.symm.trans reset
  · rintro rfl
    cases seen with
    | remembered key loaded _ => exact ⟨_, key, loaded⟩
    | written key _ _ _ _ => exact ⟨_, key, rfl⟩

theorem prepareFont (durable : v.Durable) (h : Coherent v lost j)
    (ran : (prepareFont e.recorded r s).run j = (.returned (), k)) : Coherent v lost k := by
  obtain ⟨-, ⟨-, rfl⟩ | ⟨-, present, hp⟩⟩ := prepareFont_eq ran nofun
  · exact h
  · exact (h.ensureFont durable hp).1

/-- A run keeps what is known of the font. -/
theorem run (durable : v.Durable) (h : Coherent v lost j) {o : Outcome JobResult}
    (hb : Bystanders v.spares probe listener r.output)
    (ran : (run e.recorded probe r listener).run j = (o, k)) (ends : o ≠ .stalled) :
    Coherent v lost k := by
  rcases run_phases hb ran ends with ⟨-, rfl⟩ | ⟨s, i, hi, phases⟩
  · exact h
  have begun : Coherent v lost i := h.calm durable ((calm_begin r).of_run hi.begun)
  rcases phases with ⟨f, a, ha, calm⟩ | ⟨d, a, b, p, t, ha, hf, ht, hp, calm, -⟩
  · exact (begun.ready durable hb ha nofun).1.calm durable calm
  · have fonted := (begun.ready durable hb ha nofun).1.prepareFont durable hf
    obtain ⟨work, last, span, among, deletions, config, fonts, trusted⟩ := inStorage_steps hb ht hp
    refine (fonted.untouched durable span (fun c hc touches => ?_) config fonts trusted).calm
      durable calm
    refine fontEntry_notMem_namesOf (r := r) (s := s) ?_
    rcases List.mem_append.1 hc with hc | hc
    · exact among c hc _ touches
    · exact List.mem_reverse.1 (among_deletions deletions c hc _ touches)

/-- When a job that found its font comes to executing its command, the font that was last put into
working storage has the key of its font, and unless something got lost, the engine has not been reset
since. -/
theorem executes (durable : v.Durable) (h : Coherent v lost j) {d : Number}
    {a b m : Job (Recorded σ) κ} {arguments : List String}
    {output : Path} (hb : Bystanders v.spares probe listener output)
    (readies : Readies e.recorded probe r s j d a)
    (found : (Job.ensureFont e.recorded r.attachments.font).run a = (.returned true, b))
    (led : (lead e.recorded r s d).run b = (.returned arguments, m)) :
    ∃ key since, FontLoader.HasKey a.host r.attachments.font key ∧
      FontSince v key since m.toWorld ∧ (¬ lost → ∀ c ∈ since, c.act ≠ .reset) := by
  obtain ⟨i, hi, ha⟩ := readies
  have begun : Coherent v lost i := h.calm durable ((calm_begin r).of_run hi.begun)
  obtain ⟨coherent, -, kept⟩ := begun.ready durable hb ha nofun
  obtain ⟨fonted, config, trusted, remembered⟩ := coherent.ensureFont durable found
  obtain ⟨key, hkey, loaded⟩ := remembered rfl
  obtain ⟨since, hs, unreset⟩ := fonted key loaded
  obtain ⟨-, new, span, among⟩ := lead_eq (S := v.spares) led
  have away : ∀ c ∈ new, ¬ c.act.Touches fontEntry := fun c hc touches =>
    fontEntry_notMem_namesOf (r := r) (s := s) (among c hc _ touches)
  refine ⟨key, since ++ new, hkey, hs.extend durable span fun c hc touches =>
    absurd touches (away c hc), fun hl c hc => ?_⟩
  rcases List.mem_append.1 hc with hc | hc
  · exact unreset hl (by rw [trusted, config]; exact kept d rfl) c hc
  · exact fun reset => away c hc (by rw [reset]; trivial)

end Coherent

end Job

end VideoExport
