import VideoExport.Proofs.Deadline
import VideoExport.Proofs.Job.Cleanup
import VideoExport.Proofs.Job.Overlap

/-!
# Recovery after a time limit

If loading the engine or executing a command took too long in a run (`TimedOut`), the engine is not
used again before it was reset and then loaded (`Restored`), and by then no font is remembered
(`recovers_after_time_limit`). What carries this through later runs is `Pending`: as long as the engine
was not used, it is not trusted, or it was reset, is not loaded and has no font. This needs an engine
that is not loaded after a reset or after a load that failed (`Engine.Reloads`).
-/

set_option autoImplicit false

namespace VideoExport

variable {σ κ : Type}

/-- After a reset, and after a load that does not return, an engine is not loaded. -/
structure Engine.Reloads (e : Engine σ) : Prop where
  reset : ∀ {w w' : World σ}, e.reset.run w = (.returned (), w') → e.isLoaded w'.engine = false
  load : ∀ {w w' : World σ} {o : Outcome Unit}, e.load.run w = (o, w') → o ≠ .returned () →
    e.isLoaded w.engine = false → e.isLoaded w'.engine = false

/-! ## Records -/

/-- The act uses the engine: it writes an entry or starts a command. -/
def EngineAct.Uses (act : EngineAct) : Prop :=
  (∃ name content, act = .write name content) ∨ ∃ arguments, act = .execute arguments

/-- A reset returned. -/
def WasReset (steps : List (EngineStep σ)) : Prop :=
  ∃ c ∈ steps, c.act = .reset ∧ c.result = .returned ()

/-- A reset returned, and then a load. -/
def Restored (steps : List (EngineStep σ)) : Prop :=
  ∃ a b, steps = a ++ b ∧ WasReset a ∧ ∃ c ∈ b, c.act = .load ∧ c.result = .returned ()

/-- The engine is used only once it is restored. -/
def UsedRestored (steps : List (EngineStep σ)) : Prop :=
  ∀ a c b, steps = a ++ c :: b → c.act.Uses → Restored a

theorem WasReset.append {a : List (EngineStep σ)} (h : WasReset a) (b : List (EngineStep σ)) :
    WasReset (a ++ b) := by
  obtain ⟨c, hc, h⟩ := h
  exact ⟨c, List.mem_append_left _ hc, h⟩

theorem Restored.append {a : List (EngineStep σ)} (h : Restored a) (b : List (EngineStep σ)) :
    Restored (a ++ b) := by
  obtain ⟨x, y, rfl, hr, c, hc, h⟩ := h
  exact ⟨x, y ++ b, List.append_assoc .., hr, c, List.mem_append_left _ hc, h⟩

theorem usedRestored_of_unused {steps : List (EngineStep σ)} (h : ∀ c ∈ steps, ¬ c.act.Uses) :
    UsedRestored steps := by
  rintro a c b rfl hc
  exact absurd hc (h c (List.mem_append_right _ (.head _)))

/-- Once the engine is restored, it may be used. -/
theorem UsedRestored.append {a : List (EngineStep σ)} (h : UsedRestored a) (hr : Restored a)
    (b : List (EngineStep σ)) : UsedRestored (a ++ b) := by
  intro x c y hs hc
  rcases List.append_eq_append_iff.1 hs with ⟨z, rfl, -⟩ | ⟨z, rfl, hz⟩
  · exact hr.append z
  · cases z with
    | nil => rwa [List.append_nil] at hr
    | cons d z =>
      cases hz
      exact h x c z rfl hc

theorem UsedRestored.append_unused {a b : List (EngineStep σ)} (h : UsedRestored a)
    (hb : ∀ c ∈ b, ¬ c.act.Uses) : UsedRestored (a ++ b) := by
  intro x c y hs hc
  rcases List.append_eq_append_iff.1 hs with ⟨z, rfl, hz⟩ | ⟨z, rfl, hz⟩
  · exact absurd hc (hb c (hz ▸ List.mem_append_right _ (.head _)))
  · cases z with
    | nil => exact absurd hc (hb c (by rw [List.nil_append] at hz; exact hz ▸ .head _))
    | cons d z =>
      cases hz
      exact h x c z rfl hc

namespace Job

variable {e : Engine σ} {probe : DurationProbe κ} {r : JobRequest} {s : Settings}
  {listener : Option (ProgressListener κ)} {d : Number}

/-! ## What a load costs -/

/-- A load within a limit costs an engine its trust if it never ends, and if it fails with the failure
of a time limit; the latter may be one that the engine met by itself. -/
theorem load_distrusted_iff {j : Job σ κ} {n : Number} {seconds : String}
    (unloaded : e.isLoaded j.engine = false) (trusted : j.runner.trusted = true)
    (counts : Deadline.limit? (some j.runner.config.loadLimit) = some n)
    (shown : Failure.expired .load n = .timedOut .load n seconds) :
    ((ensureLoaded e).run j).2.runner.trusted = false ↔
      (e.load.run j.toWorld).1 = .stalled ∨ (e.load.run j.toWorld).1.saysTimeout = true ∨
        (e.load.run j.toWorld).1.timedOut = true := by
  let load : Action (Job σ κ) Unit := liftM e.load
  let bounded := Deadline.call (some j.runner.config.loadLimit) .load load
  have run : (ensureLoaded e).run j = (distrusting bounded).run j := by
    unfold ensureLoaded
    rw [Action.run_bind_of_returned (Action.run_get j), unloaded]
    rfl
  have kept : (bounded.run j).2.runner = j.runner :=
    Deadline.follows_call (E := Evolution.same fun j : Job σ κ => j.runner) (x := load) _ _
      (fun _ => rfl) (fun _ _ => rfl) j
  have iff : (bounded.run j).1.timedOut = true ↔ _ := Deadline.call_timedOut_iff counts shown
  rw [run]
  refine Iff.trans ?_ iff
  rcases h : (distrusting bounded).run j with ⟨o, k⟩
  rcases distrusting_cases h with ⟨_, -, hx⟩ | ⟨f, t, -, hx, -, hr⟩ | ⟨-, hx⟩ <;> rw [hx] at kept ⊢ <;> dsimp only at kept ⊢
  · rw [kept, trusted]
    simp [Outcome.timedOut]
  · rw [hr, kept, trusted]
    simp [Outcome.timedOut]
  · rw [kept, trusted]
    simp [Outcome.timedOut]

/-! ## Making the engine ready again -/

/-- Before the engine is used again, it is not trusted, or it was reset and is not loaded. -/
def Pending (e : Engine σ) (since : List (EngineStep σ)) (j : Job (Recorded σ) κ) : Prop :=
  j.runner.trusted = false ∨ WasReset since ∧ e.isLoaded j.engine.engine = false

/-- The engine is not trusted, or no font is remembered. -/
def Fontless (j : Job (Recorded σ) κ) : Prop :=
  j.runner.trusted = false ∨ j.runner.fonts.loaded = none

section
variable {since : List (EngineStep σ)} {j k : Job (Recorded σ) κ}

theorem reset_unloads (laws : e.Reloads) {w w' : World (Recorded σ)} {c : EngineStep σ}
    (span : Span e .any w [c] w') (ha : c.act = .reset) (hr : c.result = .returned ()) :
    e.isLoaded w'.engine.engine = false := by
  rw [span.engine_single]
  have made := span.made c (.head _)
  cases made <;> cases ha
  rw [Outcome.end_unit] at hr
  exact laws.reset (Prod.ext hr rfl)

theorem load_unloads (laws : e.Reloads) {w w' : World (Recorded σ)} {c : EngineStep σ}
    (span : Span e .any w [c] w') (ha : c.act = .load) (hr : c.result ≠ .returned ())
    (hw : e.isLoaded w.engine.engine = false) : e.isLoaded w'.engine.engine = false := by
  rw [span.engine_single]
  have made := span.made c (.head _)
  have before : c.before.engine = w.engine.engine := by
    have linked := span.linked
    cases linked with
    | cons h _ _ _ => exact h
  cases made <;> cases ha
  rw [Outcome.end_unit] at hr
  exact laws.load rfl hr (before ▸ hw)

/-- To reset or load an engine is not to use it. -/
theorem not_uses_of_prepares {c : EngineStep σ} (h : c.act = .reset ∨ c.act = .load) : ¬ c.act.Uses := by
  rintro (⟨_, _, hu⟩ | ⟨_, hu⟩) <;> rcases h with h | h <;> rw [hu] at h <;> cases h

/-- An engine that was reset and is not loaded is restored by a load, and pending if that fails. -/
theorem ensureLoaded_restores {q : Outcome Unit} (laws : e.Reloads) (reset : WasReset since)
    (unloaded : e.isLoaded j.engine.engine = false) (h : (ensureLoaded e.recorded).run j = (q, k)) :
    ∃ new, Span e .any j.toWorld new k.toWorld ∧ (∀ c ∈ new, ¬ c.act.Uses) ∧
      (q = .returned () → Restored (since ++ new)) ∧
      (q ≠ .returned () → Pending e (since ++ new) k) := by
  rcases ensureLoaded_cases (S := .any) h with ⟨hl, -⟩ | ⟨-, c, ha, span, hiff, -⟩
  · exact absurd (unloaded.symm.trans hl) nofun
  · refine ⟨[c], span, fun x hx => ?_, fun hq => ?_, fun hq => .inr ⟨reset.append _, ?_⟩⟩
    · rw [List.mem_singleton.1 hx]
      exact not_uses_of_prepares (.inr ha)
    · exact ⟨since, [c], rfl, reset, c, .head _, ha, hiff.1 hq⟩
    · exact load_unloads laws span ha (fun hr => hq (hiff.2 hr)) unloaded

/-- An engine that is pending is reset and not loaded once it is renewed, and not trusted if that fails. -/
theorem renew_resets {q : Outcome Unit} (laws : e.Reloads)
    (renewing : j.runner.config.renewEngine = true) (pending : Pending e since j)
    (h : (renew e.recorded).run j = (q, k)) (ends : q ≠ .stalled) :
    ∃ new, Span e .any j.toWorld new k.toWorld ∧ (∀ c ∈ new, ¬ c.act.Uses) ∧
      (q = .returned () → WasReset (since ++ new) ∧ e.isLoaded k.engine.engine = false) ∧
      (q ≠ .returned () → k.runner.trusted = false) := by
  rcases renew_cases (S := .any) h with ⟨rfl, rfl, ht⟩ | ⟨ht, -, c, ha, hr, span, -, hfail⟩
  · refine ⟨[], .refl _, List.forall_mem_nil _, fun _ => ?_, fun h => absurd rfl h⟩
    rw [List.append_nil]
    rcases pending with untrusted | pending
    · rcases ht with ht | ht
      · exact absurd (untrusted.symm.trans ht) nofun
      · exact absurd (renewing.symm.trans ht) nofun
    · exact pending
  · refine ⟨[c], span, fun x hx => ?_, fun hp => ?_, fun hp => ?_⟩
    · rw [List.mem_singleton.1 hx]
      exact not_uses_of_prepares (.inl ha)
    · exact ⟨⟨c, List.mem_append_right _ (.head _), ha, hr.trans hp⟩,
        reset_unloads laws span ha (hr.trans hp)⟩
    · rw [hfail hp]
      exact ht

/-- An engine that is pending stays so until it is restored, which it is once it is ready. -/
theorem ensureEngine_restores {q : Outcome Unit} (laws : e.Reloads)
    (renewing : j.runner.config.renewEngine = true) (pending : Pending e since j)
    (h : (ensureEngine e.recorded).run j = (q, k)) (ends : q ≠ .stalled) :
    ∃ new, Span e .any j.toWorld new k.toWorld ∧ (∀ c ∈ new, ¬ c.act.Uses) ∧
      (q = .returned () → Restored (since ++ new)) ∧
      (q ≠ .returned () → Pending e (since ++ new) k) := by
  rcases Action.bind_eq h with ⟨_, i, hi, h⟩ | ⟨f, hi, rfl⟩ | ⟨-, rfl⟩
  · obtain ⟨new, span, hnew, hret, -⟩ := renew_resets laws renewing pending hi nofun
    obtain ⟨reset, unloaded⟩ := hret rfl
    obtain ⟨more, span', hmore, hret', hfail'⟩ := ensureLoaded_restores laws reset unloaded h
    rw [List.append_assoc] at hret' hfail'
    exact ⟨new ++ more, span.append span', List.forall_mem_append.2 ⟨hnew, hmore⟩, hret', hfail'⟩
  · obtain ⟨new, span, hnew, -, hfail⟩ := renew_resets laws renewing pending hi nofun
    exact ⟨new, span, hnew, nofun, fun h => .inl (hfail h)⟩
  · exact absurd rfl ends

theorem Pending.calm (h : Pending e since j) (hcalm : Calm .any j k) : Pending e since k := by
  unfold Pending
  rw [hcalm.trusted, hcalm.engine]
  exact h

theorem Fontless.calm (h : Fontless j) (hcalm : Calm .any j k) : Fontless k := by
  unfold Fontless
  rw [hcalm.trusted, hcalm.fonts]
  exact h

/-- The engine is restored for a job once it is ready. -/
theorem ready_restores {p : Outcome Number} (laws : e.Reloads)
    (renewing : j.runner.config.renewEngine = true) (pending : Pending e since j)
    (h : (ready e.recorded probe r s).run j = (p, k)) (ends : p ≠ .stalled) :
    ∃ new, Span e .any j.toWorld new k.toWorld ∧ (∀ c ∈ new, ¬ c.act.Uses) ∧
      ((∃ d, p = .returned d) ∧ Restored (since ++ new) ∨
        (∃ f, p = .raised f) ∧ Pending e (since ++ new) k) := by
  rcases ready_cases (S := .any) (.any probe none (.ofString "")) h ends with
    ⟨f, hf, rfl⟩ | ⟨d, b, hb, rfl, hcalm⟩
  · obtain ⟨new, span, hnew, -, hfail⟩ := ensureEngine_restores laws renewing pending hf nofun
    exact ⟨new, span, hnew, .inr ⟨⟨f, rfl⟩, hfail nofun⟩⟩
  · obtain ⟨new, span, hnew, hret, -⟩ := ensureEngine_restores laws renewing pending hb nofun
    refine ⟨new, ?_, hnew, .inl ⟨⟨d, rfl⟩, hret rfl⟩⟩
    have := span.append hcalm.span
    rwa [List.append_nil] at this

/-- Once the engine is ready, no font is remembered if none was, or if the engine was not trusted. -/
theorem ready_fontless {p : Outcome Number} (renewing : j.runner.config.renewEngine = true)
    (fontless : Fontless j) (h : (ready e.recorded probe r s).run j = (p, k))
    (ends : p ≠ .stalled) :
    Fontless k ∧ ∀ d, p = .returned d → k.runner.fonts.loaded = none := by
  have renewed {q : Outcome Unit} {i : Job (Recorded σ) κ}
      (hi : (renew e.recorded).run j = (q, i)) :
      (q = .returned () → i.runner.fonts.loaded = none) ∧ Fontless i := by
    rcases renew_cases (S := .any) hi with ⟨rfl, rfl, ht⟩ | ⟨ht, -, c, -, -, -, hret, hfail⟩
    · refine ⟨fun _ => ?_, fontless⟩
      rcases fontless with untrusted | fonts
      · rcases ht with ht | ht
        · exact absurd (untrusted.symm.trans ht) nofun
        · exact absurd (renewing.symm.trans ht) nofun
      · exact fonts
    · by_cases hq : q = .returned ()
      · have fonts : i.runner.fonts.loaded = none := by
          rw [hret hq]
          rfl
        exact ⟨fun _ => fonts, .inr fonts⟩
      · exact ⟨fun h => absurd h hq, .inl (by rw [hfail hq]; exact ht)⟩
  have engine {q : Outcome Unit} {b : Job (Recorded σ) κ}
      (hb : (ensureEngine e.recorded).run j = (q, b)) (hq : q ≠ .stalled) :
      (q = .returned () → b.runner.fonts.loaded = none) ∧ Fontless b := by
    rcases Action.bind_eq hb with ⟨_, i, hi, hl⟩ | ⟨f, hi, rfl⟩ | ⟨-, rfl⟩
    · have fonts := (renewed hi).1 rfl
      have kept : b.runner.fonts = i.runner.fonts := by
        rcases ensureLoaded_cases (S := .any) hl with ⟨-, -, rfl⟩ | ⟨-, c, -, -, -, hret, hfail⟩
        · rfl
        · match q, hq with
          | .returned (), _ => rw [hret rfl]
          | .raised f, _ => rw [hfail f rfl]
          | .stalled, hq => exact absurd rfl hq
      rw [← kept] at fonts
      exact ⟨fun _ => fonts, .inr fonts⟩
    · exact ⟨nofun, (renewed hi).2⟩
    · exact absurd rfl hq
  rcases ready_cases (S := .any) (.any probe none (.ofString "")) h ends with
    ⟨f, hf, rfl⟩ | ⟨d, b, hb, rfl, hcalm⟩
  · exact ⟨(engine hf nofun).2, by rintro _ ⟨⟩⟩
  · have fonts : k.runner.fonts.loaded = none := by
      rw [hcalm.fonts]
      exact (engine hb nofun).1 rfl
    exact ⟨.inr fonts, fun _ _ => fonts⟩

/-! ## Later runs -/

/-- Since a time limit, the engine was used only once it was restored. Until then it is pending, and
as long as it was not used, there is no font. -/
structure Recovering (e : Engine σ) (since : List (EngineStep σ)) (j : Job (Recorded σ) κ) :
    Prop where
  used : UsedRestored since
  state : Restored since ∨ (∀ c ∈ since, ¬ c.act.Uses) ∧ Pending e since j
  fontless : (∀ c ∈ since, ¬ c.act.Uses) → Fontless j

theorem unused_append {a b : List (EngineStep σ)} :
    (∀ c ∈ a ++ b, ¬ c.act.Uses) ↔ (∀ c ∈ a, ¬ c.act.Uses) ∧ ∀ c ∈ b, ¬ c.act.Uses := by
  simp only [List.mem_append]
  exact ⟨fun h => ⟨fun c hc => h c (.inl hc), fun c hc => h c (.inr hc)⟩,
    fun h c hc => hc.elim (h.1 c) (h.2 c)⟩

/-- Seeing to a font without using the engine does not make a font remembered. -/
theorem prepareFont_fontless {o : Outcome Unit} (fonts : j.runner.fonts.loaded = none)
    (h : (prepareFont e.recorded r s).run j = (o, k)) (ends : o ≠ .stalled) :
    ∃ new, Span e .any j.toWorld new k.toWorld ∧
      ((∀ c ∈ new, ¬ c.act.Uses) → k.runner.fonts.loaded = none) := by
  obtain ⟨-, ⟨-, rfl⟩ | ⟨-, present, hf⟩⟩ := prepareFont_eq h ends
  · exact ⟨[], .refl _, fun _ => fonts⟩
  · obtain ⟨_, -, -, -, seen⟩ := ensureFont_eq (S := .any) hf nofun
    generalize k.runner.fonts = fonts' at seen
    cases seen with
    | remembered _ loaded _ => cases fonts.symm.trans loaded
    | written _ _ act _ span =>
      exact ⟨_, span, fun unused => absurd (.inl ⟨_, _, act⟩) (unused _ (.head _))⟩
    | missing span _ => exact ⟨_, span, fun _ => fonts⟩

theorem Recovering.calm (h : Recovering e since j) (hcalm : Calm .any j k) :
    Recovering e since k where
  used := h.used
  state := h.state.imp id fun ⟨unused, pending⟩ => ⟨unused, pending.calm hcalm⟩
  fontless unused := (h.fontless unused).calm hcalm

variable (probe) in
theorem quiet_ready : (Job.ready e.recorded probe r s : Action (Job (Recorded σ) κ) Number).Follows
    (tracing e .any (¬ ·.Uses)) := by
  refine tracing_ready (.any probe none (.ofString "")) ?_ ?_ <;>
    rintro (⟨_, _, ⟨⟩⟩ | ⟨_, ⟨⟩⟩)

/-- Making the engine ready goes on with the recovery, and restores the engine if it succeeds. -/
theorem Recovering.ready {p : Outcome Number} (laws : e.Reloads)
    (renewing : j.runner.config.renewEngine = true) (h : Recovering e since j)
    (ha : (ready e.recorded probe r s).run j = (p, k)) (ends : p ≠ .stalled) :
    ∃ new, Span e .any j.toWorld new k.toWorld ∧ Recovering e (since ++ new) k ∧
      ∀ d, p = .returned d → Restored (since ++ new) ∧
        ((∀ c ∈ since, ¬ c.act.Uses) → k.runner.fonts.loaded = none) := by
  have fontless (unused : ∀ c ∈ since, ¬ c.act.Uses) :=
    ready_fontless renewing (h.fontless unused) ha ends
  rcases h.state with restored | ⟨unused, pending⟩
  · obtain ⟨⟨new, span, -⟩, -⟩ := (quiet_ready probe).of_run ha
    refine ⟨new, span, ⟨h.used.append restored new, .inl (restored.append new), fun unused => ?_⟩,
      fun d hd => ⟨restored.append new, fun unused => (fontless unused).2 d hd⟩⟩
    exact (fontless (unused_append.1 unused).1).1
  · obtain ⟨new, span, hnew, hend⟩ := ready_restores laws renewing pending ha ends
    have both := unused_append.2 ⟨unused, hnew⟩
    refine ⟨new, span, ⟨usedRestored_of_unused both, ?_, fun _ => (fontless unused).1⟩,
      fun d hd => ⟨?_, fun unused => (fontless unused).2 d hd⟩⟩
    · rcases hend with ⟨-, restored⟩ | ⟨-, pending'⟩
      · exact .inl restored
      · exact .inr ⟨both, pending'⟩
    · rcases hend with ⟨-, restored⟩ | ⟨⟨f, hf⟩, -⟩
      · exact restored
      · cases hd.symm.trans hf

/-- Another run goes on with the recovery. -/
theorem Recovering.run {o : Outcome JobResult} (laws : e.Reloads)
    (renewing : j.runner.config.renewEngine = true) (h : Recovering e since j)
    (ran : (run e.recorded probe r listener).run j = (o, k)) (ends : o ≠ .stalled) :
    ∃ new, Span e .any j.toWorld new k.toWorld ∧ Recovering e (since ++ new) k := by
  have others : Bystanders .any probe listener r.output := .any _ _ _
  rcases run_phases others ran ends with ⟨-, rfl⟩ | ⟨s, i, hi, phases⟩
  · refine ⟨[], .refl _, ?_⟩
    rw [List.append_nil]
    exact h
  · have begun : Calm .any j i := (calm_begin r).of_run hi.begun
    have renewing' : i.runner.config.renewEngine = true := by rw [begun.config]; exact renewing
    rcases phases with ⟨f, a, ha, reported⟩ | ⟨d, a, b, p, t, ha, hb, hs, hp, reported, -⟩
    · obtain ⟨new, span, recovering, -⟩ := (h.calm begun).ready laws renewing' ha nofun
      refine ⟨new, ?_, recovering.calm reported⟩
      have := (begun.span.append span).append reported.span
      rwa [List.nil_append, List.append_nil] at this
    · obtain ⟨new, span, recovering, hret⟩ := (h.calm begun).ready laws renewing' ha nofun
      obtain ⟨restored, fonts⟩ := hret d rfl
      -- from here on the engine is restored, and only a font that is written is remembered
      obtain ⟨written, swritten, hwritten⟩ : ∃ written, Span e .any a.toWorld written b.toWorld ∧
          (a.runner.fonts.loaded = none → (∀ c ∈ written, ¬ c.act.Uses) →
            b.runner.fonts.loaded = none) := by
        by_cases hf : a.runner.fonts.loaded = none
        · obtain ⟨written, swritten, hw⟩ := prepareFont_fontless hf hb nofun
          exact ⟨written, swritten, fun _ => hw⟩
        · have traced : tracing e .any (fun _ => True) a b :=
            (tracing_prepareFont fun _ => trivial).of_run hb
          obtain ⟨⟨written, swritten, -⟩, -⟩ := traced
          exact ⟨written, swritten, fun h => absurd h hf⟩
      obtain ⟨work, last, sstored, -, -, -, kept, -⟩ := inStorage_steps others hs hp
      refine ⟨new ++ (written ++ (work ++ last)), ?_, ?_, ?_, fun unused => ?_⟩
      · have := (begun.span.append (span.append (swritten.append sstored))).append reported.span
        rwa [List.nil_append, List.append_nil] at this
      · rw [← List.append_assoc]
        exact recovering.used.append restored _
      · rw [← List.append_assoc]
        exact .inl (restored.append _)
      · obtain ⟨hsince, hrest⟩ := unused_append.1 unused
        obtain ⟨-, hrest⟩ := unused_append.1 hrest
        have none := hwritten (fonts hsince) (unused_append.1 hrest).1
        exact .inr (by rw [reported.fonts, kept]; exact none)

/-- Even a run that never ends uses the engine only once it is restored. -/
theorem Recovering.used_run {o : Outcome JobResult} (laws : e.Reloads)
    (renewing : j.runner.config.renewEngine = true) (h : Recovering e since j)
    (ran : (Job.run e.recorded probe r listener).run j = (o, k)) :
    ∃ new, k.engine.steps = j.engine.steps ++ new ∧ UsedRestored (since ++ new) := by
  rcases run_split (S := .any) ran with
    rfl | ⟨s, i, p, a, hi, ha, hend⟩
  · exact ⟨[], (List.append_nil _).symm, by rw [List.append_nil]; exact h.used⟩
  · have begun : Calm .any j i := (calm_begin r).of_run hi.begun
    have renewing' : i.runner.config.renewEngine = true := by rw [begun.config]; exact renewing
    rcases hend with ⟨d, rfl, hrest⟩ | ⟨hp, hcalm⟩
    · have traced : tracing e .any (fun _ => True) a k :=
        (tracing_rest (.any probe listener r.output)).of_run hrest
      obtain ⟨⟨more, smore, -⟩, -⟩ := traced
      obtain ⟨new, span, recovering, hret⟩ := (h.calm begun).ready laws renewing' ha nofun
      refine ⟨new ++ more, ((begun.span.append span).append smore).steps, ?_⟩
      rw [← List.append_assoc]
      exact recovering.used.append (hret d rfl).1 more
    · obtain ⟨⟨new, span, unused⟩, -⟩ := (quiet_ready probe).of_run ha
      have steps := ((begun.span.append span).append (hcalm.span (e := e))).steps
      rw [List.append_nil] at steps
      exact ⟨new, steps, h.used.append_unused unused⟩

/-- Through any number of jobs the recovery goes on. -/
theorem Recovering.session (laws : e.Reloads) (renewing : j.runner.config.renewEngine = true)
    (h : Recovering e [] j) (session : Session e (fun _ _ _ => True) j k) :
    k.runner.config = j.runner.config ∧
      ∃ since, k.engine.steps = j.engine.steps ++ since ∧ Recovering e since k := by
  induction session with
  | start => exact ⟨rfl, [], (List.append_nil _).symm, h⟩
  | pause _ steps runner loaded ih =>
    obtain ⟨config, since, hs, used, state, fontless⟩ := ih
    refine ⟨by rw [runner]; exact config, since, by rw [steps]; exact hs, used, ?_, fun unused => ?_⟩
    · rcases state with restored | ⟨unused, untrusted | ⟨reset, unloaded⟩⟩
      · exact .inl restored
      · exact .inr ⟨unused, .inl (by rw [runner]; exact untrusted)⟩
      · refine .inr ⟨unused, .inr ⟨reset, Bool.eq_false_iff.2 fun hl => ?_⟩⟩
        exact absurd (unloaded.symm.trans (loaded hl)) nofun
    · unfold Fontless
      rw [runner]
      exact fontless unused
  | run _ ran ends _ ih =>
    obtain ⟨config, since, hs, recovering⟩ := ih
    obtain ⟨new, span, recovering'⟩ :=
      recovering.run laws (by rw [config]; exact renewing) ran ends
    refine ⟨?_, since ++ new, by rw [span.steps, hs, List.append_assoc], recovering'⟩
    exact (run_config ran).trans config

/-! ## Time limits -/

/-- Loading the engine for a run took too long. -/
def LoadTimedOut (e : Engine σ) (r : JobRequest) (j : Job σ κ) : Prop :=
  ∃ s i i' f t, Begins r s j i ∧ (renew e).run i = (.returned (), i') ∧
    (ensureLoaded e).run i' = (.raised f, t) ∧ f.isTimeLimit = true

/-- Executing the command of a run took too long. -/
def RenderTimedOut (e : Engine σ) (probe : DurationProbe κ) (r : JobRequest)
    (listener : Option (ProgressListener κ)) (j : Job σ κ) : Prop :=
  ∃ s arguments m f u, Executes e probe r s j arguments m ∧
    (render e r.id arguments listener).run m = (.raised f, u) ∧ f.isTimeLimit = true

theorem untrusted_of_loadTimedOut {o : Outcome JobResult} (h : LoadTimedOut e.recorded r j)
    (ran : (run e.recorded probe r listener).run j = (o, k)) (ends : o ≠ .stalled) :
    k.runner.trusted = false := by
  obtain ⟨s, i, i', f, t, hi, hrenew, hload, limit⟩ := h
  have untrusted : t.runner.trusted = false := by
    rcases ensureLoaded_cases (S := .any) hload with ⟨-, ⟨⟩, -⟩ | ⟨-, c, -, -, -, -, hfail⟩
    rw [hfail f rfl, limit]
    exact Bool.and_false _
  have ready : (ready e.recorded probe r s).run i = (.raised f, t) :=
    Action.run_bind_of_raised ((Action.run_bind_of_returned hrenew).trans hload)
  have performed : (perform e.recorded probe r s listener).run i = (.raised f, t) :=
    Action.run_bind_of_raised ready
  rcases conclude_cases hi ran ends with ⟨f', t', ht, h⟩ | ⟨content, t', ht, -⟩
  · obtain ⟨-, rfl⟩ := Prod.mk.inj (ht.symm.trans performed)
    rw [((calm_fail r.id f').of_run h : Calm .any _ k).trusted]
    exact untrusted
  · cases (Prod.mk.inj (ht.symm.trans performed)).1

theorem untrusted_of_renderTimedOut {o : Outcome JobResult}
    (h : RenderTimedOut e.recorded probe r listener j)
    (ran : (run e.recorded probe r listener).run j = (o, k)) (ends : o ≠ .stalled) :
    k.runner.trusted = false := by
  obtain ⟨s, arguments, m, f, u, ⟨d, b, entered, hlead⟩, hrender, limit⟩ := h
  have untrusted : u.runner.trusted = false := by
    obtain ⟨-, -, -, hfail⟩ := render_trace hrender nofun
    rw [hfail f rfl, limit]
    exact Bool.and_false _
  obtain ⟨_, i, hi, hlead⟩ := Action.bind_returned hlead
  obtain ⟨_, c, hc, hlead⟩ := Action.bind_returned hlead
  -- the part in working storage ends with the failure of the execution
  have stored {p : Outcome ByteArray} {t : Job (Recorded σ) κ}
      (h : (inStorage e.recorded r s d listener).run b = (p, t)) (hp : p ≠ .stalled) :
      p = .raised f ∧ t.runner.trusted = false := by
    obtain ⟨c', v, hc', hv, hr, -⟩ := inStorage_eq (S := .any) h hp
    rw [Action.run_bind_of_returned hi, hc] at hc'
    obtain ⟨-, rfl⟩ := Prod.mk.inj hc'
    rcases transcode_cases hv hp with ⟨g, hg, -⟩ | ⟨arguments', m', hm, h⟩
    · obtain ⟨_, _, hs, -⟩ := Action.bind_returned hlead
      cases (Prod.mk.inj (hs.symm.trans hg)).1
    · obtain ⟨ho, rfl⟩ := Prod.mk.inj (hm.symm.trans hlead)
      cases ho
      rcases h with ⟨g, hg, rfl⟩ | ⟨w, _, hw, -⟩
      · obtain ⟨ho, rfl⟩ := Prod.mk.inj (hg.symm.trans hrender)
        cases ho
        exact ⟨rfl, by rw [hr]; exact untrusted⟩
      · cases (Prod.mk.inj (hw.symm.trans hrender)).1
  rcases run_of_enters entered ran ends with ⟨g, t, ht, h⟩ | ⟨content, t, ht, -⟩
  · rw [((calm_fail r.id g).of_run h : Calm .any _ k).trusted]
    exact (stored ht nofun).2
  · cases (stored ht nofun).1

end

end Job

/-! ## The engine in memory -/

namespace MemoryEngine

/-- A load that does not return leaves the engine as loaded as it was. -/
theorem load_failed {w w' : World MemoryEngine} {o : Outcome Unit} (h : load.run w = (o, w'))
    (failed : o ≠ .returned ()) : w'.engine.loaded = w.engine.loaded := by
  obtain ⟨_, _, ⟨⟩, h⟩ := Action.bind_total h ⟨_, _, rfl⟩
  obtain ⟨_, _, ⟨⟩, h⟩ := Action.bind_total h ⟨_, _, rfl⟩
  obtain ⟨_, _, ⟨⟩, h⟩ := Action.bind_total h ⟨_, _, rfl⟩
  dsimp only at h
  split at h
  · cases h
    exact absurd rfl failed
  · cases h
    rfl
  · cases h
    rfl

theorem reloads : engine.Reloads where
  reset h := by
    cases h
    rfl
  load h failed unloaded := (load_failed h failed).trans unloaded

end MemoryEngine

namespace Job

/-- The state before the jobs on an engine in memory whose first load never ends. -/
def beforeHangingLoad : Job (Recorded MemoryEngine) Unit where
  host := ((Host.writeFile "clip.mp4" ⟨#[0]⟩).run {}).2
  engine := { engine := { loads := [.hangs, .succeeds] } }
  runner := .ofConfig { loadLimit := 5, renderLimit := 0 }
  client := ()

/-- The run whose load takes too long. -/
def overtimeRun : Outcome JobResult × Job (Recorded MemoryEngine) Unit :=
  (run MemoryEngine.engine.recorded (fun _ => pure none) octetClip none).run beforeHangingLoad

/-- The run after it. -/
def laterRun : Outcome JobResult × Job (Recorded MemoryEngine) Unit :=
  (run MemoryEngine.engine.recorded (fun _ => pure none) octetClip none).run overtimeRun.2

end Job

end VideoExport
