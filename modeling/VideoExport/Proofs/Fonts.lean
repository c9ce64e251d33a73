import VideoExport.Fonts
import VideoExport.Proofs.Host

/-!
# Loading a font

What seeing to a font does. `HasKey h font key`: on the host `h` the font has the key. `Turn`: the font is
remembered, or it cannot be read, or the engine is asked to write it; nothing else happens to the engine
(`ensure_turn`). `Seen` says so without the cases in which the font is missing (`ensure_eq`).
-/

set_option autoImplicit false

namespace VideoExport

namespace FontLoader

section
variable {E : Evolution Host}

theorem follows_key : ∀ font : Option MediaFile, (key font).Follows E
  | some _ => .bind (Host.still_ask _ _).of_still fun _ => .pure _
  | none => .pure _

variable (logged : ∀ level message, (Host.log level logSource message).Follows E)
  (asked : ∀ (h : Host) web requests, E h { h with web, requests })
include logged asked

theorem follows_download_of (l : FontLoader) :
    (FontLoader.defaultContent.download l).Follows E := by
  unfold defaultContent.download
  split
  · exact .raise _
  · exact .bind (logged _ _) fun _ => Host.follows_download _ _ asked

/-- Getting a font reads it, or leaves a record and asks a server. -/
theorem follows_content_of (l : FontLoader) : ∀ font : Option MediaFile, (l.content font).Follows E
  | some _ => (Host.still_ask _ _).of_still
  | none => by
    show l.defaultContent.Follows _
    unfold defaultContent
    dsimp only
    split
    · refine .bind (Host.still_pathExists _).of_still fun _ => .ite (Host.still_ask _ _).of_still ?_
      exact follows_download_of logged asked l
    · exact follows_download_of logged asked l

/-- Seeing to a font does what getting it and writing it do. -/
theorem follows_ensure_of {σ : Type} {e : Engine σ} {G : Evolution (World σ)} (l : FontLoader)
    (font : Option MediaFile) (host : ∀ (w : World σ) h, E w.host h → G w { w with host := h })
    (written : ∀ content, (e.write fontEntry content).Follows G) : (ensure e l font).Follows G := by
  have hosted {α : Type} {x : Action Host α} (hx : x.Follows E) :
      (liftM x : Action (World σ) α).Follows G := .zoom hx fun w h hh => host w h hh
  have placed : (place e l font).Follows G := by
    refine .bind (hosted (follows_key font)) fun k => ?_
    exact .ite (.pure _) (.bind (hosted (follows_content_of logged asked l font)) fun content =>
      .bind (written content) fun _ => .pure _)
  refine .bind placed.attempt fun a => ?_
  match a with
  | .error _ => exact .bind (hosted (logged _ _)) fun _ => .pure _
  | .ok (_, false) => exact .pure _
  | .ok (_, true) => exact .bind (hosted (logged _ _)) fun _ => .pure _

end

theorem follows_content (l : FontLoader) (font : Option MediaFile) :
    (l.content font).Follows Host.keepsFiles :=
  follows_content_of (fun _ _ => Host.follows_log _ _ _) (fun _ _ _ => rfl) l font

theorem responds_key : ∀ font : Option MediaFile, (key font).Responds
  | some _ => by
    rw [Action.responds_iff]
    exact .bind (Action.responds_iff.1 (Host.responds_ask _ _)) fun _ => .pure _
  | none => fun _ => nofun

theorem responds_defaultContent (l : FontLoader) : l.defaultContent.Responds := by
  have downloaded : (FontLoader.defaultContent.download l).Ends fun _ => True := by
    unfold defaultContent.download
    split
    · exact .raise _
    · exact .bind (Action.responds_iff.1 (Host.responds_log _ _ _)) fun _ =>
        Action.responds_iff.1 (Host.responds_download _ _)
  rw [Action.responds_iff]
  unfold defaultContent
  dsimp only
  split
  · exact .bind (Action.responds_iff.1 (Host.responds_pathExists _)) fun _ =>
      .ite (Action.responds_iff.1 (Host.responds_readFile _)) downloaded
  · exact downloaded

theorem responds_content (l : FontLoader) : ∀ font : Option MediaFile, (l.content font).Responds
  | some _ => Host.responds_readFile _
  | none => responds_defaultContent l

/-- Seeing to a font ends if writing it does. -/
theorem responds_ensure {σ : Type} {e : Engine σ} (l : FontLoader) (font : Option MediaFile)
    (hw : ∀ content, (e.write fontEntry content).Responds) : (ensure e l font).Responds := by
  have host {α : Type} {x : Action Host α} (hx : x.Responds) :
      (liftM x : Action (World σ) α).Ends fun _ => True := .zoom hx fun _ _ _ => trivial
  have placed : (place e l font).Ends fun _ => True :=
    .bind (host (responds_key font)) fun _ => .ite (.pure _)
      (.bind (host (responds_content l font)) fun content =>
        .bind (Action.responds_iff.1 (hw content)) fun _ => .pure _)
  rw [Action.responds_iff]
  refine .bind placed.attempt fun a => ?_
  match a with
  | .error _ => exact .bind (host (Host.responds_log _ _ _)) fun _ => .pure _
  | .ok (_, false) => exact .pure _
  | .ok (_, true) => exact .bind (host (Host.responds_log _ _ _)) fun _ => .pure _

/-- On a host, a font has a key. -/
def HasKey (h : Host) (font : Option MediaFile) (k : String) : Prop :=
  ((key font).run h).1 = .returned k

/-- On a host, a font has a content. -/
def HasContent (h : Host) (l : FontLoader) (font : Option MediaFile) (content : ByteArray) : Prop :=
  ((l.content font).run h).1 = .returned content

section
variable {σ : Type} {e : Engine σ} {S : HostFrame} {l : FontLoader} {font : Option MediaFile}
  {w w' : World (Recorded σ)}

/-- What seeing to a font asks of the engine, whether the font is there then, and what the loader
remembers. -/
inductive Turn (w : World (Recorded σ)) (l : FontLoader) (font : Option MediaFile) :
    List (EngineStep σ) → Bool → FontLoader → Prop
  | remembered {k : String} (key : HasKey w.host font k) (loaded : l.loaded = some k) :
      Turn w l font [] true l
  | unread (unread : ∀ k, HasKey w.host font k →
      l.loaded ≠ some k ∧ ∀ content, ¬ HasContent w.host l font content) : Turn w l font [] false l
  | refused {k : String} {content : ByteArray} {c : EngineStep σ} (key : HasKey w.host font k)
      (loaded : l.loaded ≠ some k) (read : HasContent w.host l font content)
      (act : c.act = .write fontEntry content) (result : c.result ≠ .returned ()) :
      Turn w l font [c] false l
  | written {k : String} {content : ByteArray} {c : EngineStep σ} (key : HasKey w.host font k)
      (loaded : l.loaded ≠ some k) (read : HasContent w.host l font content)
      (act : c.act = .write fontEntry content) (result : c.result = .returned ()) :
      Turn w l font [c] true { l with loaded := some k }

/-- Whether a font is there once it was seen to, and what the loader remembers. -/
inductive Seen (e : Engine σ) (S : HostFrame) (w : World (Recorded σ)) (l : FontLoader)
    (font : Option MediaFile) : Bool → FontLoader → World (Recorded σ) → Prop
  | remembered {w' : World (Recorded σ)} {k : String} (key : HasKey w.host font k)
      (loaded : l.loaded = some k) (span : Span e S w [] w') : Seen e S w l font true l w'
  | written {w' : World (Recorded σ)} {k : String} {content : ByteArray} {c : EngineStep σ}
      (key : HasKey w.host font k) (loaded : l.loaded ≠ some k)
      (act : c.act = .write fontEntry content) (result : c.result = .returned ())
      (span : Span e S w [c] w') : Seen e S w l font true { l with loaded := some k } w'
  | missing {w' : World (Recorded σ)} {new : List (EngineStep σ)} (span : Span e S w new w')
      (failed : ∀ c ∈ new, (∃ content, c.act = .write fontEntry content) ∧
        c.result ≠ .returned ()) : Seen e S w l font false l w'

theorem span_host {α : Type} {x : Action Host α} {o : Outcome α}
    (hx : x.Follows S.toEvolution)
    (h : (liftM x : Action (World (Recorded σ)) α).run w = (o, w')) :
    Span e S w [] w' := by
  cases h
  exact .of_host rfl (hx _)

/-- Seeing to a font writes no other entry. -/
theorem follows_ensure {P : EngineAct → Prop} (hp : ∀ content, P (.write fontEntry content)) :
    (ensure e.recorded l font).Follows (traced e S P) :=
  follows_ensure_of (E := Host.keepsFiles) (fun _ _ => Host.follows_log _ _ _) (fun _ _ _ => rfl) l
    font (fun _ _ files => traced_of_host rfl (S.of_files files)) fun content =>
      follows_write (hp content)

/-- A font that is remembered is not written. Another one is, if it can be read. -/
theorem place_cases {o : Outcome (String × Bool)}
    (h : (place e.recorded l font).run w = (o, w')) :
    (∃ k, o = .returned (k, false) ∧ l.loaded = some k ∧ HasKey w.host font k ∧ Span e S w [] w') ∨
    (∃ k content c, HasKey w.host font k ∧ l.loaded ≠ some k ∧ HasContent w.host l font content ∧
      c.act = .write fontEntry content ∧ Span e S w [c] w' ∧
      (c.result = .returned () → o = .returned (k, true)) ∧
      (c.result ≠ .returned () → ∀ a, o ≠ .returned a)) ∨
    ((∀ a, o ≠ .returned a) ∧ (∀ k, HasKey w.host font k →
      l.loaded ≠ some k ∧ ∀ content, ¬ HasContent w.host l font content) ∧ Span e S w [] w') := by
  have keyless {p : Outcome String}
      (hk : (liftM (FontLoader.key font) : Action (World (Recorded σ)) String).run w = (p, w'))
      (none : ∀ k, p ≠ .returned k) : (∀ k, HasKey w.host font k →
        l.loaded ≠ some k ∧ ∀ content, ¬ HasContent w.host l font content) ∧ Span e S w [] w' :=
    ⟨fun k key => absurd ((congrArg Prod.fst hk).symm.trans key) (none k),
      span_host ((follows_key font).of_files S) hk⟩
  rcases Action.bind_eq h with ⟨k, v, hk, ran⟩ | ⟨f, hk, rfl⟩ | ⟨hk, rfl⟩
  · have key : HasKey w.host font k := congrArg Prod.fst hk
    obtain ⟨i, keyed, rfl⟩ := Action.zoom_eq hk
    have same : i = w.host := (follows_key (E := .still) font).of_run keyed
    subst same
    change (ite _ _ _ : Action (World (Recorded σ)) (String × Bool)).run w = _ at ran
    by_cases loaded : l.loaded = some k
    · rw [if_pos loaded] at ran
      cases ran
      exact .inl ⟨k, rfl, loaded, key, .refl _⟩
    rw [if_neg loaded] at ran
    have unread {p : Outcome ByteArray}
        (hc : (liftM (l.content font) : Action (World (Recorded σ)) ByteArray).run w = (p, w'))
        (none : ∀ content, p ≠ .returned content) : (∀ k, HasKey w.host font k →
          l.loaded ≠ some k ∧ ∀ content, ¬ HasContent w.host l font content) ∧ Span e S w [] w' := by
      refine ⟨fun k' key' => ⟨?_, fun content read => ?_⟩,
        span_host ((follows_content l font).of_files S) hc⟩
      · cases key.symm.trans key'
        exact loaded
      · exact none content ((congrArg Prod.fst hc).symm.trans read)
    rcases Action.bind_eq ran with ⟨content, u, hc, ran⟩ | ⟨f, hc, rfl⟩ | ⟨hc, rfl⟩
    · have read : HasContent w.host l font content := congrArg Prod.fst hc
      have before := span_host (e := e) ((follows_content l font).of_files S) hc
      refine .inr (.inl ⟨k, content, ?_⟩)
      rcases Action.bind_eq ran with ⟨_, t, hw, ran⟩ | ⟨f, hw, rfl⟩ | ⟨hw, rfl⟩ <;>
        obtain ⟨c, act, result, step⟩ := Span.recorded (S := S) hw (.write _ _ _)
      · cases ran
        exact ⟨c, key, loaded, read, act, before.append step, fun _ => rfl, fun h => absurd result h⟩
      · exact ⟨c, key, loaded, read, act, before.append step,
          fun h => (nomatch h.symm.trans result), fun _ => nofun⟩
      · exact ⟨c, key, loaded, read, act, before.append step,
          fun h => (nomatch h.symm.trans result), fun _ => nofun⟩
    · exact .inr (.inr ⟨nofun, unread hc nofun⟩)
    · exact .inr (.inr ⟨nofun, unread hc nofun⟩)
  · exact .inr (.inr ⟨nofun, keyless hk nofun⟩)
  · exact .inr (.inr ⟨nofun, keyless hk nofun⟩)

/-- Seeing to a font never raises a failure. -/
theorem ensure_turn {o : Outcome (Bool × FontLoader)}
    (h : (ensure e.recorded l font).run w = (o, w')) (ends : o ≠ .stalled) :
    ∃ present l' new, o = .returned (present, l') ∧ Span e S w new w' ∧
      Turn w l font new present l' := by
  have logged {level : Level} {message : String} {p : Outcome Unit} {v u : World (Recorded σ)}
      (h : (liftM (Host.log level logSource message) : Action (World (Recorded σ)) Unit).run v =
        (p, u)) : Span e S v [] u := span_host ((Host.follows_log _ _ _).of_files S) h
  rcases Action.bind_eq h with ⟨a, v, hp, h⟩ | ⟨f, hp, -⟩ | ⟨-, rfl⟩
  · match a with
    | .error f =>
      obtain ⟨_, t, ht, h⟩ := Action.bind_total h ⟨_, _, rfl⟩
      cases h
      rcases place_cases (S := S) (Action.attempt_error.1 hp) with
        ⟨_, ⟨⟩, -⟩ | ⟨k, content, c, key, loaded, read, act, hs, hr, -⟩ | ⟨-, unread, hs⟩
      · exact ⟨false, l, _, rfl, hs.append (logged ht),
          .refused key loaded read act fun h => nomatch hr h⟩
      · exact ⟨false, l, _, rfl, hs.append (logged ht), .unread unread⟩
    | .ok (k, true) =>
      obtain ⟨_, t, ht, h⟩ := Action.bind_total h ⟨_, _, rfl⟩
      cases h
      rcases place_cases (S := S) (Action.attempt_ok.1 hp) with
        ⟨_, h, -⟩ | ⟨k', content, c, key, loaded, read, act, hs, hr, hn⟩ | ⟨hn, -⟩
      · cases h
      · have hc : c.result = .returned () := Classical.byContradiction fun h => hn h _ rfl
        cases hr hc
        exact ⟨true, _, _, rfl, hs.append (logged ht), .written key loaded read act hc⟩
      · exact absurd rfl (hn _)
    | .ok (k, false) =>
      cases h
      rcases place_cases (S := S) (Action.attempt_ok.1 hp) with
        ⟨k, -, hl, key, hs⟩ | ⟨k', content, c, -, -, -, -, -, hr, hn⟩ | ⟨hn, -⟩
      · exact ⟨true, l, _, rfl, hs, .remembered key hl⟩
      · refine absurd ?_ (hn · _ rfl)
        exact fun h => nomatch hr h
      · exact absurd rfl (hn _)
  · exact absurd hp Action.attempt_not_raised
  · exact absurd rfl ends

theorem ensure_eq {o : Outcome (Bool × FontLoader)}
    (h : (ensure e.recorded l font).run w = (o, w')) (ends : o ≠ .stalled) :
    ∃ present l', o = .returned (present, l') ∧ Seen e S w l font present l' w' := by
  obtain ⟨present, l', new, rfl, span, turn⟩ := ensure_turn (S := S) h ends
  refine ⟨present, l', rfl, ?_⟩
  cases turn with
  | remembered key loaded => exact .remembered key loaded span
  | unread _ => exact .missing span fun _ hd => absurd hd List.not_mem_nil
  | refused _ _ _ act result =>
    exact .missing span fun d hd => List.mem_singleton.1 hd ▸ ⟨⟨_, act⟩, result⟩
  | written key loaded _ act result => exact .written key loaded act result span

/-- Seeing to a font with the key, from one world to another, puts it into working storage. -/
structure Provides (e : Engine σ) (k : String) (w w' : World (Recorded σ)) : Prop where
  ensured : ∃ l font l', HasKey w.host font k ∧
    (ensure e.recorded l font).run w = (.returned (true, l'), w')
  written : ∃ c content, w'.engine.steps = w.engine.steps ++ [c] ∧
    c.act = .write fontEntry content ∧ c.result = .returned ()

end

end FontLoader

end VideoExport
