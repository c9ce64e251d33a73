import Mathlib.Logic.Function.Basic
import VideoExport.Proofs.Batch.Names
import VideoExport.Proofs.Job.Twin

/-!
# Jobs that are kept apart

Two runs of a job end alike if its own entries are free at the start of both (`Job.run_isolated`). Before
their part in working storage, where they stay tied (`Job.Tie`), the engine is made ready and the font seen
to. Both end in one way, whatever was done before (`Job.exists_ready`, `Job.prepareFont_ends`): the font of
a job is in place with its key remembered, or it is neither (`FontLoader.Resolves`).
-/

set_option autoImplicit false

namespace VideoExport

variable {σ κ α : Type} {e : Engine σ} {v : StorageView e} {Usual : World σ → Prop}

/-! ## Surroundings -/

/-- In usual worlds with certain files, a question of the host is always answered in the same way, and to
ask it leaves the world usual. -/
def Host.Answers (Usual : World σ → Prop) (Staged : FileTree → Prop) (x : Action Host α)
    (o : Outcome α) : Prop :=
  ∀ w : World σ, Usual w → Staged w.host.files → ∃ h, x.run w.host = (o, h) ∧ Usual { w with host := h }

/-- What a job asks of its surroundings in usual worlds has always the same answer: how long a video is,
whose font is wanted, and what that font is. -/
structure Surroundings (Usual : World σ → Prop) (Staged : FileTree → Prop) (probe : DurationProbe κ)
    (loader : FontLoader) (font : Option MediaFile) : Prop where
  probe : ∀ path, ∃ o, ∀ (w : World σ) (client : κ), Usual w → Staged w.host.files →
    ∃ h, (probe path).run ⟨w.host, client⟩ = (o, ⟨h, client⟩) ∧ h.files = w.host.files ∧
      Usual { w with host := h }
  key : ∃ o, Host.Answers Usual Staged (FontLoader.key font) o
  content : ∃ o, Host.Answers Usual Staged (loader.content font) o

theorem Surroundings.mono {Staged Staged' : FileTree → Prop} {probe : DurationProbe κ}
    {loader : FontLoader} {font : Option MediaFile} (h : Surroundings Usual Staged probe loader font)
    (sub : ∀ t, Staged' t → Staged t) : Surroundings Usual Staged' probe loader font where
  probe path := (h.probe path).imp fun _ answers w client usual staged =>
    answers w client usual (sub _ staged)
  key := h.key.imp fun _ answers w usual staged => answers w usual (sub _ staged)
  content := h.content.imp fun _ answers w usual staged => answers w usual (sub _ staged)

namespace World

/-- A usual world with certain files and entries. -/
structure Standing (v : StorageView e) (Usual : World σ → Prop) (t : FileTree)
    (E : String → Option ByteArray) (w : World σ) : Prop where
  usual : Usual w
  files : w.host.files = t
  entries : v.entry w = E

namespace Standing

variable {t : FileTree} {E : String → Option ByteArray} (isolated : e.Isolated v Usual)
include isolated

/-- The entries stay when the host changes. -/
theorem of_host {w : World σ} {h : Host} (hw : Standing v Usual t E w)
    (usual : Usual { w with host := h }) (files : h.files = w.host.files) :
    Standing v Usual t E { w with host := h } where
  usual := usual
  files := files.trans hw.files
  entries := by
    rw [← hw.entries]
    exact isolated.own rfl

theorem always_host {Staged : FileTree → Prop} {x : Action Host α} {o : Outcome α}
    (answers : Host.Answers Usual Staged x o) (keeps : x.Follows Host.keepsFiles) (staged : Staged t) :
    (liftM x : Action (World σ) α).Always (Standing v Usual t E) o (Standing v Usual t E) := by
  intro w hw
  obtain ⟨h, ran, usual⟩ := answers w hw.usual (hw.files ▸ staged)
  have files : h.files = w.host.files := keeps.of_run ran
  show (x.run w.host).1 = o ∧ Standing v Usual t E { w with host := (x.run w.host).2 }
  rw [ran]
  exact ⟨rfl, hw.of_host isolated usual files⟩

theorem always_log (level : Level) (source message : String) :
    (liftM (Host.log level source message) : Action (World σ) Unit).Always (Standing v Usual t E)
      (.returned ()) (Standing v Usual t E) := fun _ hw =>
  ⟨rfl, hw.of_host isolated (isolated.elsewhere _ _ hw.usual) rfl⟩

theorem always_load : e.load.Always (Standing v Usual t E) (.returned ()) (Standing v Usual t E) := by
  intro w hw
  obtain ⟨usual, files⟩ := isolated.step (.load w) hw.usual
  refine ⟨isolated.load hw.usual, usual, files.trans hw.files, ?_⟩
  rw [← hw.entries]
  exact funext fun n => v.frame (.load w) id

theorem always_reset : e.reset.Always (Standing v Usual t E) (.returned ())
    (Standing v Usual t fun _ => none) := by
  intro w hw
  obtain ⟨usual, files⟩ := isolated.step (.reset w) hw.usual
  obtain ⟨ends, empty⟩ := isolated.reset hw.usual
  exact ⟨ends, usual, files.trans hw.files, funext empty⟩

/-- Whether an entry can be written does not depend on the world. -/
theorem exists_write (name : String) (content : ByteArray) : ∃ o, ∀ t E,
    (e.write name content).Always (Standing v Usual t E) o (Standing v Usual t
      (match o with
        | .returned () => Function.update E name (some content)
        | _ => E)) := by
  by_cases there : ∃ w, Usual w
  · obtain ⟨w₀, h₀⟩ := there
    refine ⟨((e.write name content).run w₀).1, fun t E w hw => ?_⟩
    have ends := isolated.write name content hw.usual h₀
    obtain ⟨usual, files⟩ := isolated.step (.write name content w) hw.usual
    have written := isolated.written name content hw.usual
    have frame {n : String} (hn : n ≠ name) :
        v.entry ((e.write name content).run w).2 n = v.entry w n := v.frame (.write name content w) hn
    rw [ends] at written
    refine ⟨ends, usual, files.trans hw.files, funext fun n => ?_⟩
    by_cases hn : n = name
    · rw [hn]
      refine written.trans ?_
      rw [hw.entries]
      rcases ((e.write name content).run w₀).1 with _ | _ | _
      · exact (Function.update_self name (some content) E).symm
      · rfl
      · rfl
    · refine (frame hn).trans ?_
      rw [hw.entries]
      rcases ((e.write name content).run w₀).1 with _ | _ | _
      · exact (Function.update_of_ne hn (some content) E).symm
      · rfl
      · rfl
  · exact ⟨.returned (), fun _ _ w hw => absurd ⟨w, hw.usual⟩ there⟩

end Standing

end World

/-! ## The font -/

namespace FontLoader

open World

variable {loader : FontLoader} {font : Option MediaFile} {Staged : FileTree → Prop}

/-- The loader when it remembers a font, given by its key and its content, or none. -/
def holding (l : FontLoader) (F : Option (String × ByteArray)) : FontLoader :=
  { l with loaded := F.map (·.1) }

/-- The font of a job is `F`, if one can be had: once it was seen to, that is what is remembered and what
stands in storage; before, that may be so already, or nothing is remembered and nothing stands there. -/
def Resolves (v : StorageView e) (Usual : World σ → Prop) (Staged : FileTree → Prop)
    (loader : FontLoader) (font : Option MediaFile) (F : Option (String × ByteArray)) : Prop :=
  ∃ o, (o = .stalled ∨ o = .returned (F.isSome, loader.holding F)) ∧
    ∀ t E G, Staged t → G = none ∨ G = F → E fontEntry = G.map (·.2) →
      (ensure e (loader.holding G) font).Always (Standing v Usual t E) o
        (Standing v Usual t (Function.update E fontEntry (F.map (·.2))))

variable {t : FileTree} {E E' : String → Option ByteArray} {F : Option (String × ByteArray)}

/-- What comes of placing a font. -/
def placed (l : FontLoader) : Outcome (String × Bool) → Outcome (Bool × FontLoader)
  | .returned (_, false) => .returned (true, l)
  | .returned (key, true) => .returned (true, { l with loaded := some key })
  | .raised _ => .returned (false, l)
  | .stalled => .stalled

section
variable (isolated : e.Isolated v Usual)
include isolated

theorem always_ensure {l : FontLoader} {o : Outcome (String × Bool)}
    (h : (place e l font).Always (Standing v Usual t E) o (Standing v Usual t E')) :
    (ensure e l font).Always (Standing v Usual t E) (placed l o) (Standing v Usual t E') := by
  match o with
  | .stalled => exact h.attempt.bind_stalled
  | .raised f => exact h.attempt.bind (.bind (Standing.always_log isolated _ _ _) (.pure _))
  | .returned (key, false) => exact h.attempt.bind (.pure _)
  | .returned (key, true) => exact h.attempt.bind (.bind (Standing.always_log isolated _ _ _) (.pure _))

/-- A font that is never placed. -/
theorem resolves_none {o : Outcome (String × Bool)} (never : ∀ p, o ≠ .returned p)
    (h : ∀ t E, Staged t → E fontEntry = none → (place e (loader.holding none) font).Always
      (Standing v Usual t E) o (Standing v Usual t E)) :
    Resolves v Usual Staged loader font none := by
  refine ⟨placed (loader.holding none) o, ?_, fun t E G staged hG missing => ?_⟩
  · match o with
    | .stalled => exact .inl rfl
    | .raised f => exact .inr rfl
    | .returned p => exact absurd rfl (never p)
  · obtain rfl : G = none := hG.elim id id
    rw [← missing, Function.update_eq_self]
    exact always_ensure isolated (h t E staged missing)

/-- There is a font that a job has, or there is none that it can have. -/
theorem exists_resolves {probe : DurationProbe κ}
    (surroundings : Surroundings Usual Staged probe loader font) :
    ∃ F, Resolves v Usual Staged loader font F := by
  obtain ⟨key?, answers⟩ := surroundings.key
  obtain ⟨content?, answers'⟩ := surroundings.content
  have keyed {t E} (staged : Staged t) := Standing.always_host (v := v) (t := t) (E := E) isolated answers
    (follows_key font) staged
  have fetched {t E} (staged : Staged t) := Standing.always_host (v := v) (t := t) (E := E) isolated answers'
    (follows_content loader font) staged
  match key? with
  | .stalled => exact ⟨none, resolves_none isolated (o := .stalled) nofun fun t E staged _ => (keyed staged).bind_stalled⟩
  | .raised f => exact ⟨none, resolves_none isolated (o := .raised f) nofun fun t E staged _ => (keyed staged).bind_raised⟩
  | .returned key =>
    have unloaded {t E E'} {o : Outcome (String × Bool)} (staged : Staged t)
        (h : (do
          e.write fontEntry (← loader.content font)
          return (key, true) : Action (World σ) (String × Bool)).Always (Standing v Usual t E) o
            (Standing v Usual t E')) :
        (place e (loader.holding none) font).Always (Standing v Usual t E) o (Standing v Usual t E') := by
      refine (keyed staged).bind ?_
      have free : (loader.holding none).loaded ≠ some key := nofun
      rw [if_neg free]
      exact h
    match content? with
    | .stalled =>
      exact ⟨none, resolves_none isolated (o := .stalled) nofun fun t E staged _ =>
        unloaded staged (fetched staged).bind_stalled⟩
    | .raised f =>
      exact ⟨none, resolves_none isolated (o := .raised f) nofun fun t E staged _ =>
        unloaded staged (fetched staged).bind_raised⟩
    | .returned content =>
      obtain ⟨o, written⟩ := Standing.exists_write isolated fontEntry content
      match o with
      | .stalled =>
        exact ⟨none, resolves_none isolated (o := .stalled) nofun fun t E staged _ =>
          unloaded staged (.bind (fetched staged) (written t E).bind_stalled)⟩
      | .raised f =>
        exact ⟨none, resolves_none isolated (o := .raised f) nofun fun t E staged _ =>
          unloaded staged (.bind (fetched staged) (written t E).bind_raised)⟩
      | .returned () =>
        refine ⟨some (key, content), _, .inr rfl, fun t E G staged hG there => ?_⟩
        rcases hG with rfl | rfl
        · exact always_ensure isolated (o := .returned (key, true)) (unloaded staged <|
            .bind (fetched staged) (.bind (written t E) (.pure _)))
        · have same : Function.update E fontEntry (some content) = E := by
            rw [← show E fontEntry = some content from there, Function.update_eq_self]
          show Action.Always _ _ _ (Standing v Usual t (Function.update E fontEntry (some content)))
          rw [same]
          refine always_ensure isolated (o := .returned (key, false)) ((keyed staged).bind ?_)
          have held : (loader.holding (some (key, content))).loaded = some key := rfl
          rw [if_pos held]
          exact .pure _

end

end FontLoader

namespace Job

open World

theorem world_run {x : Action (World σ) α} {j : Job σ κ} {o : Outcome α} {w : World σ}
    (h : x.run j.toWorld = (o, w)) :
    (liftM x : Action (Job σ κ) α).run j = (o, { j with toWorld := w }) := by
  show ((x.run j.toWorld).1, { j with toWorld := (x.run j.toWorld).2 }) = _
  rw [h]

/-! ## Between jobs -/

/-- What a job keeps elsewhere than with its engine and its runner. -/
def outside (j : Job σ κ) : FileTree × κ × List String × Progress.Tracker :=
  (j.host.files, j.client, j.log, j.tracker)

theorem outside_eq {j : Job σ κ} {t : FileTree} {m : κ} {log : List String} {tracker : Progress.Tracker} :
    j.outside = (t, m, log, tracker) ↔
      j.host.files = t ∧ j.client = m ∧ j.log = log ∧ j.tracker = tracker := by
  simp [outside]

/-- The state `j` has what it had outside, and has `P`. -/
def Kept (P : Job σ κ → Prop) (z : FileTree × κ × List String × Progress.Tracker) (j : Job σ κ) : Prop :=
  P j ∧ j.outside = z

/-- The world is usual, the font `G` is remembered and in place, and certain names are free. -/
structure Rests (v : StorageView e) (Usual : World σ → Prop) (c : Config) (loader : FontLoader)
    (free : String → Prop) (G : Option (String × ByteArray)) (j : Job σ κ) : Prop where
  usual : Usual j.toWorld
  config : j.runner.config = c
  fonts : j.runner.fonts = loader.holding G
  entry : v.entry j.toWorld fontEntry = G.map (·.2)
  free : ∀ n, free n → v.entry j.toWorld n = none

/-- As before a job whose font is `F`: that is in place, or none is. -/
def Resting (v : StorageView e) (Usual : World σ → Prop) (c : Config) (loader : FontLoader)
    (free : String → Prop) (F : Option (String × ByteArray)) (j : Job σ κ) : Prop :=
  ∃ G, (G = none ∨ G = F) ∧ Rests v Usual c loader free G j

theorem Resting.config {c : Config} {loader : FontLoader} {free : String → Prop}
    {F : Option (String × ByteArray)} {j : Job σ κ} (h : Resting v Usual c loader free F j) :
    j.runner.config = c := by
  obtain ⟨_, -, h⟩ := h
  exact h.config

theorem Resting.mono {c : Config} {loader : FontLoader} {free free' : String → Prop}
    {F : Option (String × ByteArray)} {j : Job σ κ} (h : Resting v Usual c loader free F j)
    (sub : ∀ n, free' n → free n) : Resting v Usual c loader free' F j := by
  obtain ⟨G, hG, h⟩ := h
  exact ⟨G, hG, h.usual, h.config, h.fonts, h.entry, fun n hn => h.free n (sub n hn)⟩

/-- What the client has does not matter. -/
theorem Resting.of_client {c : Config} {loader : FontLoader} {free : String → Prop}
    {F : Option (String × ByteArray)} {j : Job σ κ} (h : Resting v Usual c loader free F j) (m : κ) :
    Resting v Usual c loader free F { j with client := m } := by
  obtain ⟨G, hG, h⟩ := h
  exact ⟨G, hG, h.usual, h.config, h.fonts, h.entry, h.free⟩

variable {c : Config} {loader : FontLoader} {free : String → Prop} {F G : Option (String × ByteArray)}
  {z : FileTree × κ × List String × Progress.Tracker} {Staged : FileTree → Prop}
  {probe : DurationProbe κ} {r : JobRequest} {s : Settings} {o : Outcome α}

section
variable (isolated : e.Isolated v Usual)
include isolated

theorem Rests.of_host {j : Job σ κ} {h : Host} (hj : Rests v Usual c loader free G j)
    (usual : Usual { j.toWorld with host := h }) :
    Rests v Usual c loader free G { j with host := h } := by
  have entries : v.entry { j.toWorld with host := h } = v.entry j.toWorld := isolated.own rfl
  exact ⟨usual, hj.config, hj.fonts, (congrFun entries _).trans hj.entry,
    fun n hn => (congrFun entries n).trans (hj.free n hn)⟩

theorem always_note (level : Level) (message : String) :
    (note level message : Action (Job σ κ) Unit).Always (Kept (Rests v Usual c loader free G) z)
      (.returned ()) (Kept (Rests v Usual c loader free G) z) := fun _ hj =>
  ⟨rfl, hj.1.of_host isolated (isolated.elsewhere _ _ hj.1.usual), hj.2⟩

theorem always_renew : (renew e : Action (Job σ κ) Unit).Always
    (Kept (Resting v Usual c loader free F) z) (.returned ())
    (Kept (Resting v Usual c loader free F) z) := by
  rintro j ⟨⟨G, hG, hj⟩, hz⟩
  unfold renew
  rw [Action.run_bind_of_returned (Action.run_get j)]
  split
  · have emptied : ((liftM e.reset : Action (Job σ κ) Unit) >>= fun _ => updateRunner fun q =>
        { q with fonts := q.fonts.forget, trusted := true }).Always
          (Kept (Rests v Usual c loader free G) z) (.returned ())
          (Kept (Rests v Usual c loader free none) z) := by
      rintro j ⟨hj, hz⟩
      obtain ⟨ends, after⟩ := Standing.always_reset isolated j.toWorld ⟨hj.usual, rfl, rfl⟩
      rw [Action.run_bind_of_returned (world_run (Prod.ext ends rfl))]
      refine ⟨rfl, ⟨after.usual, hj.config, ?_, congrFun after.entries _,
        fun n _ => congrFun after.entries n⟩, ?_⟩
      · show j.runner.fonts.forget = _
        rw [hj.fonts]
        rfl
      · rw [← hz]
        exact congrArg (·, j.client, j.log, j.tracker) after.files
    obtain ⟨ran, noted⟩ := (always_note isolated .warning _).run ⟨hj, hz⟩
    rw [Action.run_bind_of_returned ran]
    obtain ⟨ends, rests, hz⟩ := emptied _ noted
    exact ⟨ends, ⟨none, .inl rfl, rests⟩, hz⟩
  · exact ⟨rfl, ⟨G, hG, hj⟩, hz⟩

omit isolated in
theorem always_distrusting {x : Action (Job σ κ) α} {P Q : Job σ κ → Prop} {a : α}
    (h : x.Always P (.returned a) Q) : (distrusting x).Always P (.returned a) Q :=
  h.attempt.bind (.pure a)

theorem always_ensureLoaded : (ensureLoaded e : Action (Job σ κ) Unit).Always
    (Kept (Rests v Usual c loader free G) z) (.returned ())
    (Kept (Rests v Usual c loader free G) z) := by
  have loaded : (liftM e.load : Action (Job σ κ) Unit).Always (Kept (Rests v Usual c loader free G) z)
      (.returned ()) (Kept (Rests v Usual c loader free G) z) := by
    rintro j ⟨hj, hz⟩
    obtain ⟨ends, after⟩ := Standing.always_load isolated j.toWorld ⟨hj.usual, rfl, rfl⟩
    refine ⟨ends, ⟨after.usual, hj.config, hj.fonts, (congrFun after.entries _).trans hj.entry,
      fun n hn => (congrFun after.entries n).trans (hj.free n hn)⟩, ?_⟩
    rw [← hz]
    exact congrArg (·, j.client, j.log, j.tracker) after.files
  intro j hj
  unfold ensureLoaded
  rw [Action.run_bind_of_returned (Action.run_get j)]
  split
  · exact ⟨rfl, hj⟩
  · exact always_distrusting (Deadline.always_call _ _ loaded) j hj

/-- The length of a source is always the same, unless finding it never ends. -/
theorem exists_sourceDuration (surroundings : Surroundings Usual Staged probe loader r.attachments.font)
    (source : MediaFile) : ∃ o, (o = .stalled ∨ ∃ d, o = .returned d) ∧
      ∀ {free G z}, Staged z.1 → (sourceDuration probe source : Action (Job σ κ) Number).Always
        (Kept (Rests v Usual c loader free G) z) o (Kept (Rests v Usual c loader free G) z) := by
  obtain ⟨o, answers⟩ := surroundings.probe source.path
  have probed {free G z} (staged : Staged z.1) :
      (liftM (probe source.path) : Action (Job σ κ) (Option Number)).Always
        (Kept (Rests v Usual c loader free G) z) o (Kept (Rests v Usual c loader free G) z) := by
    rintro j ⟨hj, rfl⟩
    obtain ⟨h, ran, files, usual⟩ := answers j.toWorld j.client hj.usual staged
    show ((probe source.path).run ⟨j.host, j.client⟩).1 = o ∧ Kept _ _ { j with
      host := ((probe source.path).run ⟨j.host, j.client⟩).2.host
      client := ((probe source.path).run ⟨j.host, j.client⟩).2.client }
    rw [ran]
    exact ⟨rfl, hj.of_host isolated usual, congrArg (·, j.client, j.log, j.tracker) files⟩
  rcases o with (_ | n) | f | _
  · exact ⟨_, .inr ⟨_, rfl⟩, fun staged => (probed staged).attempt.bind (.pure _)⟩
  · exact ⟨_, .inr ⟨_, rfl⟩, fun staged => (probed staged).attempt.bind (.pure _)⟩
  · exact ⟨_, .inr ⟨_, rfl⟩, fun staged => (probed staged).attempt.bind
      (.bind (always_note isolated _ _) (.pure _))⟩
  · exact ⟨.stalled, .inl rfl, fun staged => (probed staged).attempt.bind_stalled⟩

omit isolated in
theorem always_resting {x : Action (Job σ κ) α}
    (h : ∀ G, x.Always (Kept (Rests v Usual c loader free G) z) o
      (Kept (Rests v Usual c loader free G) z)) :
    x.Always (Kept (Resting v Usual c loader free F) z) o
      (Kept (Resting v Usual c loader free F) z) := by
  rintro j ⟨⟨G, hG, hj⟩, hz⟩
  obtain ⟨ends, after, hz⟩ := h G j ⟨hj, hz⟩
  exact ⟨ends, ⟨G, hG, after⟩, hz⟩

/-- Making the engine ready always ends in the same way, whatever was done before. -/
theorem exists_ready (surroundings : Surroundings Usual Staged probe loader r.attachments.font)
    (s : Settings) : ∃ o, (o = .stalled ∨ ∃ d, o = .returned d) ∧
      ∀ {free F z}, Staged z.1 → (ready e probe r s : Action (Job σ κ) Number).Always
        (Kept (Resting v Usual c loader free F) z) o (Kept (Resting v Usual c loader free F) z) := by
  have engine {free F z} : (ensureEngine e : Action (Job σ κ) Unit).Always
      (Kept (Resting v Usual c loader free F) z) (.returned ())
      (Kept (Resting v Usual c loader free F) z) :=
    (always_renew isolated).bind (always_resting fun _ => always_ensureLoaded isolated)
  cases fades : s.fadeEnabled with
  | false =>
    refine ⟨_, .inr ⟨.real (.zero false), rfl⟩, fun _ => engine.bind ?_⟩
    rw [fades]
    exact .pure _
  | true =>
    obtain ⟨o, ends, found⟩ := exists_sourceDuration (c := c) isolated surroundings r.source
    refine ⟨o, ends, fun staged => engine.bind ?_⟩
    rw [fades]
    exact always_resting fun _ => found staged

/-- The font of a job with certain settings is `F`, if one can be had and the job shows a text. -/
def HasFont (v : StorageView e) (Usual : World σ → Prop) (Staged : FileTree → Prop)
    (loader : FontLoader) (font : Option MediaFile) (s : Settings) (F : Option (String × ByteArray)) :
    Prop :=
  if s.text.content.isEmpty then F = none else FontLoader.Resolves v Usual Staged loader font F

theorem exists_hasFont {font : Option MediaFile}
    (surroundings : Surroundings Usual Staged probe loader font) (s : Settings) :
    ∃ F, HasFont v Usual Staged loader font s F := by
  unfold HasFont
  split
  · exact ⟨none, rfl⟩
  · exact FontLoader.exists_resolves isolated surroundings

omit isolated in
/-- Seeing to the font never ends, or it always returns, and then the font is in place. -/
theorem prepareFont_ends (has : HasFont v Usual Staged loader r.attachments.font s F) :
    (∀ {free z}, Staged z.1 → (prepareFont e r s : Action (Job σ κ) Unit).Always
      (Kept (Resting v Usual c loader free F) z) .stalled fun _ => True) ∨
    ∀ {free z}, Staged z.1 → ¬ free fontEntry → (prepareFont e r s : Action (Job σ κ) Unit).Always
      (Kept (Resting v Usual c loader free F) z) (.returned ())
      (Kept (Rests v Usual c loader free F) z) := by
  unfold prepareFont
  unfold HasFont at has
  split at has
  · rename_i empty
    refine .inr fun _ _ => ?_
    rw [empty]
    rintro j ⟨⟨G, hG, hj⟩, hz⟩
    obtain rfl : G = F := hG.elim (·.trans has.symm) id
    exact ⟨rfl, hj, hz⟩
  · rename_i filled
    rw [Bool.not_eq_true] at filled
    rw [filled]
    obtain ⟨o, rfl | rfl, seen⟩ := has
    · refine .inl fun staged => Action.Always.bind_stalled ?_
      rintro j ⟨⟨G, hG, hj⟩, rfl⟩
      obtain ⟨ran, -⟩ :=
        (seen j.host.files (v.entry j.toWorld) G staged hG hj.entry).run ⟨hj.usual, rfl, rfl⟩
      rw [← hj.fonts] at ran
      unfold ensureFont
      rw [Action.run_bind_of_returned (Action.run_get j), Action.run_bind, world_run ran]
      exact ⟨rfl, trivial⟩
    · refine .inr fun staged spare => Action.Always.bind (a := F.isSome) ?_ (.pure ())
      rintro j ⟨⟨G, hG, hj⟩, rfl⟩
      obtain ⟨ran, after⟩ :=
        (seen j.host.files (v.entry j.toWorld) G staged hG hj.entry).run ⟨hj.usual, rfl, rfl⟩
      rw [← hj.fonts] at ran after
      unfold ensureFont
      rw [Action.run_bind_of_returned (Action.run_get j), Action.run_bind_of_returned (world_run ran)]
      refine ⟨rfl, ⟨after.usual, hj.config, rfl, ?_, fun n hn => ?_⟩, ?_⟩
      · exact (congrFun after.entries _).trans (Function.update_self ..)
      · refine (congrFun after.entries n).trans ?_
        rw [Function.update_of_ne fun (he : n = fontEntry) => spare (he ▸ hn)]
        exact hj.free n hn
      · exact congrArg (·, j.client, j.log, j.tracker) after.files

/-! ## Two runs of a job -/

omit isolated in
/-- A job that begins, whose engine is ready and whose font is seen to, goes on with its part in working
storage. -/
theorem run_of_prepared {listener : Option (ProgressListener κ)} {j i a b : Job σ κ} {d : Number}
    (begins : Begins r s j i) (ready' : (ready e probe r s).run i = (.returned d, a))
    (prepared : (prepareFont e r s).run a = (.returned (), b)) :
    (run e probe r listener).run j =
      (storageRest e r s d listener).run b := by
  have performed : (perform e probe r s listener).run i = (inStorage e r s d listener).run b := by
    unfold perform
    rw [Action.run_bind_of_returned ready', Action.run_bind_of_returned prepared]
  unfold storageRest
  rw [run_of_begins begins, Action.run_bind, Action.run_bind, Action.run_attempt, Action.run_attempt,
    performed]

/-- At its start a job forgets the log and the progress of the one before. -/
theorem always_begin (t : FileTree) (m : κ) : (begin r : Action (Job σ κ) Unit).Always
    (fun j => Resting v Usual c loader free F j ∧ j.host.files = t ∧ j.client = m) (.returned ())
    (Kept (Resting v Usual c loader free F) (t, m, [], {})) := by
  refine Action.Always.bind (.modify ?_) (always_resting fun _ => always_note isolated _ _)
  rintro j ⟨⟨G, hG, hj⟩, rfl, rfl⟩
  exact ⟨⟨G, hG, hj.usual, hj.config, hj.fonts, hj.entry, hj.free⟩, rfl⟩

/-- A job whose settings and log are accepted never ends, or it always comes to its part in working
storage, with the same length of its source and with its font in place. -/
theorem run_opens (listener : Option (ProgressListener κ))
    (surroundings : Surroundings Usual Staged probe loader r.attachments.font)
    (has : HasFont v Usual Staged loader r.attachments.font s F)
    (settings : Settings.sanitize r.settings r.attachments.image.isSome = .ok s)
    (limit : (c.logBuffer.mapM checkLength).map (fun _ => ()) = .ok ()) :
    (∀ {free} {j : Job σ κ}, Staged j.host.files → ¬ free fontEntry →
      Resting v Usual c loader free F j → ((run e probe r listener).run j).1 = .stalled) ∨
    ∃ d, ∀ {free} {j : Job σ κ}, Staged j.host.files → ¬ free fontEntry →
      Resting v Usual c loader free F j → ∃ b, (run e probe r listener).run j =
          (storageRest e r s d listener).run b ∧
        Kept (Rests v Usual c loader free F) (j.host.files, j.client, [], {}) b := by
  have begins {free} {j : Job σ κ} (hj : Resting v Usual c loader free F j) : ∃ i, Begins r s j i ∧
      Kept (Resting v Usual c loader free F) (j.host.files, j.client, [], {}) i := by
    obtain ⟨ran, kept⟩ := (always_begin (r := r) isolated j.host.files j.client).run ⟨hj, rfl, rfl⟩
    exact ⟨_, ⟨settings, by rw [hj.config]; exact limit, ran⟩, kept⟩
  -- what does not end makes the run not end
  have stalls {j i : Job σ κ} (hi : Begins r s j i)
      (h : ((perform e probe r s listener).run i).1 = .stalled) :
      ((run e probe r listener).run j).1 = .stalled := by
    rw [run_of_begins hi, Action.run_bind, Action.attempt_stalled.2 (Prod.ext h rfl)]
  obtain ⟨o, rfl | ⟨d, rfl⟩, readied⟩ := exists_ready (c := c) (r := r) isolated surroundings s
  · refine .inl fun staged _ hj => ?_
    obtain ⟨i, hi, kept⟩ := begins hj
    refine stalls hi ?_
    unfold perform
    rw [Action.run_bind, ((readied staged).run kept).1]
  · rcases prepareFont_ends (κ := κ) (c := c) (r := r) has with never | prepared
    · refine .inl fun staged _ hj => ?_
      obtain ⟨i, hi, kept⟩ := begins hj
      obtain ⟨ran, kept⟩ := (readied staged).run kept
      refine stalls hi ?_
      unfold perform
      rw [Action.run_bind_of_returned ran, Action.run_bind, ((never staged).run kept).1]
    · refine .inr ⟨d, fun staged spare hj => ?_⟩
      obtain ⟨i, hi, kept⟩ := begins hj
      obtain ⟨ran, kept⟩ := (readied staged).run kept
      obtain ⟨ran', kept⟩ := (prepared staged spare).run kept
      exact ⟨_, run_of_prepared hi ran ran', kept⟩

/-- Two runs of a job, from states in which the entries of the job are free, end alike, whatever else was
done before. -/
theorem run_isolated {Files : FileTree → FileTree → Prop} {Client : κ → κ → Prop}
    {listener : Option (ProgressListener κ)} {free' : String → Prop} {i j k j' : Job σ κ}
    {o : Outcome JobResult} (surroundings : Surroundings Usual Staged probe loader r.attachments.font)
    (has : HasFont v Usual Staged loader r.attachments.font s F)
    (accord : Accord Files Client r listener) (staged : ∀ t u, Files t u → Staged t ∧ Staged u)
    (own : ∀ n, JobNames.Bears r.id n → free n ∧ free' n) (bare : ∀ n, IsBare n → free n ∧ free' n)
    (spare : ¬ free fontEntry) (spare' : ¬ free' fontEntry) (begins : Begins r s j i)
    (left : Resting v Usual c loader free F j) (right : Resting v Usual c loader free' F k)
    (files : Files j.host.files k.host.files) (client : Client j.client k.client)
    (ran : (run e probe r listener).run j = (o, j')) (ends : o ≠ .stalled) :
    ∃ k', (run e probe r listener).run k = (o, k') ∧
      Resting v Usual c loader (fun n => free n ∧ ¬ JobNames.Bears r.id n) F j' ∧
      Files j'.host.files k'.host.files ∧ Client j'.client k'.client := by
  have limit := begins.limit
  rw [left.config] at limit
  rcases run_opens isolated listener surroundings has begins.settings limit with
    never | ⟨d, opens⟩
  · exact absurd (never (staged _ _ files).1 spare left) (by rw [ran]; exact ends)
  obtain ⟨b, ran₁, hb, outside⟩ := opens (staged _ _ files).1 spare left
  obtain ⟨b', ran₂, hb', outside'⟩ := opens (staged _ _ files).2 spare' right
  let T : Tie e κ := ⟨v, Usual, Files, (namesOf r s).all, v.entry b.toWorld, v.entry b'.toWorld, c,
    loader.holding F, Client⟩
  have suits : T.Suits r s listener := { accord with
    own := rfl
    font := hb.entry.trans hb'.entry.symm
    bare := fun n hn => (hb.free n (bare n hn).1).trans (hb'.free n (bare n hn).2).symm }
  obtain ⟨files₁, client₁, log₁, tracker₁⟩ := outside_eq.1 outside
  obtain ⟨files₂, client₂, log₂, tracker₂⟩ := outside_eq.1 outside'
  have twin : T.Worlds b.toWorld b'.toWorld :=
    { left := hb.usual
      right := hb'.usual
      files := by
        rw [files₁, files₂]
        exact files
      others := fun _ _ => ⟨rfl, rfl⟩
      own := fun n hn => by
        obtain ⟨here, there⟩ := own n (JobNames.bears_of_mem hn)
        exact (hb.free n here).trans (hb'.free n there).symm }
  have tied : T.Jobs { b with claimed := [] } { b' with claimed := [] } :=
    ⟨⟨twin, rfl, fun _ h => absurd h List.not_mem_nil⟩, ⟨hb.config, hb'.config⟩, ⟨hb.fonts, hb'.fonts⟩,
      log₁.trans log₂.symm, tracker₁.trans tracker₂.symm, by rw [client₁, client₂]; exact client⟩
  obtain ⟨same, after⟩ := (agrees_storageRest isolated suits d).run_eq tied
  rw [← storageRest_unclaimed, ← ran₁, ran, ← storageRest_unclaimed, ← ran₂] at same after
  refine ⟨((run e probe r listener).run k).2, Prod.ext same.symm rfl, ⟨F, .inr rfl, after.storage.world.left, after.config.1,
    after.fonts.1, ?_, fun n hn => ?_⟩, after.storage.world.files, after.client⟩
  · rw [(after.storage.world.others fontEntry JobNames.fontEntry_notMem).1]
    exact hb.entry
  · rw [(after.storage.world.others n fun h => hn.2 (JobNames.bears_of_mem h)).1]
    exact hb.free n hn.1

end

end Job

end VideoExport
