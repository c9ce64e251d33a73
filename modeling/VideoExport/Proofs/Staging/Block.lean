import Mathlib.Data.List.DropRight
import VideoExport.Proofs.Engine.Storage
import VideoExport.Proofs.Job.Anatomy

/-!
# Blocks of work in storage

A block works in storage and, however it is left, ends with a release of what it claimed (`within`). What it
does is a `Block` of deeds, each of which may depend on how those before it ended. What is claimed is at any
time what was claimed or staged since the last release, in the order of the first claims
(`Block.perform_eq`). So on leaving a block the engine is asked to delete each of these names once, the last
one first; entries of which the block was not told stay as they are; and what the block raised is what
leaves it (`within_releases`).
-/

set_option autoImplicit false

namespace VideoExport.Storage

variable {σ α : Type} {e : Engine σ} {S : HostFrame} {s t : Storage (Recorded σ)}

/-! ## Deeds -/

/-- What can be done in storage. -/
inductive Deed where
  | stage (name : String) (content : ByteArray)
  | claim (name : String)
  | purge (names : List String)
  | discard (name : String)
  | release
  /-- Writes an entry without a claim. -/
  | write (name : String) (content : ByteArray)

namespace Deed

/-- Does a deed. -/
def perform (e : Engine σ) : Deed → Action (Storage σ) Unit
  | .stage name content => Storage.stage e name content
  | .claim name => Storage.claim name
  | .purge names => Storage.purge e names
  | .discard name => Storage.discard e name
  | .release => Storage.release e
  | .write name content => liftM (e.write name content)

/-- The names that a deed is told. -/
def names : Deed → List String
  | .stage name _ | .claim name | .discard name | .write name _ => [name]
  | .purge names => names
  | .release => []

/-- The names that a deed claims. -/
def claims : Deed → List String
  | .stage name _ | .claim name => [name].filter (!·.isEmpty)
  | .purge _ | .discard _ | .release | .write _ _ => []

def isRelease : Deed → Bool
  | .release => true
  | .stage _ _ | .claim _ | .purge _ | .discard _ | .write _ _ => false

theorem claims_subset (d : Deed) : d.claims ⊆ d.names := by
  unfold claims names
  split
  · exact List.filter_subset_self _
  · exact List.filter_subset_self _
  all_goals exact List.nil_subset _

end Deed

/-- The names that were claimed or staged since the last release, as often as they were. -/
def pending (deeds : List Deed) : List String :=
  (deeds.rtakeWhile (!·.isRelease)).flatMap Deed.claims

theorem pending_concat (deeds : List Deed) (d : Deed) :
    pending (deeds ++ [d]) = if d.isRelease then [] else pending deeds ++ d.claims := by
  unfold pending
  cases h : d.isRelease with
  | true => rw [List.rtakeWhile_concat_neg _ _ _ (by simp [h])]; rfl
  | false => rw [List.rtakeWhile_concat_pos _ _ _ (by simp [h])]; simp

theorem pending_subset (deeds : List Deed) : pending deeds ⊆ deeds.flatMap Deed.names := by
  intro n mem
  obtain ⟨d, hd, hn⟩ := List.mem_flatMap.1 mem
  exact List.mem_flatMap.2 ⟨d, (List.rtakeWhile_suffix _ _).subset hd, d.claims_subset hn⟩

/-! ## What a deed does -/

theorem claim_run (name : String) (s : Storage σ) : (claim name).run s =
    (.returned (), { s with claimed := s.claimed ++ ([name].filter (!·.isEmpty)).removeAll s.claimed }) := by
  have chosen : (if name.isEmpty || s.claimed.contains name then s
      else { s with claimed := s.claimed ++ [name] }) =
        { s with claimed := s.claimed ++ ([name].filter (!·.isEmpty)).removeAll s.claimed } := by
    cases empty : name.isEmpty <;> by_cases known : name ∈ s.claimed <;>
      simp [List.removeAll, empty, known]
  exact congrArg (Prod.mk _) chosen

/-- A deed adds its claims to what is claimed, or releases all, and touches only the names that it is told
or that were claimed. -/
theorem Deed.perform_eq {d : Deed} {o : Outcome Unit} (ran : (d.perform e.recorded).run s = (o, t))
    (ends : o ≠ .stalled) :
    t.claimed = (if d.isRelease then [] else s.claimed ++ d.claims.removeAll s.claimed) ∧
      ∃ new : List (EngineStep σ), Span e S s.toWorld new t.toWorld ∧
        ∀ c ∈ new, Job.Among (d.names ++ s.claimed) c.act := by
  have written {name : String} {content : ByteArray} {p : Outcome Unit} {u v : Storage (Recorded σ)}
      (ran : (liftM (e.recorded.write name content) : Action (Storage (Recorded σ)) Unit).run u =
        (p, v)) : v.claimed = u.claimed ∧ ∃ new : List (EngineStep σ), Span e S u.toWorld new v.toWorld ∧
          ∀ c ∈ new, Job.Among ([name] ++ s.claimed) c.act := by
    obtain ⟨w, step, rfl⟩ := world_eq ran
    obtain ⟨c, act, -, span⟩ := Span.recorded (S := S) step (.write _ _ _)
    refine ⟨rfl, [c], span, fun d mem n touched => ?_⟩
    rw [List.mem_singleton.1 mem, act] at touched
    exact touched ▸ .head _
  have deleted {names : List String} {new : List (EngineStep σ)} {told : List String}
      (acts : new.map (·.act) = deletions names) (sub : names ⊆ told) :
      ∀ c ∈ new, Job.Among told c.act := fun c mem n touched =>
    sub (Job.among_deletions acts c mem n touched)
  cases d with
  | stage name content =>
    unfold perform Storage.stage at ran
    rw [Action.run_bind_of_returned (claim_run name s)] at ran
    rcases Action.attempt_bind_eq ran with ⟨⟨⟩, v, wrote, ran⟩ | ⟨f, v, wrote, ran⟩ | ⟨-, rfl⟩
    · cases ran
      exact written wrote
    · cases ran
      exact written wrote
    · exact absurd rfl ends
  | claim name =>
    cases (claim_run name s).symm.trans ran
    exact ⟨rfl, [], .refl _, fun _ mem => absurd mem List.not_mem_nil⟩
  | purge names =>
    obtain ⟨-, kept, new, acts, span⟩ := discardAll_eq (S := S) ran ends
    refine ⟨by rw [kept]; simp [isRelease, claims, List.removeAll], new, span, deleted acts ?_⟩
    exact List.Subset.trans (List.filter_subset_self names) (List.subset_append_left _ _)
  | discard name =>
    obtain ⟨-, kept, c, act, span⟩ := discard_eq (S := S) ran ends
    refine ⟨by rw [kept]; simp [isRelease, claims, List.removeAll], [c], span, ?_⟩
    exact deleted (by rw [List.map_singleton, act]; rfl) (List.subset_append_left [name] _)
  | release =>
    obtain ⟨-, kept, new, acts, span⟩ := release_eq (S := S) ran ends
    exact ⟨kept, new, span, deleted acts (List.reverse_subset.2 (List.Subset.refl _))⟩
  | write name content =>
    obtain ⟨kept, new, span, among⟩ := written ran
    exact ⟨by rw [kept]; simp [isRelease, claims, List.removeAll], new, span, among⟩

/-! ## What is claimed -/

theorem nodup_eraseDups (names : List String) : names.eraseDups.Nodup := by
  induction names using List.reverseRecOn with
  | nil => exact .nil
  | append_singleton names name ih =>
    rw [List.eraseDups_append]
    by_cases known : name ∈ names
    · simpa [List.removeAll, known] using ih
    · have fresh : ∀ other ∈ names, other ≠ name := fun _ mem => ne_of_mem_of_not_mem mem known
      simpa [List.removeAll, known, List.nodup_append, List.eraseDups_cons] using ⟨ih, fresh⟩

/-- A deed claims one name at most. -/
theorem Deed.eraseDups_claims (d : Deed) (earlier : List String) :
    (earlier ++ d.claims).eraseDups = earlier.eraseDups ++ d.claims.removeAll earlier.eraseDups := by
  have claimed : d.claims = [] ∨ ∃ name, d.claims = [name] := by
    have filtered (name : String) : [name].filter (!·.isEmpty) = [] ∨
        ∃ name', [name].filter (!·.isEmpty) = [name'] := by
      cases empty : name.isEmpty <;> simp [empty]
    cases d with
    | stage name | claim name => exact filtered name
    | purge | discard | release | write => exact .inl rfl
  rw [List.eraseDups_append]
  rcases claimed with none | ⟨name, one⟩
  · rw [none]
    rfl
  · rw [one]
    by_cases known : name ∈ earlier <;> simp [List.removeAll, known, List.eraseDups_cons]

/-- After the deeds, of which the last ones lead from `s` to `t`: what is claimed are the names that are
pending, and on the way only names are touched that the deeds were told. -/
structure Course (e : Engine σ) (S : HostFrame) (deeds : List Deed) (s t : Storage (Recorded σ)) : Prop where
  claimed : t.claimed = (pending deeds).eraseDups
  steps : ∃ new : List (EngineStep σ), Span e S s.toWorld new t.toWorld ∧
    ∀ c ∈ new, Job.Among (deeds.flatMap Deed.names) c.act

namespace Course

variable {past later : List Deed}

theorem refl (claimed : s.claimed = (pending past).eraseDups) : Course e S past s s :=
  ⟨claimed, [], .refl _, fun _ mem => absurd mem List.not_mem_nil⟩

theorem trans {u : Storage (Recorded σ)} (first : Course e S past s u)
    (rest : Course e S (past ++ later) u t) : Course e S (past ++ later) s t := by
  obtain ⟨-, a, span, among⟩ := first
  obtain ⟨claimed, b, span', among'⟩ := rest
  refine ⟨claimed, a ++ b, span.append span', fun c mem => ?_⟩
  rcases List.mem_append.1 mem with mem | mem
  · rw [List.flatMap_append]
    exact fun n touched => List.mem_append_left _ (among c mem n touched)
  · exact among' c mem

/-- One more deed. -/
theorem deed {d : Deed} {o : Outcome Unit} (claimed : s.claimed = (pending past).eraseDups)
    (ran : (d.perform e.recorded).run s = (o, t)) (ends : o ≠ .stalled) :
    Course e S (past ++ [d]) s t := by
  obtain ⟨now, new, span, among⟩ := Deed.perform_eq (S := S) ran ends
  refine ⟨?_, new, span, fun c mem n touched => ?_⟩
  · rw [now, pending_concat, claimed]
    split
    · rfl
    · exact (d.eraseDups_claims _).symm
  · rw [List.flatMap_append, List.flatMap_singleton]
    rcases List.mem_append.1 (among c mem n touched) with told | known
    · exact List.mem_append_right _ told
    · rw [claimed, List.mem_eraseDups] at known
      exact List.mem_append_left _ (pending_subset past known)

end Course

/-! ## Blocks -/

/-- Work in storage: it ends, or does a deed and goes on as that has ended. -/
inductive Block (α : Type) where
  | leave (result : Except Failure α)
  | act (deed : Deed) (next : Except Failure Unit → Block α)

namespace Block

/-- Does the work of a block. -/
def perform (e : Engine σ) : Block α → Action (Storage σ) α
  | .leave result => .ofExcept result
  | .act deed next => do
    let ended ← (deed.perform e).attempt
    (next ended).perform e

/-- The deeds that a block does. -/
def deeds (e : Engine σ) : Block α → Storage σ → List Deed
  | .leave _, _ => []
  | .act deed next, s => deed :: match (deed.perform e).run s with
    | (.returned (), t) => (next (.ok ())).deeds e t
    | (.raised f, t) => (next (.error f)).deeds e t
    | (.stalled, _) => []

/-- A block goes on after the deeds before it. -/
theorem perform_eq {b : Block α} (past : List Deed) {o : Outcome α}
    (ran : (b.perform e.recorded).run s = (o, t)) (ends : o ≠ .stalled)
    (claimed : s.claimed = (pending past).eraseDups) :
    Course e S (past ++ b.deeds e.recorded s) s t := by
  induction b generalizing past s with
  | leave result =>
    have same : t = s := by cases result <;> cases ran <;> rfl
    rw [same, deeds, List.append_nil]
    exact .refl claimed
  | act deed next ih =>
    -- the deed, and what is left of the block once that has ended with the result `r`
    have onwards {r : Except Failure Unit} {p : Outcome Unit} {u : Storage (Recorded σ)}
        (did : (deed.perform e.recorded).run s = (p, u)) (went : p ≠ .stalled)
        (rest : ((next r).perform e.recorded).run u = (o, t)) :
        Course e S (past ++ deed :: (next r).deeds e.recorded u) s t := by
      have first : Course e S (past ++ [deed]) s u := .deed claimed did went
      have all := first.trans (ih r _ rest first.claimed)
      rwa [List.append_assoc, List.singleton_append] at all
    rcases Action.attempt_bind_eq ran with ⟨⟨⟩, u, did, rest⟩ | ⟨f, u, did, rest⟩ | ⟨-, rfl⟩
    · rw [deeds, did]
      exact onwards did nofun rest
    · rw [deeds, did]
      exact onwards did nofun rest
    · exact absurd rfl ends

end Block

/-- Does work in storage where nothing is claimed yet, and ends with a release. -/
def within (e : Engine σ) (x : Action (Storage σ) α) : Action (Storage σ) α := do
  .modify fun s => { s with claimed := [] }
  x.ensuring (release e)

/-- The work of a block, and the deletions when it is left. -/
theorem within_eq {b : Block α} {o : Outcome α}
    (ran : (within e.recorded (b.perform e.recorded)).run s = (o, t)) (ends : o ≠ .stalled) :
    ∃ u, (b.perform e.recorded).run { s with claimed := [] } = (o, u) ∧ t.claimed = [] ∧
      ∃ work last : List (EngineStep σ), Span e S s.toWorld work u.toWorld ∧
        Span e S u.toWorld last t.toWorld ∧
        (∀ c ∈ work, Job.Among
          ((b.deeds e.recorded { s with claimed := [] }).flatMap Deed.names) c.act) ∧
        last.map (·.act) =
          deletions (pending (b.deeds e.recorded { s with claimed := [] })).eraseDups.reverse := by
  obtain ⟨_, _, first, ran⟩ := Action.bind_total ran ⟨_, _, rfl⟩
  cases first
  obtain ⟨p, u, did, went, last⟩ := Action.ensuring_eq ran ends
  obtain ⟨claimed, work, span, among⟩ := Block.perform_eq (S := S) [] did went rfl
  rw [List.nil_append] at claimed among
  rcases last with ⟨left, rfl⟩ | ⟨f, left, rfl⟩
  · obtain ⟨-, empty, last, acts, span'⟩ := release_eq (S := S) left nofun
    exact ⟨u, did, empty, work, last, span, span', among, claimed ▸ acts⟩
  · obtain ⟨⟨⟩, -⟩ := release_eq (S := S) left nofun

/-- However a block is left, the engine is then asked to delete, once and the last one first, each name that
was claimed or staged since the last release, and nothing is claimed any more. What the block returned or
raised is what leaves it. Names whose deletion the engine accepts have no entry then, and entries of which
the block was not told are as they were. -/
theorem within_releases {b : Block α} {o : Outcome α}
    (ran : (within e.recorded (b.perform e.recorded)).run s = (o, t)) (ends : o ≠ .stalled) :
    ∃ deeds u, deeds = b.deeds e.recorded { s with claimed := [] } ∧
      (b.perform e.recorded).run { s with claimed := [] } = (o, u) ∧
      ∃ work last : List (EngineStep σ), u.engine.steps = s.engine.steps ++ work ∧
        t.engine.steps = u.engine.steps ++ last ∧
        last.map (·.act) = deletions (pending deeds).eraseDups.reverse ∧
        (pending deeds).eraseDups.Nodup ∧ t.claimed = [] ∧
        ∀ v : StorageView e,
          (∀ c ∈ last, ∀ n, c.act = .delete n → c.result = .returned () →
            v.entry t.toWorld.bare n = none) ∧
          ∀ n, n ∉ deeds.flatMap Deed.names → v.entry t.toWorld.bare n = v.entry s.toWorld.bare n := by
  obtain ⟨u, did, empty, work, last, span, span', -, acts⟩ := within_eq (S := .any) ran ends
  have nodup := nodup_eraseDups (pending (b.deeds e.recorded { s with claimed := [] }))
  refine ⟨_, u, rfl, did, work, last, span.steps, span'.steps, acts, nodup, empty, fun v => ?_⟩
  obtain ⟨u', did', -, work', last', before, after, among, acts'⟩ := within_eq (S := v.spares) ran ends
  cases did.symm.trans did'
  cases before.unique span.steps
  cases after.unique span'.steps
  have linked := (before.append after).linked
  refine ⟨fun c mem n act accepted => ?_, fun n untold => ?_⟩
  · exact StorageView.entry_of_deletions (List.pairwise_reverse.2 (nodup.imp Ne.symm)) linked acts mem act
      accepted
  · refine StorageView.entry_of_linked linked fun c mem touched => ?_
    rcases List.mem_append.1 mem with mem | mem
    · exact untold (among c mem n touched)
    · have known := Job.among_deletions acts c mem n touched
      rw [List.mem_reverse, List.mem_eraseDups] at known
      exact untold (pending_subset _ known)

/-! ## A block with failures -/

/-- Two entries are claimed, one of them is written, and then a third cannot be staged. -/
def spoiledBlock : Block Unit :=
  .act (.claim "a") fun _ => .act (.claim "b") fun _ => .act (.write "b" ⟨#[1]⟩) fun _ =>
    .act (.claim "a") fun _ => .act (.stage "c" ⟨#[1]⟩) .leave

/-- An engine that refuses to delete the first, and to write the third. -/
def spoiledStorage : Storage (Recorded MemoryEngine) where
  host := {}
  engine := ⟨{
    files := [("kept", ⟨#[2]⟩)]
    writeFaults := [⟨"c", .notLoaded⟩]
    deleteFaults := [⟨"a", .notLoaded⟩] }, []⟩

/-- What the block leaves. -/
def spoiledEnd : Storage (Recorded MemoryEngine) :=
  ((within MemoryEngine.engine.recorded (spoiledBlock.perform MemoryEngine.engine.recorded)).run
    spoiledStorage).2

/-- Each name is asked to be deleted once, and the failure to stage is what leaves the block. -/
theorem spoiledBlock_released : ∃ last : List (EngineStep MemoryEngine),
    (within MemoryEngine.engine.recorded (spoiledBlock.perform MemoryEngine.engine.recorded)).run
      spoiledStorage = (.raised (.staging "c" (Failure.message .notLoaded)), spoiledEnd) ∧
    last.map (·.act) = [.delete "c", .delete "b", .delete "a"] ∧
    MemoryEngine.storage.entry spoiledEnd.toWorld.bare "b" = none ∧
    MemoryEngine.storage.entry spoiledEnd.toWorld.bare "kept" = some ⟨#[2]⟩ := by
  have ran : (within MemoryEngine.engine.recorded
      (spoiledBlock.perform MemoryEngine.engine.recorded)).run spoiledStorage =
        (.raised (.staging "c" (Failure.message .notLoaded)), spoiledEnd) := rfl
  obtain ⟨deeds, u, done, -, work, last, before, after, acts, -, -, stored⟩ := within_releases ran nofun
  have told : deeds = [.claim "a", .claim "b", .write "b" ⟨#[1]⟩, .claim "a", .stage "c" ⟨#[1]⟩] := done
  subst told
  obtain ⟨absent, unchanged⟩ := stored MemoryEngine.storage
  have steps : spoiledEnd.engine.steps = work ++ last := by
    rw [after, before]
    rfl
  have three : last.length = 3 := by rw [← List.length_map (·.act), acts]; rfl
  have two : work.length = 2 := by
    have five : spoiledEnd.engine.steps.length = 5 := rfl
    rw [steps, List.length_append] at five
    omega
  have ends : last = spoiledEnd.engine.steps.drop 2 := by rw [steps, List.drop_left' two]
  subst ends
  exact ⟨_, ran, acts, absent _ (.tail _ (.head _)) "b" rfl rfl, unchanged "kept" (by decide)⟩

end VideoExport.Storage
