import Mathlib.Data.List.Infix
import Mathlib.Logic.Relation
import Mathlib.Order.Lattice
import VideoExport.Action

/-!
# A worker and a consumer

While events are relayed within a limit, two parties work side by side. A worker takes what its source
gives, the events and then the end of the source, and puts it into a channel. A consumer takes from the
channel whatever is there, and waits while it is empty, but not beyond a deadline: it does not begin to
wait when the deadline has passed, and when the deadline comes its wait ends. `Passage` is a state of the
two, `Passage.Step` what either of them can do next, at whichever time they come to it: the worker may be
late or get stuck, and the consumer may take its time with an event.

However the times fall, the consumer is told a first part of the events, and ends once: with the end of
the source when all events are told, or because the deadline has passed, and that exactly if a wait began
too late or what was to be told next was put too late, if at all (`Passage.Runs.ends`).
-/

set_option autoImplicit false

namespace VideoExport.Deadline

/-! ## Sources -/

/-- What a source gives: events, and then its end, unless it never comes to it. -/
structure Source (ε : Type) where
  events : List ε
  ending : Option (Except Failure Unit)

/-- What is put into the channel. -/
inductive Item (ε : Type) where
  | event (a : ε)
  | ending (r : Except Failure Unit)

variable {ε τ : Type}

/-- All that a source gives. -/
def Source.items (x : Source ε) : List (Item ε) :=
  x.events.map .event ++ x.ending.toList.map .ending

/-- What comes before an event is a first part of the events. -/
theorem Source.isPrefix_events {x : Source ε} {told : List ε} {rest : List (Item ε)}
    (h : told.map Item.event ++ rest = x.items) : told <+: x.events := by
  let event? : Item ε → Option ε
    | .event a => some a
    | .ending _ => none
  have events (l : List ε) : (l.map Item.event).filterMap event? = l := by
    simp [List.filterMap_map, event?]
  have none (l : List (Except Failure Unit)) : (l.map (Item.ending (ε := ε))).filterMap event? = [] := by
    simp [List.filterMap_map, event?]
  have whole := congrArg (List.filterMap event?) h
  rw [Source.items, List.filterMap_append, List.filterMap_append, events, events, none,
    List.append_nil] at whole
  exact ⟨_, whole⟩

/-- The end of a source comes after all events, and nothing comes after it. -/
theorem Source.eq_of_ending {told events : List ε} {ending : Option (Except Failure Unit)}
    {r : Except Failure Unit} {rest : List (Item ε)}
    (h : told.map Item.event ++ .ending r :: rest = (Source.mk events ending).items) :
    told = events ∧ ending = some r ∧ rest = [] := by
  unfold Source.items at h
  dsimp only at h
  induction told generalizing events with
  | nil =>
    cases events with
    | nil =>
      cases ending with
      | none => simp at h
      | some r' => simpa [eq_comm] using h
    | cons a events => simp at h
  | cons a told ih =>
    cases events with
    | nil => cases ending <;> simp at h
    | cons b events =>
      simp only [List.map_cons, List.cons_append, List.cons.injEq, Item.event.injEq] at h
      obtain ⟨rfl, ending, rest⟩ := ih h.2
      exact ⟨by rw [h.1], ending, rest⟩

/-! ## The two parties -/

/-- How relaying ends. -/
inductive Ending where
  /-- With the end of the source. -/
  | own (r : Except Failure Unit)
  /-- The deadline has passed. -/
  | expired

/-- How relaying ends if nothing but the source makes it late. -/
def Ending.of : Option (Except Failure Unit) → Ending
  | some r => .own r
  | none => .expired

/-- What the consumer is about. -/
inductive Stage where
  /-- It works on an event, or has not begun yet. -/
  | busy
  /-- It waits for what comes next. -/
  | waiting
  | ended (e : Ending)

/-- The end of the source, once the consumer was told of it. -/
def Stage.last : Stage → List (Except Failure Unit)
  | .ended (.own r) => [r]
  | _ => []

/-- A state of the worker and the consumer. -/
structure Passage (ε τ : Type) where
  clock : τ
  /-- What the source has yet to give. -/
  left : List (Item ε)
  /-- What was put and not yet taken. -/
  channel : List (Item ε) := []
  stage : Stage := .busy
  told : List ε := []
  /-- The times at which something was put. -/
  puts : List τ := []
  /-- The times at which a wait began. -/
  waits : List τ := []

namespace Passage

variable [LinearOrder τ] {x : Source ε} {d : τ} {s s' : Passage ε τ}

/-- Before anything is given or told. -/
def start (x : Source ε) (t : τ) : Passage ε τ := { clock := t, left := x.items }

/-- What the worker or the consumer does next, at a time `t`. -/
inductive Step (d : τ) : Passage ε τ → Passage ε τ → Prop
  /-- The worker puts what its source gives. A wait that still goes on then has not come to the
  deadline. -/
  | put {s : Passage ε τ} {item : Item ε} {rest : List (Item ε)} {t : τ} (later : s.clock ≤ t)
      (left : s.left = item :: rest) (awaited : s.stage = .waiting → s.channel = [] → t < d) :
    Step d s { s with
      clock := t, left := rest, channel := s.channel ++ [item], puts := s.puts ++ [t] }
  /-- The consumer has done with an event, and waits for the next. -/
  | wait {s : Passage ε τ} {t : τ} (later : s.clock ≤ t) (busy : s.stage = .busy) (early : t < d) :
    Step d s { s with clock := t, stage := .waiting, waits := s.waits ++ [t] }
  /-- It would wait, but finds that the deadline has passed. -/
  | refuse {s : Passage ε τ} {t : τ} (later : s.clock ≤ t) (busy : s.stage = .busy) (late : d ≤ t) :
    Step d s { s with clock := t, stage := .ended .expired, waits := s.waits ++ [t] }
  /-- It takes an event. -/
  | take {s : Passage ε τ} {a : ε} {t : τ} {rest : List (Item ε)} (later : s.clock ≤ t)
      (waiting : s.stage = .waiting) (first : s.channel = .event a :: rest) :
    Step d s { s with clock := t, channel := rest, stage := .busy, told := s.told ++ [a] }
  /-- It takes the end of the source. -/
  | finish {s : Passage ε τ} {r : Except Failure Unit} {t : τ} {rest : List (Item ε)}
      (later : s.clock ≤ t) (waiting : s.stage = .waiting) (first : s.channel = .ending r :: rest) :
    Step d s { s with clock := t, channel := rest, stage := .ended (.own r) }
  /-- The deadline comes while there is nothing to take. -/
  | expire {s : Passage ε τ} {t : τ} (later : s.clock ≤ t) (waiting : s.stage = .waiting)
      (empty : s.channel = []) (late : d ≤ t) :
    Step d s { s with clock := t, stage := .ended .expired }

/-- What can come of a state. -/
def Runs (d : τ) : Passage ε τ → Passage ε τ → Prop := Relation.ReflTransGen (Step d)

/-! ### Books -/

/-- A wait began at the deadline or after it. -/
def Slow (d : τ) (s : Passage ε τ) : Prop := ∃ w ∈ s.waits, d ≤ w

/-- What is to be told next was not put before the deadline. -/
def Late (d : τ) (s : Passage ε τ) : Prop := ∀ p, s.puts[s.told.length]? = some p → d ≤ p

/-- How much the consumer has taken: what it was told, and the end of the source. -/
def taken (s : Passage ε τ) : Nat := s.told.length + s.stage.last.length

omit [LinearOrder τ] in
theorem taken_eq {stage : Stage} (hs : s.stage = stage) (open_ : stage.last = []) :
    s.taken = s.told.length := by
  rw [taken, hs, open_, List.length_nil, Nat.add_zero]

/-- Nothing of what the source gives gets lost, changes its place or is told twice, and what is taken was
put before the deadline. -/
structure Ledger (x : Source ε) (d : τ) (s : Passage ε τ) : Prop where
  items : s.told.map Item.event ++ (s.stage.last.map .ending ++ (s.channel ++ s.left)) = x.items
  count : s.puts.length = s.taken + s.channel.length
  past : ∀ p ∈ s.puts, p ≤ s.clock
  early : ∀ i < s.taken, ∀ p, s.puts[i]? = some p → p < d

/-- The books of the two parties: what is taken next was put before the deadline while the consumer
waits, and if the deadline has passed, a wait began too late or that was put too late. -/
structure Books (x : Source ε) (d : τ) (s : Passage ε τ) : Prop extends Ledger x d s where
  first : s.stage = .waiting → ∀ p, s.puts[s.told.length]? = some p → p < d
  waits : s.stage ≠ .ended .expired → ∀ w ∈ s.waits, w < d
  expired : s.stage = .ended .expired → d ≤ s.clock ∧ (Slow d s ∨ Late d s)

theorem books_start (x : Source ε) (d t : τ) : Books x d (start x t) where
  items := rfl
  count := rfl
  past _ h := absurd h List.not_mem_nil
  early _ h := absurd h (Nat.not_lt_zero _)
  first := nofun
  waits _ _ h := absurd h List.not_mem_nil
  expired := nofun

section
variable {t : τ} (h : Ledger x d s) (later : s.clock ≤ t)
include h

/-- What is put is what the consumer takes next only if there is nothing in the channel. -/
theorem Ledger.put_next (next : s.taken = s.told.length) {p : τ}
    (hp : (s.puts ++ [t])[s.told.length]? = some p) :
    s.puts[s.told.length]? = some p ∨ s.channel = [] ∧ p = t := by
  cases channel : s.channel with
  | nil =>
    have count : s.puts.length = s.told.length := by
      rw [h.count, next, channel, List.length_nil, Nat.add_zero]
    rw [← count, List.getElem?_concat_length] at hp
    exact .inr ⟨rfl, (Option.some.inj hp).symm⟩
  | cons m rest =>
    have before : s.told.length < s.puts.length := by
      rw [h.count, next, channel, List.length_cons]
      omega
    rw [List.getElem?_append_left before] at hp
    exact .inl hp

include later

theorem Ledger.put {item : Item ε} {rest : List (Item ε)} (left : s.left = item :: rest) :
    Ledger x d { s with
      clock := t, left := rest, channel := s.channel ++ [item], puts := s.puts ++ [t] } where
  items := by
    rw [← h.items, left]
    simp
  count := by
    rw [List.length_append, List.length_append, h.count]
    rfl
  past p hp := by
    rcases List.mem_append.1 hp with hp | hp
    · exact (h.past p hp).trans later
    · exact (List.mem_singleton.1 hp).le
  early i hi p hp := by
    have before : i < s.puts.length := h.count ▸ Nat.lt_add_right _ hi
    exact h.early i hi p (List.getElem?_append_left before ▸ hp)

/-- Nothing is taken. -/
theorem Ledger.turn {stage stage' : Stage} {waits : List τ} (hs : s.stage = stage)
    (open_ : stage.last = []) (open' : stage'.last = []) :
    Ledger x d { s with clock := t, stage := stage', waits } where
  items := by
    rw [← h.items, hs, open_, open']
  count := by
    rw [h.count, taken_eq hs open_, taken, open']
    rfl
  past p hp := (h.past p hp).trans later
  early i hi := by
    rw [taken, open'] at hi
    exact h.early i (taken_eq hs open_ ▸ hi)

end

/-- What the consumer takes at the end of a wait was put before the deadline. -/
theorem Books.early_next (h : Books x d s) (waiting : s.stage = .waiting) {i : Nat}
    (hi : i < s.told.length + 1) {p : τ} (hp : s.puts[i]? = some p) : p < d := by
  rcases Nat.lt_succ_iff_lt_or_eq.1 hi with before | rfl
  · exact h.early i (taken_eq waiting rfl ▸ before) p hp
  · exact h.first waiting p hp

/-- What the consumer takes at the end of a wait is told next, an event or the end. -/
theorem Books.took (h : Books x d s) {t : τ} (later : s.clock ≤ t) (waiting : s.stage = .waiting)
    {item : Item ε} {rest : List (Item ε)} (first : s.channel = item :: rest) {stage : Stage}
    {told : List ε}
    (gives : told.map Item.event ++ stage.last.map .ending = s.told.map .event ++ [item])
    (resting : stage ≠ .waiting) (own : stage ≠ .ended .expired) :
    Books x d { s with clock := t, channel := rest, stage, told } := by
  have taken' : told.length + stage.last.length = s.told.length + 1 := by
    simpa using congrArg List.length gives
  exact {
    items := by
      rw [← h.items, waiting, first, ← List.append_assoc, gives]
      simp [Stage.last]
    count := by
      rw [h.count, taken_eq waiting rfl, first, taken, taken', List.length_cons]
      dsimp only
      omega
    past := fun p hp => (h.past p hp).trans later
    early := fun i hi p hp => h.early_next waiting (taken' ▸ hi) hp
    first := fun waits => absurd waits resting
    waits := fun _ => h.waits (by simp [waiting])
    expired := fun expired => absurd expired own }

/-- Whatever the parties do next, their books stay in order. -/
theorem Books.step (h : Books x d s) (next : Step d s s') : Books x d s' := by
  cases next with
  | @put item rest t later left awaited =>
    refine { h.toLedger.put later left with
      first := fun waiting p hp => ?_, waits := h.waits, expired := fun ended => ?_ }
    · rcases h.put_next (taken_eq waiting rfl) hp with hp | ⟨empty, rfl⟩
      · exact h.first waiting p hp
      · exact awaited waiting empty
    · obtain ⟨late, why⟩ := h.expired ended
      refine ⟨late.trans later, why.imp_right fun first p hp => ?_⟩
      -- what comes after the deadline has passed is late itself
      rcases h.put_next (taken_eq ended rfl) hp with hp | ⟨-, rfl⟩
      · exact first p hp
      · exact late.trans later
  | @wait t later busy early =>
    refine { h.toLedger.turn later busy rfl rfl with
      first := fun _ p hp => ?_, waits := fun _ w hw => ?_, expired := nofun }
    · exact ((h.past p (List.mem_of_getElem? hp)).trans later).trans_lt early
    · rcases List.mem_append.1 hw with hw | hw
      · exact h.waits (by simp [busy]) w hw
      · exact List.mem_singleton.1 hw ▸ early
  | @refuse t later busy late =>
    exact { h.toLedger.turn later busy rfl rfl with
      first := nofun
      waits := fun own => absurd rfl own
      expired := fun _ => ⟨late, .inl ⟨t, List.mem_append_right _ (.head _), late⟩⟩ }
  | take later waiting first => exact h.took later waiting first (by simp [Stage.last]) nofun nofun
  | finish later waiting first => exact h.took later waiting first rfl nofun nofun
  | @expire t later waiting empty late =>
    refine { h.toLedger.turn later waiting rfl rfl with
      first := nofun, waits := fun own => absurd rfl own
      expired := fun _ => ⟨late, .inr fun p hp => ?_⟩ }
    have none : s.puts[s.told.length]? = none := by
      rw [List.getElem?_eq_none_iff, h.count, taken_eq waiting rfl, empty]
      rfl
    cases none.symm.trans hp

/-- The books stay in order through a run. -/
theorem Books.runs (h : Books x d s) (run : Runs d s s') : Books x d s' := by
  induction run with
  | refl => exact h
  | tail _ next ih => exact ih.step next

/-! ### Ends -/

theorem Books.told_isPrefix (h : Books x d s) : s.told <+: x.events :=
  Source.isPrefix_events h.items

/-- With the end of the source, everything is told, and came in time. -/
theorem Books.own (h : Books x d s) {r : Except Failure Unit} (ended : s.stage = .ended (.own r)) :
    s.told = x.events ∧ x.ending = some r ∧ ¬ Slow d s ∧ ¬ Late d s := by
  have items := h.items
  rw [ended] at items
  obtain ⟨told, ending, -⟩ := Source.eq_of_ending items
  refine ⟨told, ending, ?_, fun late => ?_⟩
  · rintro ⟨w, hw, late⟩
    exact absurd (h.waits (by simp [ended]) w hw) (not_lt.2 late)
  · -- the end of the source is what was taken last
    have last : s.told.length < s.taken := by
      rw [taken, ended]
      exact Nat.lt_succ_self _
    have put : s.told.length < s.puts.length := h.count ▸ Nat.lt_add_right _ last
    have found := List.getElem?_eq_getElem put
    exact absurd (h.early _ last _ found) (not_lt.2 (late _ found))

/-- How much there is left to do. -/
def work (s : Passage ε τ) : Nat :=
  let stage := match s.stage with
    | .busy => 2
    | .waiting => 1
    | .ended _ => 0
  3 * s.left.length + 2 * s.channel.length + stage

theorem Step.work_lt (next : Step d s s') : s'.work < s.work := by
  unfold work
  cases next with
  | put _ left =>
    simp only [left, List.length_cons, List.length_append, List.length_nil]
    omega
  | wait _ busy =>
    simp only [busy]
    omega
  | refuse _ busy =>
    simp only [busy]
    omega
  | take _ waiting first =>
    simp only [waiting, first, List.length_cons]
    omega
  | finish _ waiting first =>
    simp only [waiting, first, List.length_cons]
    omega
  | expire _ waiting =>
    simp only [waiting]
    omega

/-- The parties do not go on for ever. -/
theorem accessible (d : τ) (s : Passage ε τ) : Acc (fun t s => Step d s t) s :=
  Subrelation.accessible (fun next => Step.work_lt next) ((measure work).wf.apply s)

/-- The consumer can go on as long as it has not come to its end: at the latest, the deadline passes. -/
theorem next (d : τ) (s : Passage ε τ) : (∃ e, s.stage = .ended e) ∨ ∃ s', Step d s s' := by
  cases stage : s.stage with
  | ended e => exact .inl ⟨e, rfl⟩
  | busy =>
    rcases lt_or_ge s.clock d with early | late
    · exact .inr ⟨_, .wait le_rfl stage early⟩
    · exact .inr ⟨_, .refuse le_rfl stage late⟩
  | waiting =>
    cases channel : s.channel with
    | nil => exact .inr ⟨_, .expire (le_max_left _ d) stage channel (le_max_right _ _)⟩
    | cons item rest =>
      cases item with
      | event a => exact .inr ⟨_, .take le_rfl stage channel⟩
      | ending r => exact .inr ⟨_, .finish le_rfl stage channel⟩

/-- After its end the consumer does nothing. -/
theorem Step.of_ended {e : Ending} (next : Step d s s') (ended : s.stage = .ended e) :
    s'.stage = s.stage ∧ s'.told = s.told ∧ s'.waits = s.waits := by
  cases next with
  | put => exact ⟨rfl, rfl, rfl⟩
  | wait _ busy => cases busy.symm.trans ended
  | refuse _ busy => cases busy.symm.trans ended
  | take _ waiting => cases waiting.symm.trans ended
  | finish _ waiting => cases waiting.symm.trans ended
  | expire _ waiting => cases waiting.symm.trans ended

/-- How a run of the two parties ends. The consumer is told a first part of the events. It ends with
the end of the source only when it was told all of them, and because of the deadline exactly if a wait
began too late or what was to be told next was put too late. -/
theorem Runs.ends {t : τ} (run : Runs d (start x t) s) : s.told <+: x.events ∧
    ∀ e, s.stage = .ended e → (e = .expired ↔ Slow d s ∨ Late d s) ∧
      ∀ r, e = .own r → s.told = x.events ∧ x.ending = some r := by
  have books := (books_start x d t).runs run
  refine ⟨books.told_isPrefix, fun e ended => ?_⟩
  cases e with
  | own r =>
    obtain ⟨told, ending, slow, late⟩ := books.own ended
    refine ⟨⟨nofun, fun h => (h.elim slow late).elim⟩, ?_⟩
    rintro _ ⟨⟩
    exact ⟨told, ending⟩
  | expired => exact ⟨⟨fun _ => (books.expired ended).2, fun _ => rfl⟩, nofun⟩

/-! ### Runs in which the worker puts what is waited for -/

section
variable {t : τ} (later : s.clock ≤ t) (busy : s.stage = .busy) (channel : s.channel = [])
include later busy

/-- It is too late for a wait. -/
theorem runs_late (late : d ≤ t) :
    ∃ s', Runs d s s' ∧ s'.stage = .ended .expired ∧ s'.told = s.told ∧ s'.waits = s.waits ++ [t] :=
  ⟨_, .single (.refuse later busy late), rfl, rfl, rfl⟩

include channel

/-- An event is put while it is waited for. -/
theorem runs_event {a : ε} {rest : List (Item ε)} (early : t < d) (left : s.left = .event a :: rest) :
    Runs d s { s with
      clock := t, left := rest, channel := [], stage := .busy, told := s.told ++ [a]
      puts := s.puts ++ [t], waits := s.waits ++ [t] } := by
  have first : s.channel ++ [.event a] = .event a :: [] := by
    rw [channel]
    rfl
  have put := Relation.ReflTransGen.tail (.single (Step.wait later busy early))
    (Step.put le_rfl left fun _ _ => early)
  exact .tail put (.take le_rfl rfl first)

/-- The source ends while that is waited for, or the wait is in vain. -/
theorem runs_out {ending : Option (Except Failure Unit)} (early : t < d)
    (left : s.left = ending.toList.map .ending) :
    ∃ s', Runs d s s' ∧ s'.stage = .ended (.of ending) ∧ s'.told = s.told ∧
      s'.waits = s.waits ++ [t] := by
  have waiting : Step d s { s with clock := t, stage := .waiting, waits := s.waits ++ [t] } :=
    .wait later busy early
  cases ending with
  | none => exact ⟨_, .tail (.single waiting) (.expire early.le rfl channel le_rfl), rfl, rfl, rfl⟩
  | some r =>
    have first : s.channel ++ [.ending r] = .ending r :: [] := by
      rw [channel]
      rfl
    have put := Relation.ReflTransGen.tail (.single waiting) (Step.put le_rfl left fun _ _ => early)
    exact ⟨_, .tail put (.finish le_rfl rfl first), rfl, rfl, rfl⟩

end

end Passage

end VideoExport.Deadline
