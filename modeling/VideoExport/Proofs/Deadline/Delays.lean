import Mathlib.Order.WithBot
import VideoExport.Job.Basic
import VideoExport.Proofs.Deadline
import VideoExport.Proofs.Deadline.Parties
import VideoExport.Proofs.Numeric.Range

/-!
# Events within a limit

How a relay within a limit ends, whatever time its consumer takes with the events. It is a run of a
worker and a consumer whose worker gives everything at once, or gets stuck (`passes_relay`); so all that
holds of these holds of it (`relay_ends_once`).
-/

set_option autoImplicit false

namespace VideoExport.Deadline

/-! ## Time -/

/-- The time that a clock shows; none that it can show comes after an infinite one. -/
def instant : Binary64 → WithTop Rat
  | .finite x => x.value
  | _ => ⊤

section
variable {ω : Type} [Hosted ω] {n : Number} {operation : TimedOperation} {s : ω} {q : Rat}

/-- The time in a state. -/
def now (s : ω) : WithTop Rat := instant (Hosted.host s).clock

theorem clock_of_now (hs : now s = q) : ∃ x, (Hosted.host s).clock = .finite x ∧ x.value = q := by
  unfold now at hs
  cases clock : (Hosted.host s).clock with
  | finite x =>
    rw [clock] at hs
    exact ⟨x, rfl, WithTop.coe_injective hs⟩
  | nan =>
    rw [clock] at hs
    exact absurd hs.symm (WithTop.coe_ne_top)
  | infinite b =>
    rw [clock] at hs
    exact absurd hs.symm (WithTop.coe_ne_top)

/-- A clock can come to the deadline, or never does. -/
def IsDeadline (d : Binary64) : Prop := d = .infinite false ∨ ∃ x, d = .finite x

/-- A positive limit counts from any time, and makes a deadline. -/
theorem exists_deadline (finite : n.isFinite = true) (positive : Number.lt 0 n = true)
    (hs : now s = q) :
    ∃ d, (Number.real (Hosted.host s).clock).add n = .ok (.real d) ∧ IsDeadline d := by
  obtain ⟨x, clock, -⟩ := clock_of_now hs
  obtain ⟨y, hy⟩ := Number.toReal_eq_finite finite
  refine ⟨(Binary64.finite x).add (.finite y), ?_,
    Binary64.add_positive_cases (Number.toReal_positive hy positive)⟩
  rw [clock]
  cases n with
  | int n =>
    unfold Number.add Number.combine
    dsimp only
    rw [hy]
    rfl
  | real z =>
    cases hy
    rfl

/-- The deadline has passed if the clock has come to it. -/
theorem run_check (operation : TimedOperation) (n : Number) {d : Binary64} (deadline : IsDeadline d)
    (hs : now s = q) :
    (check operation n (.real d)).run s =
      if instant d ≤ now s then (.raised (Failure.expired operation n), s) else (.returned (), s) := by
  obtain ⟨x, clock, -⟩ := clock_of_now hs
  have reached : (Number.real (d.sub (.finite x))).le 0 = true ↔ instant d ≤ now s := by
    unfold now
    rw [clock]
    obtain rfl | ⟨y, rfl⟩ := deadline
    · refine iff_of_false ?_ ?_
      · show ¬ (Number.real (.infinite false)).le 0 = true
        decide
      · exact fun h => WithTop.coe_ne_top (top_le_iff.1 h)
    · exact Binary64.sub_le_zero_iff.trans WithTop.coe_le_coe.symm
  unfold check
  rw [Action.run_bind_of_returned (Action.run_read _ _), clock]
  show (if (Number.real (d.sub (.finite x))).le 0 = true then _ else _ : Action ω Unit).run s = _
  by_cases late : instant d ≤ now s
  · rw [if_pos (reached.2 late), if_pos late]
    rfl
  · rw [if_neg (mt reached.1 late), if_neg late]
    rfl

end

/-! ## Sources and consumers -/

variable {ω ε : Type} [Hosted ω] {seen : ω → List ε} {start : Action ω (Execution ω ε)}
  {handle : ε → Action ω Demand}

/-- Neither the time nor what is seen of the events changes. -/
def untimed (seen : ω → List ε) : Evolution ω := .same fun s => (now s, seen s)

theorem untimed_iff {s t : ω} : untimed seen s t ↔ now t = now s ∧ seen t = seen s :=
  Prod.mk.injEq .. ▸ .rfl

/-- What starts the execution, and the execution itself, take no time. -/
structure Prompt (start : Action ω (Execution ω ε)) (seen : ω → List ε) : Prop where
  begins : start.Follows (untimed seen)
  gives : ∀ {s x t}, start.run s = (.returned x, t) → x.Follows (untimed seen)

/-- The consumer takes every event, and its time with it. -/
def Consumes (handle : ε → Action ω Demand) (seen : ω → List ε) : Prop :=
  ∀ a s {q : Rat}, now s = q → ∃ t, (handle a).run s = (.returned .more, t) ∧
    seen t = seen s ++ [a] ∧ ∃ r : Rat, now t = r ∧ q ≤ r

/-- The state after the events are handled. -/
def handled (handle : ε → Action ω Demand) : List (Emission ω ε) → ω → ω
  | [], s => s
  | m :: rest, s => handled handle rest ((handle m.event).run (m.before s)).2

/-- The times before each of the events, and after them, if they are handled one after another. -/
def readings (handle : ε → Action ω Demand) : List (Emission ω ε) → ω → List (WithTop Rat)
  | [], s => [now s]
  | m :: rest, s => now s :: readings handle rest ((handle m.event).run (m.before s)).2

theorem exists_readings (handle : ε → Action ω Demand) (ms : List (Emission ω ε)) (s : ω) :
    ∃ times, readings handle ms s = now s :: times := by
  cases ms <;> exact ⟨_, rfl⟩

/-- An end, unless it never comes. -/
def ending? {α : Type} : Outcome α → Option (Except Failure Unit)
  | .returned _ => some (.ok ())
  | .raised f => some (.error f)
  | .stalled => none

/-- What an execution gives to a consumer that takes all of it. -/
def sourceOf (start : Action ω (Execution ω ε)) (handle : ε → Action ω Demand) (s : ω) : Source ε :=
  match start.run s with
  | (.returned x, t) => ⟨x.events, ending? (x.finish.run (handled handle x.emissions t)).1⟩
  | (o, _) => ⟨[], ending? o⟩

/-- The times at which a consumer that takes all of an execution comes to wait. -/
def readingsOf (start : Action ω (Execution ω ε)) (handle : ε → Action ω Demand) (s : ω) :
    List (WithTop Rat) :=
  match start.run s with
  | (.returned x, t) => readings handle x.emissions t
  | _ => [now s]

/-- What a relay ends with. -/
def Ending.outcome (operation : TimedOperation) (n : Number) : Ending → Outcome Unit
  | .own (.ok ()) => .returned ()
  | .own (.error f) => .raised f
  | .expired => .raised (Failure.expired operation n)

/-! ## Relays as runs of two parties -/

/-- What a relay did, from the state `p` of the two parties on. It is a run of them: their waits begin at
the first of some times, the relay ends as they do, and the consumer has seen what it is told. The
deadline has passed exactly if it does so before one of the times or the source never ends; else it is
what is done without a limit. -/
def Passes (operation : TimedOperation) (n : Number) (seen : ω → List ε) (d : WithTop Rat)
    (p : Passage ε (WithTop Rat)) (ending : Option (Except Failure Unit)) (times : List (WithTop Rat))
    (unlimited ran : Outcome Unit × ω) : Prop :=
  ∃ p' e, p.Runs d p' ∧ p'.stage = .ended e ∧ ran.1 = e.outcome operation n ∧
    seen ran.2 = p'.told ∧ (∃ waits, p'.waits = p.waits ++ waits ∧ waits <+: times) ∧
    (e = .expired ↔ (∃ w ∈ times, d ≤ w) ∨ ending = none) ∧ (e ≠ .expired → ran = unlimited)

section
variable {operation : TimedOperation} {n : Number} {d : Binary64} {finish : Action ω Unit}
  {p : Passage ε (WithTop Rat)} {s : ω} {q : Rat}

/-- A wait that would begin at the deadline or after it. -/
theorem passes_late {ending : Option (Except Failure Unit)} {times : List (WithTop Rat)}
    {unlimited : Outcome Unit × ω} {k : ω} (later : p.clock ≤ now s) (busy : p.stage = .busy)
    (late : instant d ≤ now s) (hk : seen k = p.told) :
    Passes operation n seen (instant d) p ending (now s :: times) unlimited
      (.raised (Failure.expired operation n), k) := by
  obtain ⟨p', runs, stage, told, waits⟩ := p.runs_late later busy late
  exact ⟨p', .expired, runs, stage, rfl, hk.trans told.symm, ⟨_, waits, List.prefix_append _ _⟩,
    iff_of_true rfl (.inl ⟨_, .head _, late⟩), fun h => absurd rfl h⟩

/-- An end that is waited for, or never comes. -/
theorem passes_out {o : Outcome Unit} {k : ω} (later : p.clock ≤ now s) (busy : p.stage = .busy)
    (channel : p.channel = []) (early : now s < instant d)
    (left : p.left = (ending? o).toList.map .ending) (hk : seen k = p.told) :
    Passes operation n seen (instant d) p (ending? o) [now s] (o, k)
      ((Ending.of (ending? o)).outcome operation n, k) := by
  obtain ⟨p', runs, stage, told, waits⟩ := p.runs_out later busy channel early left
  have soon : ¬ ∃ w ∈ [now s], instant d ≤ w := by simpa using early
  refine ⟨p', _, runs, stage, rfl, hk.trans told.symm, ⟨_, waits, List.prefix_rfl⟩, ?_, fun own => ?_⟩
  · rw [or_iff_right soon]
    cases o <;> simp [ending?, Ending.of]
  · cases o with
    | returned _ => rfl
    | raised f => rfl
    | stalled => exact absurd rfl own

/-- Events that are handed over one by one, and the end. -/
theorem passes_handOver (deadline : IsDeadline d) (consumes : Consumes handle seen)
    (ends : finish.Follows (untimed seen)) :
    ∀ (ms : List (Emission ω ε)) (close : ω → ω) {p : Passage ε (WithTop Rat)} {s : ω} {q : Rat},
      (∀ m ∈ ms, ∀ s, untimed seen s (m.before s)) → (∀ m ∈ ms, ∀ s, untimed seen s (m.close s)) →
      (∀ s, untimed seen s (close s)) → now s = q → p.clock ≤ now s → p.stage = .busy →
      p.channel = [] → seen s = p.told →
      p.left = (Source.mk (ms.map (·.event)) (ending? (finish.run (handled handle ms s)).1)).items →
      Passes operation n seen (instant d) p (ending? (finish.run (handled handle ms s)).1)
        (readings handle ms s) ((handOver (pure ()) handle finish ms close).run s)
        ((handOver (check operation n (.real d)) handle (unstalled operation n finish) ms close).run s)
  | ms, close, p, s, q, before, closes, hc, time, later, busy, channel, told, left => by
    have checked := run_check operation n deadline time
    obtain ⟨times, first⟩ := exists_readings handle ms s
    by_cases late : instant d ≤ now s
    · rw [if_pos late] at checked
      rw [handOver_refused checked, first]
      exact passes_late later busy late ((untimed_iff.1 (hc s)).2.trans told)
    rw [if_neg late] at checked
    have early : now s < instant d := not_le.1 late
    have free : (pure () : Action ω Unit).run s = (.returned (), s) := rfl
    match ms with
    | [] =>
      rcases hx : finish.run s with ⟨o, k⟩
      have ended : (unstalled operation n finish).run s =
          ((Ending.of (ending? o)).outcome operation n, k) := by
        rw [run_unstalled, hx]
        cases o <;> rfl
      rw [handOver_nil checked, handOver_nil free, ended, handled, readings, hx]
      refine passes_out later busy channel early ?_ ?_
      · rw [left, handled, hx]
        rfl
      · exact (untimed_iff.1 (ends.of_run hx)).2.trans told
    | m :: rest =>
      obtain ⟨time', told'⟩ := untimed_iff.1 (before m (.head _) s)
      obtain ⟨t, ran, saw, r, ht, after⟩ := consumes m.event (m.before s) (time'.trans time)
      rw [handOver_cons checked ran, handOver_cons free ran]
      have later' : now s ≤ now t := by
        rw [time, ht]
        exact WithTop.coe_le_coe.2 after
      let next : Passage ε (WithTop Rat) := {
        clock := now s
        left := (Source.mk (rest.map (·.event)) (ending? (finish.run (handled handle rest t)).1)).items
        told := p.told ++ [m.event]
        puts := p.puts ++ [now s]
        waits := p.waits ++ [now s] }
      have put : p.Runs (instant d) next := by
        refine p.runs_event later busy channel early ?_
        rw [left, handled, ran]
        rfl
      have saw' : seen t = next.told := by rw [saw, told', told]
      obtain ⟨p', e, runs, stage, outcome, seen', ⟨waits, hwaits, part⟩, expired, unlimited⟩ :=
        passes_handOver deadline consumes ends rest m.close (p := next)
          (fun m hm => before m (.tail _ hm)) (fun m hm => closes m (.tail _ hm)) (closes m (.head _)) ht
          later' rfl rfl saw' rfl
      rw [handled, readings, ran]
      refine ⟨p', e, put.trans runs, stage, outcome, seen', ⟨now s :: waits, ?_, ?_⟩, ?_, unlimited⟩
      · rw [hwaits, List.append_assoc]
        rfl
      · exact List.cons_prefix_cons.2 ⟨rfl, part⟩
      · rw [expired]
        simp [late]

/-- The events of an execution, from its start. -/
theorem passes_relay (operation : TimedOperation) (finite : n.isFinite = true)
    (positive : Number.lt 0 n = true) (prompt : Prompt start seen) (consumes : Consumes handle seen)
    (time : now s = q) (fresh : seen s = []) :
    ∃ d, (Number.real (Hosted.host s).clock).add n = .ok (.real d) ∧
      Passes operation n seen (instant d) (.start (sourceOf start handle s) (now s))
        (sourceOf start handle s).ending (readingsOf start handle s)
        ((relay none operation start handle).run s)
        ((relay (some n) operation start handle).run s) := by
  obtain ⟨d, sum, deadline⟩ := exists_deadline finite positive time
  refine ⟨d, sum, ?_⟩
  have checked := run_check operation n deadline time
  obtain ⟨o, t, ho⟩ : ∃ o t, start.run s = (o, t) := ⟨_, _, rfl⟩
  obtain ⟨time', told⟩ := untimed_iff.1 (prompt.begins.of_run ho)
  obtain ⟨times, first⟩ : ∃ times, readingsOf start handle s = now s :: times := by
    unfold readingsOf
    rw [ho]
    cases o with
    | returned x => exact time' ▸ exists_readings handle x.emissions t
    | raised f => exact ⟨[], rfl⟩
    | stalled => exact ⟨[], rfl⟩
  have begun : (relay (some n) operation start handle).run s =
      (check operation n (.real d) >>= fun _ => unstalled operation n start >>= fun x =>
        handOver (check operation n (.real d)) handle (unstalled operation n x.finish) x.emissions id
          ).run s := by
    unfold relay
    rw [limit?_of_positive finite positive]
    dsimp only
    rw [Action.run_bind_of_returned (Action.run_read _ _), sum]
    rfl
  rw [begun]
  by_cases late : instant d ≤ now s
  · rw [if_pos late] at checked
    rw [Action.run_bind_of_raised checked, first]
    exact passes_late le_rfl rfl late fresh
  rw [if_neg late] at checked
  have early : now s < instant d := not_le.1 late
  rw [Action.run_bind_of_returned checked]
  have free : relay none operation start handle =
      start >>= fun x => handOver (pure ()) handle x.finish x.emissions id := rfl
  rw [free]
  have bounded := run_unstalled operation n start s
  rw [ho] at bounded
  unfold sourceOf readingsOf
  rw [ho]
  cases o with
  | returned x =>
    rw [Action.run_bind_of_returned ho, Action.run_bind_of_returned bounded]
    have follows := prompt.gives ho
    exact passes_handOver deadline consumes follows.finish x.emissions id follows.before follows.close
      (untimed seen).refl (time'.trans time) time'.ge rfl rfl (told.trans fresh) rfl
  | raised f =>
    rw [Action.run_bind_of_raised ho, Action.run_bind_of_raised bounded]
    exact passes_out (o := .raised f) le_rfl rfl rfl early rfl (told.trans fresh)
  | stalled =>
    rw [Action.run_bind_of_stalled ho, Action.run_bind_of_raised bounded]
    exact passes_out (o := .stalled) le_rfl rfl rfl early rfl (told.trans fresh)

end

/-! ## A consumer that takes its time -/

/-- Four seconds. -/
def four : Binary64.Finite := ⟨false, 4503599627370496, -50, by decide⟩

/-- A consumer that keeps what it is handed, and is not done with it before that time. -/
def leisurely (a : Nat) : Action (Caller (List Nat)) Demand := do
  .modify fun c => {
    host := { c.host with
      clock := if (Number.real c.host.clock).le (.real (.finite four)) then .finite four
        else c.host.clock }
    client := c.client ++ [a] }
  return .more

theorem leisurely_consumes : Consumes leisurely Caller.client := by
  intro a c q time
  refine ⟨_, rfl, rfl, ?_⟩
  obtain ⟨x, clock, rfl⟩ := clock_of_now time
  have clock : c.host.clock = .finite x := clock
  show ∃ r : Rat, instant (if (Number.real c.host.clock).le (.real (.finite four)) then .finite four
    else c.host.clock) = r ∧ x.value ≤ r
  rw [clock]
  by_cases before : (Number.real (.finite x)).le (.real (.finite four)) = true
  · rw [if_pos before]
    exact ⟨four.value, rfl, (Number.le_iff rfl rfl).1 before⟩
  · rw [if_neg before]
    exact ⟨x.value, rfl, le_rfl⟩

/-- An execution of two events. -/
def pair : Action (Caller (List Nat)) (Execution (Caller (List Nat)) Nat) :=
  pure { emissions := [{ event := 1 }, { event := 2 }], finish := pure () }

theorem pair_prompt : Prompt pair Caller.client where
  begins := .pure _
  gives := by
    rintro s x t ⟨⟩
    refine ⟨?_, ?_, .pure _⟩
    all_goals
      intro m hm s
      rcases List.mem_cons.1 hm with rfl | hm
      · rfl
      · cases List.mem_singleton.1 hm
        rfl

/-- Before the relay. -/
def unread : Caller (List Nat) := { host := {}, client := [] }

end VideoExport.Deadline
