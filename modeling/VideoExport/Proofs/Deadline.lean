import VideoExport.Engine.Memory
import VideoExport.Proofs.Evolution
import VideoExport.Proofs.Number

/-!
# Work within a limit

A call within a limit is the unlimited call if what is called returns, or fails in a way of its own
(`run_call_kept`). Its limit counts as passed if what is called never ends, but also if it fails with a
failure that itself says that a time limit has passed: that failure is replaced by the one of the
limit (`run_call_abandoned`). So a limit does not show exactly if no such failure is raised
(`call_transparent_iff`).

Events that are handed over within a limit reach their consumer in order: however that ends, the consumer
was handed a first part of them, and all of them if it ends well (`relay_delivers`).
-/

set_option autoImplicit false

namespace VideoExport

/-- Whether the end was a failure that itself says that a time limit has passed. -/
def Outcome.saysTimeout {α : Type} : Outcome α → Bool
  | .raised f => Deadline.isTimeout f
  | _ => false

namespace Deadline

/-! ## Calls -/

section
variable {ω α : Type} {n : Number}

/-- A limit that is a positive number counts. -/
theorem limit?_of_positive (finite : n.isFinite = true) (positive : Number.lt 0 n = true) :
    limit? (some n) = some n := by
  obtain ⟨q, hq⟩ := Number.exists_place finite
  have zero : (0 : Number).place? = some (0, 0) := rfl
  have nonzero : n.isZero = false := by
    refine Bool.eq_false_iff.2 fun h => ?_
    have above := (Number.lt_iff zero hq).1 positive
    rw [(Number.same_iff hq zero).1 h] at above
    exact absurd above Rat.lt_irrefl
  simp [limit?, nonzero]

/-- The failure of a limit is not one of those that are taken for it. -/
theorem isTimeout_expired (operation : TimedOperation) (limit : Number) :
    isTimeout (Failure.expired operation limit) = false := by
  unfold Failure.expired
  split <;> rfl

variable [Hosted ω]

theorem noteAbandoned_run (limit : Number) (s : ω) :
    (noteAbandoned limit).run s = (.returned (), ((noteAbandoned limit).run s).2) := rfl

/-- A limit of zero is none. -/
theorem limit?_unlimited {limit : Option Number} (h : ∀ m ∈ limit, m.isZero = true) :
    limit? limit = none := by
  cases limit with
  | none => rfl
  | some m => simp [limit?, h m rfl]

/-- Without a limit, or with one of zero, a call is what it calls. -/
theorem call_unlimited {limit : Option Number} (h : ∀ m ∈ limit, m.isZero = true)
    (operation : TimedOperation) (x : Action ω α) : call limit operation x = x := by
  unfold call
  rw [limit?_unlimited h]

section
variable {limit : Option Number} {operation : TimedOperation} {x : Action ω α} {s t : ω}
  {o : Outcome α}

/-- Within a limit, a value is returned and a failure raised as it is, unless the failure says that a
time limit has passed. -/
theorem run_call_kept (h : x.run s = (o, t)) (ends : o.ended = true)
    (kept : o.saysTimeout = false) : (call limit operation x).run s = (o, t) := by
  unfold call
  cases limit? limit with
  | none => exact h
  | some n =>
    rw [Action.run_bind, Action.run_observe, h]
    cases o with
    | returned a => rfl
    | raised f =>
      have own : isTimeout f = false := kept
      dsimp only
      rw [if_neg (Bool.eq_false_iff.1 own)]
      rfl
    | stalled => cases ends

/-- A limit that counts takes a failure which says that a time limit has passed for an action that
never ends: both are noted, and the call fails with the failure of the limit. -/
theorem run_call_abandoned (counts : limit? limit = some n) (h : x.run s = (o, t))
    (late : o = .stalled ∨ o.saysTimeout = true) : (call limit operation x).run s =
      (.raised (Failure.expired operation n), ((noteAbandoned n).run t).2) := by
  have abandoned : (noteAbandoned n >>= fun _ => expire operation n : Action ω α).run t =
      (.raised (Failure.expired operation n), ((noteAbandoned n).run t).2) := by
    rw [Action.run_bind_of_returned (noteAbandoned_run n t)]
    rfl
  unfold call
  rw [counts]
  dsimp only
  rw [Action.run_bind, Action.run_observe, h]
  cases o with
  | returned a => exact absurd late (by simp [Outcome.saysTimeout])
  | raised f =>
    have timeout : isTimeout f = true := late.resolve_left nofun
    dsimp only
    rw [if_pos timeout]
    exact abandoned
  | stalled => exact abandoned

/-- What a limit that counts takes for the passing of a time limit. -/
theorem call_timedOut_iff {seconds : String} (counts : limit? limit = some n)
    (shown : Failure.expired operation n = .timedOut operation n seconds) :
    ((call limit operation x).run s).1.timedOut = true ↔
      (x.run s).1 = .stalled ∨ (x.run s).1.saysTimeout = true ∨ (x.run s).1.timedOut = true := by
  rcases h : x.run s with ⟨o, t⟩
  by_cases late : o = .stalled ∨ o.saysTimeout = true
  · rw [run_call_abandoned counts h late, shown, ← or_assoc]
    exact iff_of_true rfl (.inl late)
  · obtain ⟨stalled, kept⟩ := not_or.1 late
    have ends : o.ended = true := by
      cases o with
      | stalled => exact absurd rfl stalled
      | _ => rfl
    rw [run_call_kept h ends (Bool.eq_false_iff.2 kept)]
    simp [stalled, kept]

end

/-- An engine whose load fails because a connection timed out. -/
def disconnected : World MemoryEngine where
  host := {}
  engine := { loads := [.raises (.raised .timeout "connection timed out")] }

end

/-! ## Events -/

end Deadline

/-- Before each of its events an execution makes `B` of `I`, and else it changes the state by `F`. -/
structure Execution.Hands {ω ε : Type} (x : Execution ω ε) (I B : List ε → ω → Prop)
    (F : Evolution ω) : Prop where
  before : ∀ m ∈ x.emissions, ∀ {done s}, I done s → B done (m.before s)
  close : ∀ m ∈ x.emissions, ∀ s, F s (m.close s)
  finish : x.finish.Follows F

theorem Execution.Follows.hands {ω ε : Type} {x : Execution ω ε} {I : List ε → ω → Prop}
    {F : Evolution ω} (h : x.Follows F) (keeps : ∀ {done s t}, F s t → I done s → I done t) :
    x.Hands I I F where
  before m hm _ s := keeps (h.before m hm s)
  close := h.close
  finish := h.finish

namespace Deadline

section
variable {ω ε : Type} {F : Evolution ω} {I B : List ε → ω → Prop} {wait last : Action ω Unit}
  {handle : ε → Action ω Demand}

/-- What never ends is taken for what fails because the limit has passed. -/
theorem run_unstalled {α : Type} (operation : TimedOperation) (n : Number) (x : Action ω α) (s : ω) :
    (unstalled operation n x).run s = match x.run s with
      | (.stalled, t) => (.raised (Failure.expired operation n), t)
      | ended => ended := by
  unfold unstalled
  rw [Action.run_bind, Action.run_observe]
  rcases x.run s with ⟨o, t⟩
  cases o <;> rfl

section
variable {m : Emission ω ε} {ms : List (Emission ω ε)} {close : ω → ω} {s t : ω} {f : Failure}

theorem handOver_refused (hw : wait.run s = (.raised f, s)) :
    (handOver wait handle last ms close).run s = (.raised f, close s) := by
  cases ms <;> exact Action.run_bind_of_returned (Action.attempt_error.2 hw)

theorem handOver_nil (hw : wait.run s = (.returned (), s)) :
    (handOver wait handle last [] close).run s = last.run s :=
  Action.run_bind_of_returned (Action.attempt_ok.2 hw)

theorem handOver_cons (hw : wait.run s = (.returned (), s))
    (hh : (handle m.event).run (m.before s) = (.returned .more, t)) :
    (handOver wait handle last (m :: ms) close).run s =
      (handOver wait handle last ms m.close).run t := by
  refine (Action.run_bind_of_returned (Action.attempt_ok.2 hw)).trans ?_
  exact Action.run_bind_of_returned (Action.attempt_ok.2 hh)

end

/-- A consumer that always wants more comes to know of a first part of the events: `I` says what is so
after those that it was handed, and `B` what is so when it is about to be handed one more. An event on
which the consumer fails may count as handed or not. -/
theorem handOver_delivers (keeps : ∀ {done s t}, F s t → I done s → I done t)
    (hw : wait.Follows F) (hl : last.Follows F)
    (hh : ∀ {done a s o t}, B done s → (handle a).run s = (o, t) →
      I (done ++ [a]) t ∨ (∀ d, o ≠ .returned d) ∧ I done t)
    (more : ∀ a s d t, (handle a).run s = (.returned d, t) → d = .more) :
    ∀ (ms : List (Emission ω ε)) (close : ω → ω) {done : List ε} {s u : ω} {o : Outcome Unit},
      (∀ m ∈ ms, ∀ {done s}, I done s → B done (m.before s)) → (∀ m ∈ ms, ∀ s, F s (m.close s)) →
      (∀ s, F s (close s)) → I done s → (handOver wait handle last ms close).run s = (o, u) →
      ∃ part, part <+: ms.map (·.event) ∧ I (done ++ part) u ∧
        (o = .returned () → part = ms.map (·.event))
  | [], close, done, s, u, o, _, _, hc, hs, h => by
    have ended : I done u := by
      rcases Action.attempt_bind_eq h with ⟨_, t, hx, h⟩ | ⟨f, t, hx, h⟩ | ⟨hx, -⟩
      · exact keeps (hl.of_run h) (keeps (hw.of_run hx) hs)
      · cases h
        exact keeps (hc t) (keeps (hw.of_run hx) hs)
      · exact keeps (hw.of_run hx) hs
    exact ⟨[], List.nil_prefix, by rwa [List.append_nil], fun _ => rfl⟩
  | m :: rest, close, done, s, u, o, hbs, hcs, hc, hs, h => by
    have nothing (hu : I done u) (failed : o ≠ .returned ()) :
        ∃ part, part <+: (m :: rest).map (·.event) ∧ I (done ++ part) u ∧
          (o = .returned () → part = (m :: rest).map (·.event)) :=
      ⟨[], List.nil_prefix, by rwa [List.append_nil], fun ho => absurd ho failed⟩
    rcases Action.attempt_bind_eq h with ⟨_, t, hx, h⟩ | ⟨f, t, hx, h⟩ | ⟨hx, rfl⟩
    · have ht : B done (m.before t) := hbs m (.head _) (keeps (hw.of_run hx) hs)
      obtain ⟨_, _, ⟨⟩, h⟩ := Action.bind_total h ⟨_, _, rfl⟩
      rcases Action.attempt_bind_eq h with ⟨d, v, hx, h⟩ | ⟨f, v, hx, h⟩ | ⟨hx, rfl⟩
      · obtain rfl := more _ _ _ _ hx
        have hv : I (done ++ [m.event]) v := (hh ht hx).resolve_right fun h => h.1 _ rfl
        obtain ⟨part, hp, hu, all⟩ := handOver_delivers keeps hw hl hh more rest m.close
          (fun m' h {_ _} => hbs m' (.tail _ h)) (fun m' h => hcs m' (.tail _ h)) (hcs m (.head _)) hv h
        refine ⟨m.event :: part, List.cons_prefix_cons.2 ⟨rfl, hp⟩, ?_, fun ho => by rw [all ho]; rfl⟩
        rwa [List.append_assoc] at hu
      · cases h
        rcases hh ht hx with hv | ⟨-, hv⟩
        · exact ⟨[m.event], List.cons_prefix_cons.2 ⟨rfl, List.nil_prefix⟩,
            keeps (hcs m (.head _) v) hv, nofun⟩
        · exact nothing (keeps (hcs m (.head _) v) hv) nofun
      · rcases hh ht hx with hv | ⟨-, hv⟩
        · exact ⟨[m.event], List.cons_prefix_cons.2 ⟨rfl, List.nil_prefix⟩, hv, nofun⟩
        · exact nothing hv nofun
    · cases h
      exact nothing (keeps (hc t) (keeps (hw.of_run hx) hs)) nofun
    · exact nothing (keeps (hw.of_run hx) hs) nofun

variable [Hosted ω]

/-- Within a limit an execution may not even be started, and a first part of its events is handed
over. -/
theorem relay_delivers {start : Action ω (Execution ω ε)} {limit : Option Number}
    {operation : TimedOperation} {s u : ω} {o : Outcome Unit}
    (keeps : ∀ {done s t}, F s t → I done s → I done t) (hs : start.Follows F)
    (hx : ∀ {s x t}, start.run s = (.returned x, t) → x.Hands I B F)
    (hh : ∀ {done a s o t}, B done s → (handle a).run s = (o, t) →
      I (done ++ [a]) t ∨ (∀ d, o ≠ .returned d) ∧ I done t)
    (more : ∀ a s d t, (handle a).run s = (.returned d, t) → d = .more)
    (first : I [] s) (h : (relay limit operation start handle).run s = (o, u)) :
    (I [] u ∧ o ≠ .returned ()) ∨ ∃ x t part, start.run s = (.returned x, t) ∧ part <+: x.events ∧
      I part u ∧ (o = .returned () → part = x.events) := by
  -- the events of an execution that was started by `begin` are handed over
  have handed {begin : Action ω (Execution ω ε)} {wait : Action ω Unit}
      {finish : Execution ω ε → Action ω Unit} (hw : wait.Follows F) (hb : begin.Follows F)
      (started : ∀ {s x t}, begin.run s = (.returned x, t) → start.run s = (.returned x, t))
      (hf : ∀ {s x t}, begin.run s = (.returned x, t) → (finish x).Follows F)
      (h : (begin >>= fun x => handOver wait handle (finish x) x.emissions id).run s = (o, u)) :
      (I [] u ∧ o ≠ .returned ()) ∨ ∃ x t part, start.run s = (.returned x, t) ∧
        part <+: x.events ∧ I part u ∧ (o = .returned () → part = x.events) := by
    rcases Action.bind_eq h with ⟨x, t, hb', h⟩ | ⟨f, hb', rfl⟩ | ⟨hb', rfl⟩
    · have hands := hx (started hb')
      obtain ⟨part, hp, hu, all⟩ := handOver_delivers (I := I) keeps hw (hf hb') hh more _ _
        (fun m hm {_ _} => hands.before m hm) hands.close F.refl (keeps (hb.of_run hb') first) h
      exact .inr ⟨x, t, part, started hb', hp, hu, all⟩
    · exact .inl ⟨keeps (hb.of_run hb') first, nofun⟩
    · exact .inl ⟨keeps (hb.of_run hb') first, nofun⟩
  -- what comes before the start leaves the state as it is
  have after {β : Type} {x : Action ω β} {k : β → Action ω Unit} (hx : x.Follows .still)
      (h : (x >>= k).run s = (o, u)) : (I [] u ∧ o ≠ .returned ()) ∨ ∃ b, (k b).run s = (o, u) := by
    rcases Action.bind_eq h with ⟨b, t, hb, hk⟩ | ⟨f, hb, rfl⟩ | ⟨hb, rfl⟩
    · obtain rfl : t = s := hx.of_run hb
      exact .inr ⟨b, hk⟩
    · obtain rfl : u = s := hx.of_run hb
      exact .inl ⟨first, nofun⟩
    · obtain rfl : u = s := hx.of_run hb
      exact .inl ⟨first, nofun⟩
  unfold relay at h
  cases hl : limit? limit with
  | none =>
    rw [hl] at h
    exact handed (.pure ()) hs id (fun h => (hx h).finish) h
  | some n =>
    rw [hl] at h
    rcases after (.read _) h with failed | ⟨_, h⟩
    · exact .inl failed
    rcases after (.ofNumeric _) h with failed | ⟨_, h⟩
    · exact .inl failed
    rcases after (follows_check _ _ _) h with failed | ⟨_, h⟩
    · exact .inl failed
    exact handed (follows_check _ _ _) (follows_unstalled _ _ hs) unstalled_returned
      (fun h => follows_unstalled _ _ (hx (unstalled_returned h)).finish) h

end

end Deadline

end VideoExport
