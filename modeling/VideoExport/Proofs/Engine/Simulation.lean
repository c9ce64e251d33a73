import VideoExport.Proofs.Engine.Recording
import VideoExport.Proofs.Simulation

/-!
# Engines that mirror each other

`Engine.Mirrors W E e e'`: from worlds that `W` relates, each operation of `e` mirrors that of `e'`, and
their executions emit events that `E` relates. So does an engine with a record of its steps mirror the
engine itself, in the world without the record (`Engine.mirrors_recorded`).
-/

set_option autoImplicit false

namespace VideoExport

variable {σ σ' : Type}

/-- A world, with the state of its engine seen through `f`. -/
def World.map (f : σ → σ') (w : World σ) : World σ' := ⟨w.host, f w.engine⟩

/-- Related worlds have the same host, whatever becomes of it. -/
structure World.Alike (W : World σ → World σ' → Prop) : Prop where
  host : ∀ w w', W w w' → w.host = w'.host
  withHost : ∀ w w' h, W w w' → W { w with host := h } { w' with host := h }

theorem World.alike_seen (f : σ → σ') : World.Alike (Seen (World.map f)) where
  host w w' seen := by rw [seen]; rfl
  withHost w w' h seen := by rw [seen]; rfl

/-- In worlds that `W` relates, one engine does what the other does, and emits events that `E` relates. -/
structure Engine.Mirrors (W : World σ → World σ' → Prop) (E : EngineEvent → EngineEvent → Prop)
    (e : Engine σ) (e' : Engine σ') : Prop where
  isLoaded : ∀ w w', W w w' → e.isLoaded w.engine = e'.isLoaded w'.engine
  load : e.load.Mirrors W e'.load
  write : ∀ name content, (e.write name content).Mirrors W (e'.write name content)
  read : ∀ name, (e.read name).Mirrors W (e'.read name)
  delete : ∀ name, (e.delete name).Mirrors W (e'.delete name)
  execute : ∀ arguments, (e.execute arguments).Simulates W (Execution.Mirrors W E)
    (e'.execute arguments)
  reset : e.reset.Mirrors W e'.reset

/-- Without the record of its steps, an engine is seen as it is. -/
abbrev Unrecorded : World (Recorded σ) → World σ → Prop := Seen (World.map Recorded.engine)

theorem mirrors_recorded {α : Type} (act : EngineAct) (x : Action (World σ) α) :
    (Action.recorded act x).Mirrors Unrecorded x := by
  rintro w _ rfl
  exact ⟨Outcome.alike_refl _, rfl⟩

theorem emissionsMirror_recorded (arguments : List String) :
    ∀ ms : List (Emission (World σ) EngineEvent), List.Forall₂ (Emission.Mirrors Unrecorded Eq)
      (Execution.recorded arguments ⟨ms, .stall⟩).emissions ms
  | [] => .nil
  | _ :: ms => .cons ⟨rfl, by rintro _ _ rfl; rfl, by rintro _ _ rfl; rfl⟩
      (emissionsMirror_recorded arguments ms)

theorem mirrors_recordedExecution (arguments : List String)
    (x : Execution (World σ) EngineEvent) :
    Execution.Mirrors Unrecorded Eq (x.recorded arguments) x where
  emissions := emissionsMirror_recorded arguments x.emissions
  finish := mirrors_recorded _ _

/-- A record of the steps changes nothing else. -/
theorem Engine.mirrors_recorded (e : Engine σ) : Engine.Mirrors Unrecorded Eq e.recorded e where
  isLoaded w w' seen := by rw [seen]; rfl
  load := VideoExport.mirrors_recorded _ _
  write _ _ := VideoExport.mirrors_recorded _ _
  read _ := VideoExport.mirrors_recorded _ _
  delete _ := VideoExport.mirrors_recorded _ _
  execute arguments := by
    have started : (Action.recorded (.execute arguments) (e.execute arguments) >>= fun x =>
        pure (x.recorded arguments)).Simulates Unrecorded (Execution.Mirrors Unrecorded Eq)
          (e.execute arguments >>= pure) :=
      .bind (VideoExport.mirrors_recorded _ _) fun x y same =>
        .pure (same ▸ mirrors_recordedExecution arguments x)
    intro w w' seen
    have whole : (e.execute arguments >>= pure).run w' = (e.execute arguments).run w' := by
      rw [Action.run_bind]
      rcases (e.execute arguments).run w' with ⟨_ | _ | _, _⟩ <;> rfl
    rw [← whole]
    exact started w w' seen
  reset := VideoExport.mirrors_recorded _ _

end VideoExport
