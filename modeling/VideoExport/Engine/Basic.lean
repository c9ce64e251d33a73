import VideoExport.Engine.Execution
import VideoExport.Host.Basic
import VideoExport.Progress

/-!
# Engines

An engine transcodes. It has working storage of its own, whose entries it knows by name, and it can
be loaded and reset. The state of an engine is of any type `σ`; together with the host it makes a
`World`.
-/

set_option autoImplicit false

namespace VideoExport

/-- A host and the state of an engine. -/
structure World (σ : Type) where
  host : Host
  engine : σ

instance {σ : Type} : Hosted (World σ) where
  host := (·.host)
  withHost w h := { w with host := h }

/-- The operations of an engine with states of type `σ`. -/
structure Engine (σ : Type) where
  isLoaded : σ → Bool
  load : Action (World σ) Unit
  write : String → ByteArray → Action (World σ) Unit
  read : String → Action (World σ) ByteArray
  /-- Removes an entry; fails if there is none. -/
  delete : String → Action (World σ) Unit
  /-- Starts a command. -/
  execute : List String → Action (World σ) (Execution (World σ) EngineEvent)
  /-- Drops everything, so that the engine can be loaded anew. -/
  reset : Action (World σ) Unit

end VideoExport
