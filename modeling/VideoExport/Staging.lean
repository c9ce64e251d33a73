import VideoExport.Engine.Basic

/-!
# Staging

A job notes the names of the entries that it makes in working storage, and removes them all when it
ends, however it ends (`Storage.release`). Removing an entry never fails.
-/

set_option autoImplicit false

namespace VideoExport

/-- A world, and the names that a job has claimed in working storage, in the order of their first
claim. -/
structure Storage (σ : Type) extends World σ where
  claimed : List String := []

variable {σ : Type}

instance : Hosted (Storage σ) where
  host s := s.host
  withHost s h := { s with host := h }

instance : MonadLift (Action (World σ)) (Action (Storage σ)) where
  monadLift := Action.zoom (·.toWorld) fun s w => { s with toWorld := w }

namespace Storage

/-- Notes a name for removal. -/
def claim (name : String) : Action (Storage σ) Unit :=
  .modify fun s =>
    if name.isEmpty || s.claimed.contains name then s else { s with claimed := s.claimed ++ [name] }

/-- Notes names for removal, in order. -/
def claimAll : List String → Action (Storage σ) Unit
  | [] => pure ()
  | name :: rest => do
    claim name
    claimAll rest

/-- Writes an entry, which is noted for removal even if it cannot be written. -/
def stage (e : Engine σ) (name : String) (content : ByteArray) : Action (Storage σ) Unit := do
  claim name
  match ← (liftM (e.write name content) : Action (Storage σ) Unit).attempt with
  | .ok () => pure ()
  | .error f => .raise (.staging name f.message)

/-- Removes an entry, if there is one. -/
def discard (e : Engine σ) (name : String) : Action (Storage σ) Unit := do
  match ← (liftM (e.delete name) : Action (Storage σ) Unit).attempt with
  | .ok () => pure ()
  | .error f =>
    if f.isNotFound then pure ()
    else Host.log .debug "StagedFiles" s!"Falha ao remover {name}: {f.message}"

/-- Removes entries in order. -/
def discardAll (e : Engine σ) : List String → Action (Storage σ) Unit
  | [] => pure ()
  | name :: rest => do
    discard e name
    discardAll e rest

/-- Removes entries that are left from before. -/
def purge (e : Engine σ) (names : List String) : Action (Storage σ) Unit :=
  discardAll e (names.filter (!·.isEmpty))

/-- Removes all claimed entries, the last one first. -/
def release (e : Engine σ) : Action (Storage σ) Unit := do
  let s ← Action.get
  discardAll e s.claimed.reverse
  .modify fun s => { s with claimed := [] }

end Storage

end VideoExport
