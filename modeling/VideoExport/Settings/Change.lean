import VideoExport.Failure
import VideoExport.Settings.Sanitize

/-!
# Changes of settings

A change names fields and gives them values. Names that the operation uses for its own arguments
cannot name a field, and a change that does so is refused. A record is made of fields in the same
way, but each name has to be one of a field.
-/

set_option autoImplicit false

namespace VideoExport.Settings

/-- Entries of a change. -/
abbrev Changes := List (String × Value)

/-- Refuses changes that use one of the reserved names. -/
def checkNames (operation : String) (reserved : List String) (changes : Changes) :
    Except Failure Unit :=
  match changes.find? fun e => reserved.contains e.1 with
  | some (name, _) => .error (.reserved ⟨operation, name⟩)
  | none => .ok ()

/-- The settings after a change. -/
def change (current : Record) (changes : Changes) (hasImage : Bool) : Except Failure Settings := do
  checkNames "update_settings" ["current", "has_watermark_image"] changes
  (update current changes hasImage).mapError .numeric

/-- The record with values for fields of some names; the other fields are as by default. -/
def recordOf (fields : Changes) : Except Failure Record := do
  let operation := "VideoSettings.__init__"
  checkNames operation ["self"] fields
  let draft ← fields.mapM fun (name, v) =>
    match Field.all.find? fun f => f.name = name with
    | some f => Except.ok (f, v)
    | none => .error (.misuse (.option operation name))
  return Settings.default.record.override draft

end VideoExport.Settings
