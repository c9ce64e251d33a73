import VideoExport.Settings.Basic

/-!
# Sanitizing

`Settings.ofDraft` makes settings of whatever was given: a number is brought into its field's range,
anything else that a field cannot hold is replaced by the field's default. `Settings.sanitize` does
so for any input, and `Settings.update` changes some fields of settings and sanitizes the outcome.
The one thing that is refused is a text field given an integer too long to be written.
-/

set_option autoImplicit false

namespace VideoExport

/-- A closed range of numbers and the number that stands in for what is not one. -/
structure Bounds where
  lo : Number
  hi : Number
  fallback : Number

/-- Whether a value is a finite number; a switch is none. -/
def Value.isFiniteNumber : Value → Bool
  | .number n => n.isFinite
  | _ => false

/-- A finite number as it is; anything else as the fallback. -/
def Value.finiteOr (v : Option Value) (fallback : Number) : Number :=
  match v with
  | some (.number n) => if n.isFinite then n else fallback
  | _ => fallback

/-- A finite number in the range; anything else as the fallback, in the range too. -/
def Bounds.admit (b : Bounds) (v : Option Value) : Number :=
  (Value.finiteOr v b.fallback).clamp b.lo b.hi

/-- The range of a field that holds a number. -/
def Field.bounds? : Field → Option Bounds
  | .brightness => some ⟨.int (-1), 1, 0⟩
  | .contrast => some ⟨0, 2, 1⟩
  | .saturation => some ⟨0, 3, 1⟩
  | .smartCrop => some ⟨0, .decimal 2 1, 0⟩
  | .filmGrain => some ⟨0, 100, 0⟩
  | .fadeDuration => some ⟨.decimal 1 1, .decimal 20 1, .decimal 5 1⟩
  | .textX => some ⟨0, 100, 5⟩
  | .textY => some ⟨0, 100, 5⟩
  | .textSize => some ⟨8, 200, 24⟩
  | .textFontWeight => some ⟨100, 900, 700⟩
  | .textOpacity => some ⟨0, 100, 100⟩
  | .imageX => some ⟨0, 100, 5⟩
  | .imageY => some ⟨0, 100, 5⟩
  | .imageScale => some ⟨.decimal 5 2, .decimal 20 1, .decimal 25 2⟩
  | .imageOpacity => some ⟨0, 100, 90⟩
  | .playbackRate => some ⟨.decimal 95 2, .decimal 105 2, 1⟩
  | _ => none

/-! ## Reading one field -/

namespace Draft

/-- The number of a field, in its range. -/
def number (d : Draft) (f : Field) : Number :=
  match f.bounds? with
  | some b => b.admit (d.value? f)
  | none => 0

/-- The switch of a field. -/
def switch (d : Draft) (f : Field) (fallback : Bool) : Bool :=
  match d.value? f with
  | none | some .null => fallback
  | some v => v.isTruthy

/-- The text of a field; a value that is no text is displayed. -/
def text (d : Draft) (f : Field) (fallback : String) : Except NumericError String :=
  match d.value? f with
  | none | some .null => .ok fallback
  | some v => v.display

end Draft

/-- Whether a character is a hexadecimal digit. -/
def isHexDigit (c : Char) : Bool :=
  ('0' ≤ c && c ≤ '9') || ('a' ≤ c && c ≤ 'f') || ('A' ≤ c && c ≤ 'F')

/-- A number sign and six hexadecimal digits; a line break may follow. -/
def isColor (s : String) : Bool :=
  match s.toList with
  | '#' :: rest =>
    (rest.take 6).length = 6 && (rest.take 6).all isHexDigit
      && (rest.drop 6 = [] || rest.drop 6 = ['\n'])
  | _ => false

namespace Draft

/-- A colour as it is, and anything else as white. -/
def color (d : Draft) : String :=
  match d.value? .textColor with
  | some (.text s) => if isColor s then s else "#ffffff"
  | _ => "#ffffff"

/-- One of the four quarter turns; any other angle is none. -/
def rotation (d : Draft) : Int :=
  let n := Value.finiteOr (d.value? .rotation) 0
  (([0, 90, 180, 270] : List Int).find? fun angle => n.same (.int angle)).getD 0

/-- The font style: italic only if it is asked for by name. -/
def fontStyle (d : Draft) : FontStyle :=
  match d.value? .textFontStyle with
  | some (.text s) => if s = "italic" then .italic else .normal
  | _ => .normal

end Draft

/-! ## Sanitizing all fields -/

/-- What settings are made of: a record with a value for every field, or any value. -/
inductive Raw where
  | record (r : Record)
  | value (v : Value)

/-- The fields that an input gives. -/
def Raw.draft : Raw → Draft
  | .record r => r.draft
  | .value v => Draft.ofValue v

namespace Settings

/-- The settings that a draft stands for. The image watermark is on only where an image is
attached. -/
def ofDraft (d : Draft) (hasImage : Bool) : Except NumericError Settings := do
  return {
    brightness := d.number .brightness
    contrast := d.number .contrast
    saturation := d.number .saturation
    smartCrop := d.number .smartCrop
    flipHorizontal := d.switch .flipHorizontal false
    rotation := d.rotation
    filmGrain := d.number .filmGrain
    fadeEnabled := d.switch .fadeEnabled false
    fadeDuration := d.number .fadeDuration
    text := {
      content := ← d.text .textContent ""
      x := d.number .textX
      y := d.number .textY
      size := d.number .textSize
      fontFamily := ← d.text .textFontFamily "Arial"
      fontWeight := d.number .textFontWeight
      fontStyle := d.fontStyle
      color := d.color
      opacity := d.number .textOpacity }
    image := {
      enabled := hasImage && d.switch .imageEnabled false
      x := d.number .imageX
      y := d.number .imageY
      scale := d.number .imageScale
      opacity := d.number .imageOpacity }
    playbackRate := d.number .playbackRate
    regenerateMetadata := d.switch .regenerateMetadata true }

/-- The settings that an input stands for. -/
def sanitize (raw : Raw) (hasImage : Bool) : Except NumericError Settings :=
  ofDraft raw.draft hasImage

/-- Settings sanitized once more. -/
def resanitize (s : Settings) (hasImage : Bool) : Except NumericError Settings :=
  sanitize (.record s.record) hasImage

/-- The entries of a record under their names, with changes set by key. -/
def merged (current : Record) (changes : List (String × Value)) : List (String × Value) :=
  changes.foldl (fun entries (k, v) => Value.setEntry entries k v) current.entries

/-- Some fields changed, and the outcome sanitized. -/
def update (current : Record) (changes : List (String × Value)) (hasImage : Bool) :
    Except NumericError Settings :=
  ofDraft (Draft.ofEntries (merged current changes)) hasImage

end Settings

end VideoExport
