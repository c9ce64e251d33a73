import VideoExport.Settings.Field

/-!
# Settings

The settings of an export: colour, framing, effects, the two watermarks, speed and metadata.
`Settings` has a type for each field; which values are allowed is the matter of `Settings.ofDraft`.
-/

set_option autoImplicit false

namespace VideoExport

/-- Slant of the watermark's font. -/
inductive FontStyle where
  | normal
  | italic
  deriving DecidableEq, Repr

namespace FontStyle

def name : FontStyle → String
  | .normal => "normal"
  | .italic => "italic"

end FontStyle

/-- A text drawn over the video. The place is the centre of the text, in percent. -/
structure TextWatermark where
  content : String := ""
  x : Number := 5
  y : Number := 5
  size : Number := 24
  fontFamily : String := "Arial"
  fontWeight : Number := 700
  fontStyle : FontStyle := .normal
  color : String := "#ffffff"
  opacity : Number := 100
  deriving DecidableEq

/-- An image laid over the video; the image itself is attached elsewhere. -/
structure ImageWatermark where
  enabled : Bool := false
  x : Number := 5
  y : Number := 5
  scale : Number := .decimal 25 2
  opacity : Number := 90
  deriving DecidableEq

/-- The transformations of a video. -/
structure Settings where
  brightness : Number := 0
  contrast : Number := 1
  saturation : Number := 1
  smartCrop : Number := 0
  flipHorizontal : Bool := false
  rotation : Int := 0
  filmGrain : Number := 0
  fadeEnabled : Bool := false
  fadeDuration : Number := .decimal 5 1
  text : TextWatermark := {}
  image : ImageWatermark := {}
  playbackRate : Number := 1
  regenerateMetadata : Bool := true
  deriving DecidableEq

namespace Settings

/-- The settings that change nothing. -/
def default : Settings := {}

instance : Inhabited Settings := ⟨default⟩

/-- The value of each field. -/
def record (s : Settings) : Record
  | .brightness => .number s.brightness
  | .contrast => .number s.contrast
  | .saturation => .number s.saturation
  | .smartCrop => .number s.smartCrop
  | .flipHorizontal => .bool s.flipHorizontal
  | .rotation => .number (.int s.rotation)
  | .filmGrain => .number s.filmGrain
  | .fadeEnabled => .bool s.fadeEnabled
  | .fadeDuration => .number s.fadeDuration
  | .textContent => .text s.text.content
  | .textX => .number s.text.x
  | .textY => .number s.text.y
  | .textSize => .number s.text.size
  | .textFontFamily => .text s.text.fontFamily
  | .textFontWeight => .number s.text.fontWeight
  | .textFontStyle => .text s.text.fontStyle.name
  | .textColor => .text s.text.color
  | .textOpacity => .number s.text.opacity
  | .imageEnabled => .bool s.image.enabled
  | .imageX => .number s.image.x
  | .imageY => .number s.image.y
  | .imageScale => .number s.image.scale
  | .imageOpacity => .number s.image.opacity
  | .playbackRate => .number s.playbackRate
  | .regenerateMetadata => .bool s.regenerateMetadata

/-- Equal field by field; numbers are compared by value, whatever their kind. -/
def same (a b : Settings) : Bool :=
  a.brightness.same b.brightness && a.contrast.same b.contrast && a.saturation.same b.saturation
    && a.smartCrop.same b.smartCrop && a.flipHorizontal == b.flipHorizontal
    && a.rotation == b.rotation && a.filmGrain.same b.filmGrain && a.fadeEnabled == b.fadeEnabled
    && a.fadeDuration.same b.fadeDuration
    && a.text.content == b.text.content && a.text.x.same b.text.x && a.text.y.same b.text.y
    && a.text.size.same b.text.size && a.text.fontFamily == b.text.fontFamily
    && a.text.fontWeight.same b.text.fontWeight && a.text.fontStyle == b.text.fontStyle
    && a.text.color == b.text.color && a.text.opacity.same b.text.opacity
    && a.image.enabled == b.image.enabled && a.image.x.same b.image.x
    && a.image.y.same b.image.y && a.image.scale.same b.image.scale
    && a.image.opacity.same b.image.opacity && a.playbackRate.same b.playbackRate
    && a.regenerateMetadata == b.regenerateMetadata

end Settings

namespace Record

/-- The number in a field: a switch counts as 1 or 0, anything else that is no number as the
default. -/
def number (r : Record) (f : Field) (fallback : Number) : Number :=
  (r f).asNumber?.getD fallback

/-- The text in a field; anything else counts as the default. -/
def text (r : Record) (f : Field) (fallback : String) : String :=
  match r f with
  | .text s => s
  | _ => fallback

/-- The angle in a field; an angle that is no integer turns nothing. -/
def angle (r : Record) (f : Field) : Int :=
  match r.number f 0 with
  | .int n => n
  | .real (.finite x) => if x.value.den = 1 then x.value.num else 0
  | .real _ => 0

/-- The settings that the fields of a record stand for, with no limit on their values. -/
def unchecked (r : Record) : Settings where
  brightness := r.number .brightness 0
  contrast := r.number .contrast 1
  saturation := r.number .saturation 1
  smartCrop := r.number .smartCrop 0
  flipHorizontal := (r .flipHorizontal).isTruthy
  rotation := r.angle .rotation
  filmGrain := r.number .filmGrain 0
  fadeEnabled := (r .fadeEnabled).isTruthy
  fadeDuration := r.number .fadeDuration Settings.default.fadeDuration
  text := {
    content := r.text .textContent ""
    x := r.number .textX 5
    y := r.number .textY 5
    size := r.number .textSize 24
    fontFamily := r.text .textFontFamily "Arial"
    fontWeight := r.number .textFontWeight 700
    fontStyle := if r.text .textFontStyle "" = "italic" then .italic else .normal
    color := r.text .textColor ""
    opacity := r.number .textOpacity 100 }
  image := {
    enabled := (r .imageEnabled).isTruthy
    x := r.number .imageX 5
    y := r.number .imageY 5
    scale := r.number .imageScale Settings.default.image.scale
    opacity := r.number .imageOpacity 90 }
  playbackRate := r.number .playbackRate 1
  regenerateMetadata := (r .regenerateMetadata).isTruthy

end Record

end VideoExport
