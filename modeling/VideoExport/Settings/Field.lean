import VideoExport.Json.Value

/-!
# Fields of the settings

The settings have twenty-five fields. Each has a name and the key under which documents store it;
a mapping may use either spelling (`Field.ofSpelling?`).
-/

set_option autoImplicit false

namespace VideoExport

/-- A field of the settings. -/
inductive Field where
  | brightness
  | contrast
  | saturation
  | smartCrop
  | flipHorizontal
  | rotation
  | filmGrain
  | fadeEnabled
  | fadeDuration
  | textContent
  | textX
  | textY
  | textSize
  | textFontFamily
  | textFontWeight
  | textFontStyle
  | textColor
  | textOpacity
  | imageEnabled
  | imageX
  | imageY
  | imageScale
  | imageOpacity
  | playbackRate
  | regenerateMetadata
  deriving DecidableEq, Repr

namespace Field

/-- The fields in the order in which documents list them. -/
def all : List Field := [
  .brightness, .contrast, .saturation, .smartCrop, .flipHorizontal, .rotation, .filmGrain,
  .fadeEnabled, .fadeDuration, .textContent, .textX, .textY, .textSize, .textFontFamily,
  .textFontWeight, .textFontStyle, .textColor, .textOpacity, .imageEnabled, .imageX, .imageY,
  .imageScale, .imageOpacity, .playbackRate, .regenerateMetadata]

/-- The name of a field. -/
def name : Field → String
  | .brightness => "brightness"
  | .contrast => "contrast"
  | .saturation => "saturation"
  | .smartCrop => "smart_crop"
  | .flipHorizontal => "flip_h"
  | .rotation => "rotation"
  | .filmGrain => "film_grain"
  | .fadeEnabled => "fade_enabled"
  | .fadeDuration => "fade_duration"
  | .textContent => "watermark_text"
  | .textX => "watermark_x"
  | .textY => "watermark_y"
  | .textSize => "watermark_size"
  | .textFontFamily => "watermark_font_family"
  | .textFontWeight => "watermark_font_weight"
  | .textFontStyle => "watermark_font_style"
  | .textColor => "watermark_color"
  | .textOpacity => "watermark_opacity"
  | .imageEnabled => "watermark_image_enabled"
  | .imageX => "watermark_image_x"
  | .imageY => "watermark_image_y"
  | .imageScale => "watermark_image_scale"
  | .imageOpacity => "watermark_image_opacity"
  | .playbackRate => "playback_rate"
  | .regenerateMetadata => "regenerate_metadata"

/-- The key of a field in documents. -/
def key : Field → String
  | .brightness => "brightness"
  | .contrast => "contrast"
  | .saturation => "saturation"
  | .smartCrop => "smartCrop"
  | .flipHorizontal => "flipH"
  | .rotation => "rotation"
  | .filmGrain => "filmGrain"
  | .fadeEnabled => "fadeEnabled"
  | .fadeDuration => "fadeDuration"
  | .textContent => "watermarkText"
  | .textX => "watermarkX"
  | .textY => "watermarkY"
  | .textSize => "watermarkSize"
  | .textFontFamily => "watermarkFontFamily"
  | .textFontWeight => "watermarkFontWeight"
  | .textFontStyle => "watermarkFontStyle"
  | .textColor => "watermarkColor"
  | .textOpacity => "watermarkOpacity"
  | .imageEnabled => "watermarkImageEnabled"
  | .imageX => "watermarkImageX"
  | .imageY => "watermarkImageY"
  | .imageScale => "watermarkImageScale"
  | .imageOpacity => "watermarkImageOpacity"
  | .playbackRate => "playbackRate"
  | .regenerateMetadata => "regenerateMetadata"

/-- The field that a spelling stands for: a field's name or its key. -/
def ofSpelling? (s : String) : Option Field :=
  (all.find? fun f => f.name = s) <|> all.find? fun f => f.key = s

theorem mem_all (f : Field) : f ∈ all := by cases f <;> decide

end Field

/-- Values for some of the fields, in the order in which they were given. -/
abbrev Draft := List (Field × Value)

namespace Draft

/-- The value of a field: the one that was given last. -/
def value? (d : Draft) (f : Field) : Option Value := d.reverse.lookup f

/-- The entries of a mapping that spell a field; the others are ignored. -/
def ofEntries (entries : List (String × Value)) : Draft :=
  entries.filterMap fun (k, v) => (Field.ofSpelling? k).map (·, v)

/-- What a value gives: a map gives its entries, anything else nothing. -/
def ofValue : Value → Draft
  | .map entries => ofEntries entries
  | _ => []

end Draft

/-- A value of any kind for every field, before anything was checked. -/
abbrev Record := Field → Value

namespace Record

/-- All fields as a draft. -/
def draft (r : Record) : Draft := Field.all.map fun f => (f, r f)

/-- All fields as entries under their names. -/
def entries (r : Record) : List (String × Value) := Field.all.map fun f => (f.name, r f)

/-- The document that stores the record. -/
def document (r : Record) : Value := .map (Field.all.map fun f => (f.key, r f))

/-- The record with the fields of a draft replaced. -/
def override (r : Record) (d : Draft) : Record := fun f => (d.value? f).getD (r f)

end Record

end VideoExport
