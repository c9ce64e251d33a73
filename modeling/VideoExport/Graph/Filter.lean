import VideoExport.Numeric.Number

/-!
# Filters

The filters that a video passes through, each with the numerals it is written with, and their text
in the filter language. `Drawtext.options` lists what the text filter means; its `text` option is
the one whose value is quoted.
-/

set_option autoImplicit false

namespace VideoExport

/-- A number as a filter is given it. -/
abbrev Numeral := String

/-- The entry of working storage that holds the font of the text watermark. -/
def fontEntry : String := "wm_font.ttf"

/-- Text as a filter's option can hold it between apostrophes: a colon is escaped, since it would
end the option, and an apostrophe is left out, since it would end the quotation. -/
def escapeOptionText (s : String) : String :=
  String.ofList (s.toList.flatMap fun c =>
    if c = ':' then ['\\', ':'] else if c = '\'' then [] else [c])

/-- The text drawn over the video. -/
structure Drawtext where
  content : String
  x : Numeral
  y : Numeral
  size : Numeral
  color : String
  opacity : Numeral
  shadowOpacity : Numeral
  deriving DecidableEq, Repr

namespace Drawtext

/-- The options with the values they are to have. -/
def options (d : Drawtext) : List (String × String) := [
  ("fontfile", fontEntry),
  ("text", d.content),
  ("x", s!"(w*{d.x}-text_w/2)"),
  ("y", s!"(h*{d.y}-text_h/2)"),
  ("fontsize", d.size),
  ("fontcolor", s!"0x{d.color}@{d.opacity}"),
  ("shadowcolor", s!"black@{d.shadowOpacity}"),
  ("shadowx", "2"),
  ("shadowy", "2")]

/-- An option as it is written: the text is escaped and quoted. -/
def writeOption : String × String → String
  | (key, value) =>
    if key = "text" then s!"{key}='{escapeOptionText value}'" else s!"{key}={value}"

/-- The filter's text. -/
def write (d : Drawtext) : String :=
  "drawtext=" ++ ":".intercalate (d.options.map writeOption)

end Drawtext

/-- A quarter turn. -/
inductive QuarterTurn where
  | clockwise
  | counterClockwise
  deriving DecidableEq, Repr

/-- A filter of the video. -/
inductive VideoFilter where
  /-- Brightness, contrast and saturation. -/
  | color (brightness contrast saturation : Numeral)
  | flip
  | turn (t : QuarterTurn)
  /-- Keeps a part of each dimension, cutting the margin at the left and at the top. -/
  | crop (keep margin : Numeral)
  /-- Scales back what a crop kept. -/
  | uncrop (keep : Numeral)
  | noise (strength : Numeral)
  | text (d : Drawtext)
  | speed (rate : Numeral)
  | fadeIn (duration : Numeral)
  | fadeOut (start duration : Numeral)
  /-- Makes both dimensions even, as the encoder needs them. -/
  | evenSize
  deriving DecidableEq, Repr

namespace VideoFilter

/-- The filter's text. -/
def write : VideoFilter → String
  | .color b c s => s!"eq=brightness={b}:contrast={c}:saturation={s}"
  | .flip => "hflip"
  | .turn .clockwise => "transpose=1"
  | .turn .counterClockwise => "transpose=2"
  | .crop keep margin => s!"crop=iw*{keep}:ih*{keep}:iw*{margin}:ih*{margin}"
  | .uncrop keep => s!"scale=iw/{keep}:ih/{keep}"
  | .noise strength => s!"noise=alls={strength}:allf=t+u"
  | .text d => d.write
  | .speed rate => s!"setpts=PTS/{rate}"
  | .fadeIn duration => s!"fade=t=in:st=0:d={duration}"
  | .fadeOut start duration => s!"fade=t=out:st={start}:d={duration}"
  | .evenSize => "scale=trunc(iw/2)*2:trunc(ih/2)*2"

end VideoFilter

/-- A filter of the sound: its speed is multiplied by a factor. -/
structure TempoFilter where
  factor : Numeral
  deriving DecidableEq, Repr

def TempoFilter.write (f : TempoFilter) : String := s!"atempo={f.factor}"

end VideoExport
