import VideoExport.Graph.Basic
import VideoExport.Graph.Filter
import VideoExport.Graph.Tempo
import VideoExport.Settings.Basic

/-!
# Building the filter graph

`FilterGraph.build` gives the graph of settings. The order of the video filters matters, since each
works on the picture and the times that those before it made: colour, framing, grain, text, speed,
fades, and last the even dimensions. An image is laid over the outcome as a second input.
-/

set_option autoImplicit false

namespace VideoExport

/-- What a compilation knows of the job besides its settings. -/
structure RenderContext where
  /-- Length of the source in seconds; zero if unknown. -/
  duration : Number := .real (.zero false)
  /-- The time that is written into the metadata; empty for the current time. -/
  timestamp : String := ""
  /-- The entry of working storage that holds the watermark image. -/
  imageName : Option String := none

namespace Settings

/-- A list with one filter if a condition holds. -/
def whenever (condition : Bool) (make : Except NumericError VideoFilter) :
    Except NumericError (List VideoFilter) :=
  if condition then do return [← make] else .ok []

def colorFilter (s : Settings) : Except NumericError VideoFilter := do
  return .color (← s.brightness.compact) (← s.contrast.compact) (← s.saturation.compact)

/-- Quarter turns for an angle; an angle that is no multiple of a quarter turns nothing. -/
def turnFilters (s : Settings) : List VideoFilter :=
  if s.rotation = 90 then [.turn .clockwise]
  else if s.rotation = 180 then [.turn .clockwise, .turn .clockwise]
  else if s.rotation = 270 then [.turn .counterClockwise]
  else []

/-- Cuts a margin off each side and scales what is left back to the old size. -/
def cropFilters (s : Settings) : Except NumericError (List VideoFilter) :=
  if s.smartCrop.le 0 then .ok []
  else do
    let margin := s.smartCrop.clamp 0 (.decimal 2 1)
    let keep ← Number.sub 1 (← Number.mul 2 margin)
    let marginText ← margin.compact
    let keepText ← keep.compact
    return [.crop keepText marginText, .uncrop keepText]

def noiseFilter (s : Settings) : Except NumericError VideoFilter := do
  return .noise (← (s.filmGrain.clamp 0 100).compact)

/-- The part of one that a percentage is. -/
def fraction (percent : Number) : Except NumericError Number := percent.div 100

/-- The colour's digits, without number sign; white if there is no colour. -/
def colorDigits (color : String) : String :=
  let c := if color.isEmpty then "#ffffff" else color
  String.ofList (c.toList.filter (· ≠ '#'))

/-- The text that is drawn. Its shadow is a little more opaque than the text, up to one. -/
def drawtext (s : Settings) : Except NumericError Drawtext := do
  let x ← (← fraction s.text.x).compact
  let y ← (← fraction s.text.y).compact
  let opacity ← fraction (s.text.opacity.clamp 0 100)
  let shadow := Number.least (.decimal 10 1)
    ((← opacity.add (.decimal 2 1)).roundPlaces 4)
  return {
    content := s.text.content
    x, y
    size := ← s.text.size.compact
    color := colorDigits s.text.color
    opacity := ← opacity.compact
    shadowOpacity := ← shadow.compact }

def textFilter (s : Settings) : Except NumericError VideoFilter := do return .text (← s.drawtext)

def speedFilter (s : Settings) : Except NumericError VideoFilter := do
  return .speed (← s.playbackRate.compact)

/-- The filters of the picture up to the speed. -/
def pictureFilters (s : Settings) : Except NumericError (List VideoFilter) := do
  let color ← s.colorFilter
  let crop ← s.cropFilters
  let noise ← whenever (Number.lt 0 s.filmGrain) s.noiseFilter
  let text ← whenever (!s.text.content.isEmpty) s.textFilter
  let speed ← whenever (!s.playbackRate.same 1) s.speedFilter
  let flip := if s.flipHorizontal then [VideoFilter.flip] else []
  return [color] ++ flip ++ s.turnFilters ++ crop ++ noise ++ text ++ speed

/-- The fades: one in, and one out if the length of the source is known. They count the time of the
output, which the speed divides. -/
def fadeFilters (s : Settings) (duration : Number) : Except NumericError (List VideoFilter) :=
  if !s.fadeEnabled || s.fadeDuration.le 0 then .ok []
  else do
    let d := s.fadeDuration.clamp (.decimal 1 1) (.decimal 20 1)
    let dText ← d.compact
    if Number.lt 0 duration then
      let rate := if s.playbackRate.isZero then 1 else s.playbackRate
      let length ← duration.div rate
      let start := Number.greatest (.real (.zero false)) (← length.sub d)
      return [.fadeIn dText, .fadeOut (← (start.roundPlaces 6).compact) dText]
    else return [.fadeIn dText]

/-- The filters of the sound: tempo factors if the speed changes. -/
def tempoFilters (s : Settings) : Except NumericError (List TempoFilter) :=
  if s.playbackRate.same 1 then .ok []
  else do
    (← tempoFactors s.playbackRate).mapM fun factor => do return ⟨← factor.compact⟩

/-- All filters of the video, in order. -/
def videoFilters (s : Settings) (duration : Number) : Except NumericError (List VideoFilter) := do
  return (← s.pictureFilters) ++ (← s.fadeFilters duration) ++ [VideoFilter.evenSize]

end Settings

/-- An image laid over the video: its opacity, its scale and the place of its centre. -/
structure Overlay where
  opacity : Numeral
  scale : Numeral
  x : Numeral
  y : Numeral
  deriving DecidableEq, Repr

namespace Overlay

def ofSettings (s : Settings) : Except NumericError Overlay := do
  let opacity ← Settings.fraction (s.image.opacity.clamp 0 100)
  let scale ← (s.image.scale.clamp (.decimal 5 2) (.decimal 20 1)).compact
  let x ← (← Settings.fraction s.image.x).compact
  let y ← (← Settings.fraction s.image.y).compact
  return ⟨← opacity.compact, scale, x, y⟩

/-- The chain that prepares the video: its filters between the first input and the pad `v0`. -/
def baseChain (videoChain : String) : String :=
  "[0:v]" ++ (if videoChain.isEmpty then "null" else videoChain) ++ "[v0]"

/-- The chain that prepares the image. -/
def imageChain (o : Overlay) : String :=
  s!"[1:v]format=rgba,colorchannelmixer=aa={o.opacity},scale=iw*{o.scale}:ih*{o.scale}[wm]"

/-- The chain that joins both. -/
def joinChain (o : Overlay) : String :=
  s!"[v0][wm]overlay=x=W*{o.x}-w/2:y=H*{o.y}-h/2:format=auto[v]"

end Overlay

namespace FilterGraph

/-- Lays the image, the next input, over the video. -/
def addOverlay (g : FilterGraph) (imageName : String) (o : Overlay) : FilterGraph where
  inputs := g.inputs ++ [imageName]
  video := g.video
  audio := g.audio
  chains := g.chains ++ [Overlay.baseChain g.videoChain, o.imageChain, o.joinChain]
  videoOutput := some "[v]"

/-- The image that the graph takes as an input: one that has a name, if the settings use it. -/
def imageInput? (s : Settings) (context : RenderContext) : Option String :=
  if s.image.enabled then context.imageName.filter (!·.isEmpty) else none

/-- The graph of settings. -/
def build (inputName : String) (s : Settings) (context : RenderContext) :
    Except NumericError FilterGraph := do
  let picture ← s.pictureFilters
  let fades ← s.fadeFilters context.duration
  let tempo ← s.tempoFilters
  let simple : FilterGraph := {
    inputs := [inputName]
    video := (picture ++ fades ++ [VideoFilter.evenSize]).map VideoFilter.write
    audio := tempo.map TempoFilter.write }
  match imageInput? s context with
  | some name => return simple.addOverlay name (← Overlay.ofSettings s)
  | none => return simple

end FilterGraph

end VideoExport
