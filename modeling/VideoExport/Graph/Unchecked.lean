import VideoExport.Graph.Build
import VideoExport.Operand
import VideoExport.Settings.Sanitize

/-!
# Graphs of unchecked records

A record may hold values of any kind. `FilterGraph.ofRecord` builds the graph of a record that was
not sanitized: what is only shown is shown whatever it is, and what a filter computes with is
refused if its kind does not allow the computation, where the computation comes first. Everything
else is as for the settings that the record stands for.
-/

set_option autoImplicit false

namespace VideoExport

/-- The record of an input whose first field to be used is `f`: what is no record lacks it. -/
def Raw.asRecord (raw : Raw) (f : Field) : Except Failure Record :=
  match raw with
  | .record r => .ok r
  | .value v => .error (.misuse (.part v.kindName f.name))

namespace Record

/-- A field that is only shown. -/
def shown (r : Record) (f : Field) : Except Failure Numeral := (r f).shown.mapError .numeric

/-- The value of a computation with numbers. -/
def computed {α : Type} (x : Except NumericError α) : Except Failure α := x.mapError .numeric

def colorFilter (r : Record) : Except Failure VideoFilter := do
  return .color (← r.shown .brightness) (← r.shown .contrast) (← r.shown .saturation)

/-- A percentage as the part of one that it is. -/
def fraction (r : Record) (f : Field) (n : Number) : Except Failure Numeral := do
  (r f).checkDivision (.number 100)
  computed ((Settings.fraction n) >>= Number.compact)

def textFilter (r : Record) : Except Failure VideoFilter := do
  let s := r.unchecked
  (r .textContent).checkReplacement
  let _ ← r.fraction .textX s.text.x
  let _ ← r.fraction .textY s.text.y
  if (r .textColor).isTruthy then (r .textColor).checkReplacement
  (r .textOpacity).checkComparison "<" 100
  let d ← computed s.drawtext
  return .text { d with size := ← r.shown .textSize }

/-- Whether the speed is another than the source's. -/
def changesSpeed (r : Record) : Bool :=
  match (r .playbackRate).asNumber? with
  | some n => !n.same 1
  | none => true

def pictureFilters (r : Record) : Except Failure (List VideoFilter) := do
  let s := r.unchecked
  let color ← r.colorFilter
  (r .smartCrop).checkComparison "<=" 0
  let crop ← computed s.cropFilters
  (r .filmGrain).checkComparison ">" 0
  let noise ← computed (Settings.whenever (Number.lt 0 s.filmGrain) s.noiseFilter)
  let text ← if (r .textContent).isTruthy then do pure [← r.textFilter] else pure []
  let speed ← if r.changesSpeed then do pure [VideoFilter.speed (← r.shown .playbackRate)]
    else pure []
  let flip := if s.flipHorizontal then [VideoFilter.flip] else []
  return [color] ++ flip ++ s.turnFilters ++ crop ++ noise ++ text ++ speed

/-- The fades of a source whose length is given by a value of any kind; one that counts as false is
unknown. -/
def fadeFilters (r : Record) (duration : Value) : Except Failure (List VideoFilter) := do
  let s := r.unchecked
  let rate := r .playbackRate
  if s.fadeEnabled then
    (r .fadeDuration).checkComparison "<=" 0
    if !s.fadeDuration.le 0 && duration.isTruthy then
      duration.checkComparison ">" 0
      if Number.lt 0 (duration.asNumber?.getD 0) && rate.isTruthy then duration.checkDivision rate
  computed (s.fadeFilters (duration.asNumber?.getD 0))

def tempoFilters (r : Record) : Except Failure (List TempoFilter) := do
  if r.changesSpeed then (r .playbackRate).checkComparison "<=" 0
  computed r.unchecked.tempoFilters

def overlay (r : Record) : Except Failure Overlay := do
  (r .imageOpacity).checkComparison "<" 100
  (r .imageScale).checkComparison "<" (.decimal 20 1)
  (r .imageX).checkDivision (.number 100)
  (r .imageY).checkDivision (.number 100)
  computed (Overlay.ofSettings r.unchecked)

end Record

/-- The tempo factors of a speed of any kind. A switch that is on is its own only factor. -/
def tempoFactorsOf (rate : Value) : Except Failure (List Value) := do
  rate.checkComparison "<=" 0
  match rate with
  | .bool true => return [rate]
  | v => return (← (tempoFactors (v.asNumber?.getD 0)).mapError .numeric).map .number

/-- The graph of a record, for a source whose length is given by a value of any kind. -/
def FilterGraph.ofRecord (inputName : String) (r : Record) (duration : Value)
    (context : RenderContext) : Except Failure FilterGraph := do
  let picture ← r.pictureFilters
  let fades ← r.fadeFilters duration
  let tempo ← r.tempoFilters
  let simple : FilterGraph := {
    inputs := [inputName]
    video := (picture ++ fades ++ [VideoFilter.evenSize]).map VideoFilter.write
    audio := tempo.map TempoFilter.write }
  match imageInput? r.unchecked context with
  | some name => return simple.addOverlay name (← r.overlay)
  | none => return simple

end VideoExport
