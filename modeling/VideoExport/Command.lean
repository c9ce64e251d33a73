import VideoExport.Graph.Unchecked
import VideoExport.Host.Basic

/-!
# Commands

The arguments of a rendering: the inputs, the graph, the metadata, the encoding and, last, the
output.
-/

set_option autoImplicit false

namespace VideoExport.Command

/-- The value of the metadata's comment. -/
def metadataComment : String := "transformed"

/-- Removes the metadata of the source and writes new ones. -/
def metadataArguments (timestamp : String) : List String := [
  "-map_metadata", "-1",
  "-metadata", s!"creation_time={timestamp}",
  "-metadata", s!"comment={metadataComment}"]

/-- Fast encoding that browsers can play. -/
def encodingArguments : List String := [
  "-preset", "ultrafast", "-pix_fmt", "yuv420p", "-movflags", "+faststart"]

/-- The filters of the video. The sound of a complex graph is taken from the source, if there is
any. -/
def videoArguments (g : FilterGraph) : List String :=
  if g.isComplex then
    ["-filter_complex", g.complexText] ++ ["-map", g.videoOutput.getD ""] ++ ["-map", "0:a?"]
  else if g.video.isEmpty then [] else ["-vf", g.videoChain]

/-- The filters of the sound. -/
def audioArguments (g : FilterGraph) : List String :=
  if g.audio.isEmpty then [] else ["-af", g.audioChain]

/-- The arguments for a graph; `timestamp` is the time for new metadata, if there are to be any. -/
def ofGraph (g : FilterGraph) (timestamp : Option String) (outputName : String) : List String :=
  (g.inputs.flatMap fun name => ["-i", name])
    ++ videoArguments g ++ audioArguments g
    ++ (match timestamp with
      | some t => metadataArguments t
      | none => [])
    ++ encodingArguments ++ [outputName]

/-- The time that the metadata get: the context's, or else the current one. -/
def timestamp (s : Settings) (context : RenderContext) (now : String) : Option String :=
  if s.regenerateMetadata then some (if context.timestamp.isEmpty then now else context.timestamp)
  else none

/-- Whether the metadata get the current time. -/
def needsTime (s : Settings) (context : RenderContext) : Bool :=
  s.regenerateMetadata && context.timestamp.isEmpty

/-- The arguments that render the settings at a time. -/
def arguments (inputName outputName : String) (s : Settings) (context : RenderContext)
    (now : String) : Except NumericError (List String) := do
  let g ← FilterGraph.build inputName s context
  return ofGraph g (timestamp s context now) outputName

/-- Shows a graph in the log. -/
def showGraph (g : FilterGraph) : Action Host Unit :=
  Host.log .debug "GraphBuilder"
    s!"Filtergraph construído: vf={g.videoChain} af={g.audioChain} fc={g.complexText}"

/-- The arguments that render a graph of the settings now, which the log shows. -/
def renderGraph (g : FilterGraph) (outputName : String) (s : Settings) (context : RenderContext) :
    Action Host (List String) := do
  let h ← Action.get
  let now ← Action.ofExcept (if needsTime s context then h.currentTime else .ok "")
  let arguments := ofGraph g (timestamp s context now) outputName
  Host.log .debug "CliBuilder" ("Argumentos FFmpeg: " ++ " ".intercalate arguments)
  return arguments

/-- Builds the graph of the settings, which the log shows. -/
def buildGraph (inputName : String) (s : Settings) (context : RenderContext) :
    Action Host FilterGraph := do
  let g ← Action.ofNumeric (FilterGraph.build inputName s context)
  showGraph g
  return g

/-- The arguments that render the settings now, which the log shows. -/
def compile (inputName outputName : String) (s : Settings) (context : RenderContext) :
    Action Host (List String) := do
  renderGraph (← buildGraph inputName s context) outputName s context

/-- Builds the graph of an unchecked record, which the log shows. -/
def buildRecord (inputName : String) (r : Record) (duration : Value) (context : RenderContext) :
    Action Host FilterGraph := do
  let g ← Action.ofExcept (FilterGraph.ofRecord inputName r duration context)
  showGraph g
  return g

/-- The arguments that render an unchecked record now, which the log shows. -/
def compileRecord (inputName outputName : String) (r : Record) (duration : Value)
    (context : RenderContext) : Action Host (List String) := do
  renderGraph (← buildRecord inputName r duration context) outputName r.unchecked context

end VideoExport.Command
