/-!
# Filter graphs

The inputs of a command and the chains that they pass through. A simple graph has one chain for the
video and one for the sound; a complex one has chains that are joined by labelled pads.
-/

set_option autoImplicit false

namespace VideoExport

/-- Filters and chains of a command, in text. -/
structure FilterGraph where
  inputs : List String := []
  video : List String := []
  audio : List String := []
  /-- Chains of a complex graph. -/
  chains : List String := []
  /-- The pad with the video of a complex graph. -/
  videoOutput : Option String := none
  deriving DecidableEq, Repr

namespace FilterGraph

def addInput (g : FilterGraph) (name : String) : FilterGraph :=
  { g with inputs := g.inputs ++ [name] }

def addVideo (g : FilterGraph) (filter : String) : FilterGraph :=
  { g with video := g.video ++ [filter] }

def addAudio (g : FilterGraph) (filter : String) : FilterGraph :=
  { g with audio := g.audio ++ [filter] }

def addChain (g : FilterGraph) (chain : String) : FilterGraph :=
  { g with chains := g.chains ++ [chain] }

/-- Whether there are chains of a complex graph. -/
def isComplex (g : FilterGraph) : Bool := !g.chains.isEmpty

/-- The filters of the video, joined. -/
def videoChain (g : FilterGraph) : String := ",".intercalate g.video

/-- The filters of the sound, joined. -/
def audioChain (g : FilterGraph) : String := ",".intercalate g.audio

/-- The chains of a complex graph, joined. -/
def complexText (g : FilterGraph) : String := ";".intercalate g.chains

end FilterGraph

end VideoExport
