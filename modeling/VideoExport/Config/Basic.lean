import VideoExport.Numeric.Number

/-!
# Configuration

What an installation can adjust: programs, time limits in seconds, sizes in octets, the log that is
kept of the engine, the default font and the directories.
-/

set_option autoImplicit false

namespace VideoExport

/-- Where the default font is downloaded from. -/
def defaultFontUrl : String :=
  "https://raw.githubusercontent.com/ffmpegwasm/testdata/master/arial.ttf"

/-- The configuration. -/
structure Config where
  encoder : Option String := none
  prober : Option String := none
  loadLimit : Number := .decimal 600 1
  renderLimit : Number := .decimal 12000 1
  probeLimit : Number := .decimal 300 1
  /-- An output below this size counts as empty. -/
  minOutput : Number := 256
  maxInput : Int := 2147483648
  /-- Lines of the engine's log that are kept, all of them without a limit, and how many of them a
  failure shows. -/
  logBuffer : Option Int := some 200
  logTail : Int := 50
  fontPath : Option String := none
  fontUrl : String := defaultFontUrl
  fontLimit : Number := .decimal 300 1
  outputDirectory : String := "output_videos"
  workDirectory : Option String := none
  /-- Make the engine anew after one of its operations took too long. -/
  renewEngine : Bool := true

end VideoExport
