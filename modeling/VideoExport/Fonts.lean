import VideoExport.Engine.Basic
import VideoExport.Graph.Filter
import VideoExport.Media.Basic

/-!
# The font of the text watermark

The font stands in working storage under one name. A `FontLoader` remembers whose font that is, so
that it is written again only if another is wanted. That a font cannot be loaded is no failure.
-/

set_option autoImplicit false

namespace VideoExport

/-- The key of the default font. -/
def defaultFontKey : String := "__default__"

/-- Where the default font comes from, and the key of the font that is loaded. -/
structure FontLoader where
  path : Option String := none
  url : Option String := none
  limit : Number := .decimal 300 1
  loaded : Option String := none

namespace FontLoader

def logSource : String := "FontResolver"

/-- The key of a font. -/
def key : Option MediaFile → Action Host String
  | some font => font.identityKey
  | none => pure defaultFontKey

/-- The default font: a file if it exists, or else a download. -/
def defaultContent (l : FontLoader) : Action Host ByteArray := do
  let file := (l.path.filter (!·.isEmpty)).map fun p => (Path.ofString p).toString
  match file with
  | some path =>
    if ← Host.pathExists path then Host.readFile path else download
  | none => download
where
  download : Action Host ByteArray :=
    match l.url.filter (!·.isEmpty) with
    | none => .raise .noDefaultFont
    | some url => do
      Host.log .info logSource s!"Baixando fonte padrão: {url}"
      Host.download url l.limit

/-- The content of a font. -/
def content (l : FontLoader) : Option MediaFile → Action Host ByteArray
  | some font => font.content
  | none => l.defaultContent

variable {σ : Type}

/-- Writes a font unless it is there already; gives its key, and whether it was written. -/
def place (e : Engine σ) (l : FontLoader) (font : Option MediaFile) :
    Action (World σ) (String × Bool) := do
  let key ← key font
  if l.loaded = some key then return (key, false)
  e.write fontEntry (← l.content font)
  return (key, true)

/-- Sees to it that a font is in working storage: whether it is, and the loader afterwards. -/
def ensure (e : Engine σ) (l : FontLoader) (font : Option MediaFile) :
    Action (World σ) (Bool × FontLoader) := do
  match ← (place e l font).attempt with
  | .error f =>
    Host.log .warning logSource
      s!"Não foi possível carregar a fonte; a marca d'água de texto pode falhar: {f.message}"
    return (false, l)
  | .ok (_, false) => return (true, l)
  | .ok (key, true) =>
    Host.log .info logSource s!"Fonte carregada: {key}"
    return (true, { l with loaded := some key })

/-- The loader without memory of a font. -/
def forget (l : FontLoader) : FontLoader := { l with loaded := none }

end FontLoader

end VideoExport
