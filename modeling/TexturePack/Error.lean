import TexturePack.Pixel

/-! Why a file or a level is refused. A `FormatError` is an answer about the
file; a `Defect` is a computation that has no answer, and whoever runs a decode
treats it as a crash of the decoder. -/
namespace TexturePack

inductive HeaderFault where
  | notZim
  | notDds
  | notKtx2
  | pngDimensions
  | missingDdsHeader
  | dimensions (container : String) (width height : Nat)
  | zimLevelTooLarge
  | ddsLevelTooLarge (width height : Nat)
  | levelOutsideFile (level : Nat)
  | globalDataOutsideFile
  deriving DecidableEq

inductive UnsupportedContent where
  | zimFormat (format : Nat)
  | zimZstd
  | ddsWithoutFourCC
  | dxgiFormat (format : Nat)
  | fourCC (text : String)
  | ktx2Layers (layers : Nat)
  | ktx2Payload
  | container (name : String)
  deriving DecidableEq

inductive TranscodeFault where
  | noTranscoder
  | libraryCall (call message : String)
  | noTexture
  | noData
  | outsideData (level size offset : Nat)
  | notProduced (level : Nat)
  | backend (message : String)
  deriving DecidableEq

inductive FormatError where
  | shortRead (expected got : Nat)
  | io
  | unknownMagic (magic : String)
  | invalidHeader (fault : HeaderFault)
  | unsupported (content : UnsupportedContent)
  | gpuUnsupported (format : PixelFormat)
  | basisUnsupported
  | sizeChanged (width height levelWidth levelHeight : Nat)
  | image
  | transcode (fault : TranscodeFault)
  deriving DecidableEq

def HeaderFault.message : HeaderFault → String
  | notZim => "not a ZIM file"
  | notDds => "not a DDS file"
  | notKtx2 => "bad KTX2 identifier"
  | pngDimensions => "could not get PNG dimensions"
  | missingDdsHeader => "DDS header missing"
  | dimensions container width height => s!"{container} dimensions {width}x{height} out of range"
  | zimLevelTooLarge => "ZIM level size overflows"
  | ddsLevelTooLarge width height => s!"DDS level {width}x{height} is too large"
  | levelOutsideFile level => s!"KTX2 level {level} lies outside the file"
  | globalDataOutsideFile => "KTX2 supercompression global data lies outside the file"

def UnsupportedContent.message : UnsupportedContent → String
  | zimFormat format => s!"ZIM format {format} (only RGBA8888)"
  | zimZstd => "zstd-compressed ZIM"
  | ddsWithoutFourCC => "DDS non-fourCC format not supported"
  | dxgiFormat format => s!"DXGI pixel format {format} not supported"
  | fourCC text => s!"DDS fourcc {text} not supported"
  | ktx2Layers layers => s!"KTX2 array textures ({layers} layers)"
  | ktx2Payload => "only basis ETC1S/UASTC content is supported in KTX2"
  | container name => s!"don't know how to load image type {name}"

def TranscodeFault.message : TranscodeFault → String
  | noTranscoder => "no universal texture transcoder configured"
  | libraryCall call message => s!"libktx {call}: {message}"
  | noTexture => "libktx returned no texture"
  | noData => "libktx texture has no data"
  | outsideData level size offset =>
      s!"level {level} ({size} bytes at {offset}) lies outside the texture data"
  | notProduced level => s!"level {level} not produced"
  | backend message => message

/-- The text shown for an error. The two causes that carry no text of their own
name only their kind. -/
def FormatError.message : FormatError → String
  | shortRead expected got => s!"Short read: expected {expected} bytes, got {got}"
  | io => "IO error"
  | unknownMagic magic => s!"Unsupported format {magic}"
  | invalidHeader fault => s!"Invalid header: {fault.message}"
  | unsupported content => s!"Unsupported pixel format: {content.message}"
  | gpuUnsupported format => s!"{format.name} is not supported by the GPU"
  | basisUnsupported =>
      "The basis texture format is not supported. " ++
        "Use KTX2 (basisu texture.png -uastc -ktx2 -mipmap)"
  | sizeChanged width height levelWidth levelHeight =>
      s!"Image changed since header read: {width}x{height} exceeds {levelWidth}x{levelHeight}"
  | image => "Image decode error"
  | transcode fault => s!"Transcode failed: {fault.message}"

inductive Defect where
  /-- A row of no bytes splits into no rows. -/
  | emptyRow
  /-- A size does not fit a word, or a buffer the address space. -/
  | sizeOverflow
  /-- A level lies deeper than a dimension has bits. -/
  | depthOverflow
  /-- The transcoder gave up without an answer. -/
  | transcoder
  /-- A palette ends within a colour. -/
  | partialColor
  deriving DecidableEq

inductive Fault where
  | format (error : FormatError)
  | defect (defect : Defect)
  deriving DecidableEq

abbrev Decode := Except Fault

namespace Decode

def refuse {α : Type} (error : FormatError) : Decode α := .error (.format error)

def crash {α : Type} (defect : Defect) : Decode α := .error (.defect defect)

end Decode

/-- The largest width and height that a file may declare. -/
def maxDimension : Nat := 32768

def checkDimensions (container : String) (width height : Nat) : Decode Unit :=
  if width = 0 ∨ height = 0 ∨ maxDimension < width ∨ maxDimension < height then
    .refuse (.invalidHeader (.dimensions container width height))
  else
    .ok ()

end TexturePack
