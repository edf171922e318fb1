import TexturePack.Transcoder

/-! A native transcoding library behind its calls. A texture is created from the
bytes of a file, transcoded as a whole, asked where each level lies in its data,
and destroyed, whatever happens in between. -/
namespace TexturePack

open Ktx2

/-- What the calls of a library return for the texture at hand. Code 0 is success. -/
structure KtxLibrary where
  createCode : Int
  /-- Success may still come without a texture. -/
  createsNothing : Bool
  transcodeCode : Int
  data : Option Bytes
  /-- The code and the offset of a level in the data. -/
  imageOffset : Nat → Int × Nat
  errorText : Int → Option String

namespace KtxLibrary

inductive Call where
  | create (length flags : Nat)
  | transcode (format flags : Nat)
  | imageOffset (level layer face : Nat)
  | destroy
  deriving DecidableEq

namespace Call

def text : Call → String
  | create length flags => s!"create {length} {flags}"
  | transcode format flags => s!"transcode {format} {flags}"
  | imageOffset level layer face => s!"offset {level} {layer} {face}"
  | destroy => "destroy"

end Call

/-- File names under which the library is looked for. -/
def candidates : List String := ["libktx.so", "libktx.so.4"]

/-- The functions that a library has to offer. -/
def symbols : List String :=
  ["ktxTexture2_CreateFromMemory", "ktxTexture2_Destroy", "ktxTexture2_TranscodeBasis",
    "ktxTexture2_GetImageOffset", "ktxTexture_GetData", "ktxTexture_GetDataSize", "ktxErrorString"]

/-- The first function that a library with these exports lacks. -/
def missing? (exported : List String) : Option String :=
  symbols.find? fun s => s ∉ exported

def describe : String := "LibKtxTranscoder \x7b .. \x7d"

/-- The number by which the library knows a target. -/
def formatNumber : Target → Nat
  | .etc1 => 0
  | .bc1 => 2
  | .bc7 => 6
  | .astc => 10
  | .rgba32 => 13

/-- The flag that asks for the level data to be loaded at once. -/
def loadData : Nat := 1

def check (lib : KtxLibrary) (code : Int) (call : String) : Except FormatError Unit :=
  if code = 0 then .ok ()
  else .error (.transcode (.libraryCall call ((lib.errorText code).getD s!"error {code}")))

/-- The calls made, the levels handed over, and what ended the run early. -/
structure Run where
  calls : List Call
  levels : List (Nat × Bytes)
  ending : Decode Unit

namespace Run

def ended (ending : Decode Unit) : Run := ⟨[], [], ending⟩

def refused (e : FormatError) : Run := ended (.refuse e)

def call (c : Call) (r : Run) : Run := { r with calls := c :: r.calls }

def deliver (level : Nat) (bytes : Bytes) (r : Run) : Run :=
  { r with levels := (level, bytes) :: r.levels }

/-- The texture goes away after everything else. -/
def destroying (r : Run) : Run := { r with calls := r.calls ++ [.destroy] }

end Run

/-- Where a level lies and its bytes there. -/
def levelBytes (lib : KtxLibrary) (data : Bytes) (level size : Nat) : Except FormatError Bytes := do
  let (code, offset) := lib.imageOffset level
  lib.check code "image offset"
  match data.range? offset size with
  | some bytes => return bytes
  | none => .error (.transcode (.outsideData level size offset))

def levelsFrom (lib : KtxLibrary) (data : Bytes) (file : File) (target : Target) (level : Nat) :
    Nat → Run
  | 0 => .ended (.ok ())
  | count + 1 =>
      match file.geometry? level with
      | .error fault => .ended (.error fault)
      | .ok none => .ended (.ok ())
      | .ok (some geometry) =>
          .call (.imageOffset level 0 0) <|
            match lib.levelBytes data level (geometry.layout target).size with
            | .error e => .refused e
            | .ok bytes => .deliver level bytes (lib.levelsFrom data file target (level + 1) count)

/-- The run on a texture that has been created and transcoded. -/
def readBack (lib : KtxLibrary) (file : File) (count : Nat) (target : Target) : Run :=
  match lib.data with
  | none => .refused (.transcode .noData)
  | some data => lib.levelsFrom data file target 0 count

/-- The run on a texture that has been created. Only universal payloads are
transcoded. -/
def withTexture (lib : KtxLibrary) (file : File) (count : Nat) (target : Target) : Run :=
  if file.payload?.isSome then
    .call (.transcode (formatNumber target) 0) <|
      match lib.check lib.transcodeCode "transcode" with
      | .error e => .refused e
      | .ok () => lib.readBack file count target
  else lib.readBack file count target

def transcodeLevels (lib : KtxLibrary) (file : File) (count : Nat) (target : Target) : Run :=
  .call (.create file.data.length loadData) <|
    match lib.check lib.createCode "create" with
    | .error e => .refused e
    | .ok () =>
        if lib.createsNothing then .refused (.transcode .noTexture)
        else (lib.withTexture file count target).destroying

/-- The levels up to and with the wanted one; counts do not pass 32 bits. -/
def countThrough (level : Nat) : Nat := min (level + 1) (halfWordLimit - 1)

/-- Transcodes one level into a buffer, which stays as it is unless the level comes
out with the buffer's size. -/
def transcodeLevel (lib : KtxLibrary) (file : File) (level : Nat) (target : Target) (out : Bytes) :
    List Call × Decode Unit × Bytes :=
  let run := lib.transcodeLevels file (countThrough level) target
  match run.ending with
  | .error fault => (run.calls, .error fault, out)
  | .ok () =>
      match run.levels.find? fun p => p.1 = level with
      | some (_, bytes) =>
          if bytes.length = out.length then (run.calls, .ok (), bytes)
          else (run.calls, .refuse (.transcode (.notProduced level)), out)
      | none => (run.calls, .refuse (.transcode (.notProduced level)), out)

/-- The library seen as a backend: all that can fail before the first level, and the
bytes of each level. -/
def transcoder (lib : KtxLibrary) : Transcoder where
  supports _ := true
  start file _ := do
    lib.check lib.createCode "create"
    if lib.createsNothing then .error (.transcode .noTexture)
    else
      if file.payload?.isSome then lib.check lib.transcodeCode "transcode"
      if lib.data.isNone then .error (.transcode .noData) else .ok ()
  level _ _ level layout :=
    match lib.levelBytes (lib.data.getD []) level layout.size with
    | .error e => .failed e
    | .ok bytes => .filled fun i => bytes.getD i 0

end KtxLibrary
end TexturePack
