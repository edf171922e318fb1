import TexturePack.Ktx2

/-! Transcoding the levels of a universal texture, largest first, until one fails. -/
namespace TexturePack

open Ktx2

/-- How one level came out. A filled buffer is given by the byte at each place. -/
inductive LevelResult where
  | filled (byteAt : Nat → UInt8)
  | failed (error : FormatError)
  | crashed

/-- A backend that turns levels of a file into a target format. -/
structure Transcoder where
  supports : Target → Bool
  /-- Done once before the first level. -/
  start : File → Target → Except FormatError Unit
  /-- Fills the buffer of one level. -/
  level : File → Target → Nat → Layout → LevelResult

/-- One request to a backend. -/
structure LevelRequest where
  level : Nat
  target : Target
  layout : Layout
  deriving DecidableEq

/-- The levels handed over in order, the requests made for them, and what ended the
run early. -/
structure Transcription where
  levels : List (Nat × Bytes)
  requests : List LevelRequest
  ending : Decode Unit

namespace Transcription

def ended (ending : Decode Unit) : Transcription := ⟨[], [], ending⟩

def request (r : LevelRequest) (t : Transcription) : Transcription :=
  { t with requests := r :: t.requests }

def deliver (level : Nat) (bytes : Bytes) (t : Transcription) : Transcription :=
  { t with levels := (level, bytes) :: t.levels }

end Transcription

/-- A buffer given by the byte at each place. -/
def buffer (size : Nat) (byteAt : Nat → UInt8) : Bytes := (List.range size).map byteAt

namespace Transcoder

/-- Levels from `level` on, `count` of them, as far as the file has them. -/
def levelsFrom (t : Transcoder) (file : File) (target : Target) (level : Nat) : Nat → Transcription
  | 0 => .ended (.ok ())
  | count + 1 =>
      match file.geometry? level with
      | .error fault => .ended (.error fault)
      | .ok none => .ended (.ok ())
      | .ok (some geometry) =>
          let layout := geometry.layout target
          .request ⟨level, target, layout⟩ <|
            match t.level file target level layout with
            | .crashed => .ended (.crash .transcoder)
            | .failed e => .ended (.refuse e)
            | .filled byteAt =>
                .deliver level (buffer layout.size byteAt)
                  (t.levelsFrom file target (level + 1) count)

def transcode (t : Transcoder) (file : File) (count : Nat) (target : Target) : Transcription :=
  match t.start file target with
  | .error e => .ended (.refuse e)
  | .ok () => t.levelsFrom file target 0 count

/-- A backend that needs no preparation. -/
def ofLevels (supports : Target → Bool) (level : File → Target → Nat → Layout → LevelResult) :
    Transcoder :=
  ⟨supports, fun _ _ => .ok (), level⟩

end Transcoder
end TexturePack
