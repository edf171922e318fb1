import TexturePack.OpenFile

/-! Where replacement files come from: names are looked up, and what is found can be opened. Both
slashes separate folders, and leading ones are dropped, except in names of files held in memory,
which are exact. -/
namespace TexturePack

namespace Files

/-- The parts of a name between its separators. There is always at least one. -/
def segments : List Char → List (List Char)
  | [] => [[]]
  | '/' :: cs => [] :: segments cs
  | c :: cs =>
      match segments cs with
      | [] => [[c]]
      | s :: ss => (c :: s) :: ss

def forward (c : Char) : Char := if c = '\\' then '/' else c

def isSeparator (c : Char) : Bool := c = '/'

def normalizeChars (cs : List Char) : List Char := (cs.map forward).dropWhile isSeparator

/-- Whether a part of the name leads out of its folder. -/
def escaping (cs : List Char) : Bool := (segments cs).any (· = ['.', '.'])

/-- The normal form of a name that can be looked up. -/
def lookupName? (name : String) : Option String :=
  let cs := normalizeChars name.toList
  if cs.isEmpty ∨ escaping cs then none else some (String.ofList cs)

end Files

/-- A file that was found. The index means something to the source only. -/
structure FileReference where
  name : String
  index : Nat
  deriving DecidableEq

inductive OpenError where
  | notFound
  | notADirectory
  | isADirectory
  /-- Names hold no zero. -/
  | invalidName
  /-- A name or a part of it has too many bytes. -/
  | nameTooLong
  /-- An entry of an archive that stands for a folder. -/
  | directoryEntry (name : String)
  | checksumMismatch
  | corruptData
  /-- A compressed entry breaks off. -/
  | missingData
  deriving DecidableEq

namespace OpenError

/-- The text of errors that have one of their own. -/
def message? : OpenError → Option String
  | directoryEntry name => some ("'" ++ name ++ "' is a directory")
  | invalidName => some "file name contained an unexpected NUL byte"
  | corruptData => some "corrupt deflate stream"
  | _ => none

end OpenError

structure FileSystem where
  lookup : String → Option FileReference
  openFile : FileReference → Except OpenError OpenFile

namespace Files

/-- Files held in memory under their exact names. -/
structure Memory where
  /-- A file without content is found but cannot be opened. -/
  files : List (String × Option OpenFile)

namespace Memory

def describe : String := "memory"

def file? (m : Memory) (name : String) : Option (Option OpenFile) :=
  (m.files.find? fun f => f.1 = name).map Prod.snd

def contains (m : Memory) (name : String) : Bool := (m.file? name).isSome

/-- Adds a file in the place of one of that name. -/
def insert (m : Memory) (name : String) (file : Option OpenFile) : Memory :=
  ⟨(name, file) :: m.files.filter fun f => f.1 ≠ name⟩

def erase (m : Memory) (name : String) : Memory := ⟨m.files.filter fun f => f.1 ≠ name⟩

def find? (m : Memory) (name : String) : Option FileReference :=
  if m.contains name then some ⟨name, 0⟩ else none

def openFile (m : Memory) (f : FileReference) : Except OpenError OpenFile :=
  match m.file? f.name with
  | some (some file) => .ok file
  | _ => .error .notFound

def fileSystem (m : Memory) : FileSystem := ⟨m.find?, m.openFile⟩

end Memory

end Files
end TexturePack
