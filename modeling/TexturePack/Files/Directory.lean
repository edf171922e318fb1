import TexturePack.Files.FileSystem

/-! Files kept loose in the folders below a root. -/
namespace TexturePack.Files

/-- The folders from the top of a file system down to a file or folder, and its own
name. -/
abbrev Path := List (List Char)

namespace Path

/-- The bytes of a path with the separators in front of its parts. -/
def bytes (p : Path) : Nat := p.foldl (fun n part => n + 1 + (String.ofList part).utf8ByteSize) 0

end Path

structure Tree where
  files : List (Path × Bytes)
  folders : List Path

inductive Place where
  | folder (path : Path)
  | file (content : Bytes)

namespace Tree

def empty : Tree := ⟨[], []⟩

def file? (t : Tree) (p : Path) : Option Bytes := (t.files.find? fun f => f.1 = p).map Prod.snd

def isProperPrefix (p q : Path) : Bool := p.isPrefixOf q && p.length < q.length

/-- Folders are those made as such and all above a file or folder. -/
def isFolder (t : Tree) (p : Path) : Bool :=
  p.isEmpty || t.folders.any (fun q => p.isPrefixOf q) ||
    t.files.any (fun f => isProperPrefix p f.1)

/-- No part of a name is longer than this. -/
def maxNameBytes : Nat := 255

/-- One step down a name. Empty parts and single dots stay, double dots go up as far as
the top, and there is nothing below a file. -/
def step (t : Tree) (place : Place) (part : List Char) : Except OpenError Place :=
  match place with
  | .file _ => .error .notADirectory
  | .folder p =>
      if part = [] ∨ part = ['.'] then .ok place
      else if part = ['.', '.'] then .ok (.folder p.dropLast)
      else if maxNameBytes < (String.ofList part).utf8ByteSize then .error .nameTooLong
      else
        let q := p ++ [part]
        match t.file? q with
        | some content => .ok (.file content)
        | none => if t.isFolder q then .ok (.folder q) else .error .notFound

/-- A whole path has fewer bytes than this. -/
def maxPathBytes : Nat := 4096

/-- Where a name begins. Absolute names begin at the top. -/
def origin (start : Path) (name : List Char) : Path := if name.head? = some '/' then [] else start

/-- Names may not hold a zero, and together with the folder where they begin they may not
be too long. -/
def checkName (start : Path) (name : List Char) : Except OpenError Unit :=
  if name.contains '\x00' then .error .invalidName
  else if maxPathBytes ≤ (origin start name).bytes + 1 + (String.ofList name).utf8ByteSize then
    .error .nameTooLong
  else .ok ()

/-- Follows a name from a folder. -/
def resolve (t : Tree) (start : Path) (name : List Char) : Except OpenError Place := do
  checkName start name
  (segments name).foldlM t.step (.folder (origin start name))

/-- One step down from a folder to a folder, which is made if it is missing. -/
def enter (at_ : Tree × Path) (part : List Char) : Except OpenError (Tree × Path) :=
  let (t, p) := at_
  match t.step (.folder p) part with
  | .ok (.folder q) => .ok (t, q)
  | .ok (.file _) => .error .notADirectory
  | .error .notFound => .ok ({ t with folders := (p ++ [part]) :: t.folders }, p ++ [part])
  | .error e => .error e

/-- Writes a file in a folder. -/
def write (t : Tree) (folder : Path) (part : List Char) (content : Bytes) : Except OpenError Tree :=
  match t.step (.folder folder) part with
  | .ok (.folder _) => .error .isADirectory
  | .ok (.file _) | .error .notFound =>
      let p := folder ++ [part]
      .ok { t with files := (p, content) :: t.files.filter fun f => f.1 ≠ p }
  | .error e => .error e

/-- Writes a file under a name. The folders on the way to it are made where they are missing. -/
def save (t : Tree) (start : Path) (name : List Char) (content : Bytes) :
    Except OpenError Tree := do
  checkName start name
  let parts := segments name
  let (t, folder) ← parts.dropLast.foldlM enter (t, origin start name)
  t.write folder (parts.getLastD []) content

/-- The content of the file that a name stands for. -/
def read? (t : Tree) (start : Path) (name : List Char) : Option Bytes :=
  match t.resolve start name with
  | .ok (.file content) => some content
  | _ => none

end Tree

/-- The folders and the name that a relative path spells out. -/
def pathOf (name : List Char) : Path := (segments name).filter fun s => s ≠ [] ∧ s ≠ ['.']

structure Directory where
  tree : Tree
  root : Path
  /-- The root as it was given. -/
  label : String

namespace Directory

/-- The root has to be a folder. -/
def mount? (tree : Tree) (start : Path) (root : List Char) (label : String) : Option Directory :=
  match tree.resolve start root with
  | .ok (.folder p) => some ⟨tree, p, label⟩
  | _ => none

def describe (d : Directory) : String := "dir:" ++ d.label

def find? (d : Directory) (name : String) : Option FileReference := do
  let name ← lookupName? name
  match d.tree.resolve d.root name.toList with
  | .ok (.file _) => some ⟨name, 0⟩
  | _ => none

/-- Opens what the name of the reference stands for, which may be above the root. -/
def openFile (d : Directory) (f : FileReference) : Except OpenError OpenFile := do
  match ← d.tree.resolve d.root f.name.toList with
  | .folder _ => .error .isADirectory
  | .file content => .ok (.ofBytes content)

def fileSystem (d : Directory) : FileSystem := ⟨d.find?, d.openFile⟩

end Directory
end TexturePack.Files
