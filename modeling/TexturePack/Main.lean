import TexturePack.Config.Store
import TexturePack.Probe
import TexturePack.Probe.Arguments

/-! The command line: loads the replacement of one texture from a directory or an archive
and prints what came out of it. -/
namespace TexturePack.CommandLine

def readFile? (path : String) : IO (Option Bytes) := do
  try
    let content ← IO.FS.readBinFile path
    return some content.toList
  catch _ => return none

/-- The files of a directory that some names stand for. -/
def readTree (root : String) (names : List String) : IO Files.Tree := do
  let mut files := []
  for name in names.filterMap Files.lookupName? do
    match ← readFile? (root ++ "/" ++ name) with
    | some content => files := (Files.pathOf name.toList, content) :: files
    | none => pure ()
  return ⟨files, []⟩

def openSource (path : String) (names : List String) : IO (Option Probe.Source) := do
  if ← (System.mkFilePath [path]).isDir then
    let tree ← readTree path names
    return (Files.Directory.mount? tree [] [] path).map .directory
  match ← readFile? path with
  | none => return none
  | some content => return (Files.Archive.ofBytes? content path).map .archive

def readConfig (path : Option String) : IO (Except ConfigError Config) := do
  match path with
  | none => return .ok .initial
  | some path => return Config.ofFile (← readFile? path)

def now : IO Instant := do return ⟨← IO.monoNanosNow⟩

def printReport (r : Probe.Report) : IO UInt32 := do
  for line in r.lines do
    IO.println line
  return if r.success then 0 else 1

def fail (text : String) : IO UInt32 := do
  IO.eprintln text
  return 1

def probe (a : Probe.Arguments) (c : Config) : IO UInt32 := do
  if a.levels.isEmpty then fail "No level files given"
  else
    if a.library.isSome then
      IO.eprintln "Ignoring --libktx: native libraries are not loaded"
    match ← openSource a.source a.levels with
    | none => fail ("Cannot read " ++ a.source)
    | some source =>
        match Probe.run (some source) none c a.levels (← now) with
        | .ok report => printReport report
        | .error _ => fail "A size does not fit"

def run (words : List String) : IO UInt32 := do
  match Probe.Command.ofWords words with
  | .error e => fail e.message
  | .ok .help => printReport Probe.usage
  | .ok (.load a) =>
      match ← readConfig a.config with
      | .error e => fail e.message
      | .ok c => probe a c

end TexturePack.CommandLine

def main (words : List String) : IO UInt32 := TexturePack.CommandLine.run words
