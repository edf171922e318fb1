import TexturePack.Bytes
import TexturePack.Probe

/-! The arguments of the command line. Options may stand anywhere in front of two dashes,
and each at most once. -/
namespace TexturePack.Probe

structure Arguments where
  config : Option String
  /-- Where a native transcoding library is. -/
  library : Option String
  /-- For how many seconds the texture is polled. -/
  timeout : Nat
  source : String
  levels : List String
  deriving DecidableEq

/-- What a command line asks for. -/
inductive Command where
  | help
  | load (a : Arguments)
  deriving DecidableEq

inductive ArgumentError where
  | missingSource
  | missingValue (option : String)
  | badNumber (text : String)
  | unknownOption (option : String)
  | repeatedOption (option : String)
  | optionAfterHelp
  deriving DecidableEq

namespace ArgumentError

def message : ArgumentError → String
  | missingSource => "Required positional arguments not provided:\n    source"
  | missingValue option => s!"No value provided for option '{option}'."
  | badNumber text =>
      s!"Error parsing option '--timeout-secs' with value '{text}': invalid digit found in string"
  | unknownOption option => s!"Unrecognized argument: {option}"
  | repeatedOption option => s!"Error parsing option '{option}': duplicate values provided"
  | optionAfterHelp => "Trailing arguments are not allowed after `help`."

end ArgumentError

/-- The answer to those who ask for help. -/
def usage : Report where
  lines :=
    ["Usage: texreplace-probe [--config <config>] [--libktx <libktx>] [--timeout-secs " ++
        "<timeout-secs>] [--] <source> [<levels...>]",
      "",
      "Decode replacement texture levels from a directory or zip pack",
      "",
      "Positional Arguments:",
      "  source            replacement directory or zip archive",
      "  levels            file for each mip level, level 0 first",
      "",
      "Options:",
      "  --config          path to a JSON configuration file",
      "  --libktx          load libktx from this path instead of the library search",
      "                    path",
      "  --timeout-secs    give up after this many seconds (default 30)",
      "  --help, help      display usage information",
      ""]
  success := true

/-- A number that fits a word, with a plus sign in front or without. -/
def seconds? (text : String) : Option Nat :=
  let digits := match text.toList with
    | '+' :: cs => cs
    | cs => cs
  if digits.isEmpty || !digits.all Char.isDigit then none
  else
    let n := digits.foldl (fun n c => 10 * n + (c.toNat - '0'.toNat)) 0
    if n < wordLimit then some n else none

/-- What the command line has said so far. -/
structure Reading where
  config : Option String
  library : Option String
  timeout : Option Nat
  positional : List String
  help : Bool

namespace Reading

def empty : Reading := ⟨none, none, none, [], false⟩

def defaultTimeout : Nat := 30

def finish (r : Reading) : Except ArgumentError Command :=
  if r.help then .ok .help
  else
    match r.positional with
    | [] => .error .missingSource
    | source :: levels =>
        .ok (.load ⟨r.config, r.library, r.timeout.getD defaultTimeout, source, levels⟩)

def options : List String := ["--config", "--libktx", "--timeout-secs"]

def isSet (r : Reading) (option : String) : Bool :=
  match option with
  | "--config" => r.config.isSome
  | "--libktx" => r.library.isSome
  | _ => r.timeout.isSome

def setOption (r : Reading) (option value : String) : Except ArgumentError Reading :=
  if r.isSet option then .error (.repeatedOption option)
  else
    match option with
    | "--config" => .ok { r with config := some value }
    | "--libktx" => .ok { r with library := some value }
    | _ =>
        match seconds? value with
        | some n => .ok { r with timeout := some n }
        | none => .error (.badNumber value)

def helpWords : List String := ["--help", "help"]

/-- Takes in the words of a command line. Whoever asks for help may name no options after
that. -/
def read (r : Reading) : List String → Except ArgumentError Command
  | [] => r.finish
  | word :: words =>
      if word ∈ helpWords then { r with help := true }.read words
      else if word = "--" then { r with positional := r.positional ++ words }.finish
      else if !word.startsWith "-" then { r with positional := r.positional ++ [word] }.read words
      else if r.help then .error .optionAfterHelp
      else if word ∉ options then .error (.unknownOption word)
      else
        match words with
        | [] => .error (.missingValue word)
        | value :: words =>
            match r.setOption word value with
            | .error e => .error e
            | .ok r => r.read words

end Reading

def Command.ofWords (words : List String) : Except ArgumentError Command := Reading.empty.read words

end TexturePack.Probe
