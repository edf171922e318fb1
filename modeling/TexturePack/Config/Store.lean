import TexturePack.Config
import TexturePack.Files.Directory
import TexturePack.Json.Parser
import TexturePack.Json.Printer

/-! Settings, kept as JSON with a version, and such a text in a file. A text may give the fields by
name in any order or all in one array; fields that are left out take their defaults. -/
namespace TexturePack

namespace Json

/-- What a field makes of its value. -/
abbrev Reader (α : Type) := Value → Option α

def readNat (bound : Nat) : Reader Nat
  | .number n => n.toNat?.filter (· < bound)
  | _ => none

def readBinary64 : Reader Binary64
  | .number n => n.toBinary64?
  | _ => none

def readBool : Reader Bool
  | .bool b => some b
  | _ => none

def readOptional {α : Type} (read : Reader α) : Reader (Option α)
  | .null => some none
  | v => (read v).map some

/-- The fields of a record, by name or by place. -/
inductive Fields where
  | named (members : List (Str × Value))
  | placed (items : List Value)

/-- An object with a name that has no text, or an array longer than the record, gives
no fields. -/
def Fields.of? (count : Nat) : Value → Option Fields
  | .object members => if members.any fun m => m.1.isNone then none else some (.named members)
  | .array items => if count < items.length then none else some (.placed items)
  | _ => none

/-- The value of a field, if it is there. A name that occurs twice is an error. -/
def Fields.value? (fields : Fields) (place : Nat) (name : String) : Option (Option Value) :=
  match fields with
  | .placed items => some items[place]?
  | .named members =>
      match members.filter fun m => m.1 = some name with
      | [] => some none
      | [m] => some (some m.2)
      | _ => none

def Fields.required {α : Type} (fields : Fields) (place : Nat) (name : String) (read : Reader α) :
    Option α := do
  let some v ← fields.value? place name | none
  read v

def Fields.defaulted {α : Type} (fields : Fields) (place : Nat) (name : String) (read : Reader α)
    (default : α) : Option α := do
  let some v ← fields.value? place name | some default
  read v

end Json

open Json

/-- A level is named by a string, or by an object that gives the name no value. -/
def LogLevel.read : Reader LogLevel
  | .string (some s) => ofName? s
  | .object [(some s, .null)] => ofName? s
  | _ => none

namespace Support

def read : Reader Support := fun v => do
  let fields ← Fields.of? 4 v
  return ⟨← fields.defaulted 0 "bc123" readBool false, ← fields.defaulted 1 "bc7" readBool false,
    ← fields.defaulted 2 "etc2" readBool false, ← fields.defaulted 3 "astc" readBool false⟩

def toJson (s : Support) : Value :=
  .object [(some "bc123", .bool s.bc123), (some "bc7", .bool s.bc7), (some "etc2", .bool s.etc2),
    (some "astc", .bool s.astc)]

end Support

namespace Config

def read : Reader Config := fun v => do
  let fields ← Fields.of? 7 v
  return {
    version := ← fields.required 0 "version" (readNat halfWordLimit)
    logLevel := ← fields.defaulted 1 "log_level" LogLevel.read initial.logLevel
    workerThreads := ← fields.defaulted 2 "worker_threads" (readNat wordLimit)
      initial.workerThreads
    pollBudgetMs := ← fields.defaulted 3 "poll_budget_ms" readBinary64 initial.pollBudgetMs
    purgeAfterSecs := ← fields.defaulted 4 "purge_after_secs" (readNat wordLimit)
      initial.purgeAfterSecs
    parallelCopyMinBytes := ← fields.defaulted 5 "parallel_copy_min_bytes" (readNat wordLimit)
      initial.parallelCopyMinBytes
    support := ← fields.defaulted 6 "format_support" (readOptional Support.read) none }

def toJson (c : Config) : Value :=
  .object [(some "version", .number (.whole c.version)),
    (some "log_level", .string (some c.logLevel.name)),
    (some "worker_threads", .number (.whole c.workerThreads)),
    (some "poll_budget_ms", Value.ofBinary64 c.pollBudgetMs),
    (some "purge_after_secs", .number (.whole c.purgeAfterSecs)),
    (some "parallel_copy_min_bytes", .number (.whole c.parallelCopyMinBytes)),
    (some "format_support", (c.support.map Support.toJson).getD .null)]

def text (c : Config) : String := c.toJson.text

/-- Settings of a later version are refused even if they could be read. -/
def ofText (text : String) : Except ConfigError Config :=
  match (Json.parse? text).bind read with
  | none => .error .malformed
  | some c => if supportedVersion < c.version then .error (.versionTooNew c.version) else .ok c

/-- Settings from the bytes of a file, none where it cannot be read. -/
def ofFile (content : Option Bytes) : Except ConfigError Config :=
  match content.bind fun bs => String.fromUTF8? ⟨bs.toArray⟩ with
  | none => .error .unreadable
  | some text => ofText text

open Files

/-- Writes the settings to a file whose name begins at a folder. The folders on the way are
made where they are missing. -/
def save (c : Config) (t : Tree) (start : Path) (name : String) : Except ConfigError Tree :=
  match t.save start name.toList c.text.toUTF8.toList with
  | .ok t => .ok t
  | .error _ => .error .unreadable

def load (t : Tree) (start : Path) (name : String) : Except ConfigError Config :=
  ofFile (t.read? start name.toList)

end Config
end TexturePack
