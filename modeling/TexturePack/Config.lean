import TexturePack.Binary64
import TexturePack.Pixel

/-! Settings, their defaults, and what can be wrong with a text that gives them. -/
namespace TexturePack

inductive LogLevel where
  | error
  | warn
  | info
  | debug
  | trace
  deriving DecidableEq

namespace LogLevel

def all : List LogLevel := [error, warn, info, debug, trace]

def name : LogLevel → String
  | error => "error"
  | warn => "warn"
  | info => "info"
  | debug => "debug"
  | trace => "trace"

/-- The name as log lines show it. -/
def label : LogLevel → String
  | error => "ERROR"
  | warn => "WARN"
  | info => "INFO"
  | debug => "DEBUG"
  | trace => "TRACE"

def ofName? (s : String) : Option LogLevel := all.find? fun l => l.name = s

end LogLevel

structure Config where
  version : Nat
  logLevel : LogLevel
  workerThreads : Nat
  pollBudgetMs : Binary64
  purgeAfterSecs : Nat
  parallelCopyMinBytes : Nat
  /-- Left to the caller where nothing is said. -/
  support : Option Support
  deriving DecidableEq

inductive ConfigError where
  | malformed
  | unreadable
  | versionTooNew (version : Nat)
  deriving DecidableEq

namespace Config

def supportedVersion : Nat := 1

def initial : Config where
  version := supportedVersion
  logLevel := .info
  workerThreads := 2
  pollBudgetMs := .ofDecimal false 5 (-1)
  purgeAfterSecs := 20
  parallelCopyMinBytes := 256 * 1024
  support := none

/-- The time that one poll may wait, in seconds. -/
def pollBudget (c : Config) : Binary64 := c.pollBudgetMs.divNat 1000

/-- Equality of settings; numbers that are no numbers equal nothing. -/
def same (c d : Config) : Bool :=
  c.pollBudgetMs.numericallyEqual d.pollBudgetMs && { c with pollBudgetMs := d.pollBudgetMs } = d

end Config

def ConfigError.message : ConfigError → String
  | malformed => "Failed to parse configuration"
  | unreadable => "Failed to read configuration"
  | versionTooNew version =>
      s!"Configuration file version {version} is newer than supported version " ++
        toString Config.supportedVersion

end TexturePack
