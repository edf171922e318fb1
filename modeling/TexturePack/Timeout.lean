import TexturePack.Binary64

/-! Time: points in it, counted in nanoseconds from a fixed one, and how long a wait may last. -/
namespace TexturePack

structure Instant where
  nanoseconds : Int
  deriving DecidableEq

namespace Instant

def nanosecondsPerSecond : Int := 1000000000

def ofSeconds (s : Int) : Instant := ⟨s * nanosecondsPerSecond⟩

/-- Whole microseconds since an earlier instant, none if it is later. -/
def microsecondsSince (t epoch : Instant) : Nat :=
  ((t.nanoseconds - epoch.nanoseconds) / 1000).toNat

def afterMicroseconds (epoch : Instant) (n : Nat) : Instant := ⟨epoch.nanoseconds + n * 1000⟩

/-- Whole seconds, rounded down. -/
def seconds (t : Instant) : Int := t.nanoseconds / nanosecondsPerSecond

def before (t u : Instant) : Bool := t.nanoseconds < u.nanoseconds

end Instant

structure Timeout where
  seconds : Nat
  nanoseconds : Nat
  deriving DecidableEq

namespace Timeout

def zero : Timeout := ⟨0, 0⟩

/-- No wait lasts longer than a day. -/
def maxSeconds : Nat := 86400

/-- Nanoseconds in a second. -/
def perSecond : Nat := 1000000000

def ofNanoseconds (n : Nat) : Timeout := ⟨n / perSecond, n % perSecond⟩

/-- A budget in seconds, to the nearest nanosecond. What is no positive number does
not wait. -/
def ofBudget (budget : Binary64) : Timeout :=
  if budget.negative then zero
  else
    match budget.magnitude with
    | .nan => zero
    | .infinite => ⟨maxSeconds, 0⟩
    | .finite m s =>
        if maxSeconds * Binary64.one ≤ m <<< s then ⟨maxSeconds, 0⟩
        else ofNanoseconds (roundDiv ((m <<< s) * perSecond) Binary64.one)

end Timeout
end TexturePack
