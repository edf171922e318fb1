import TexturePack.Host.Decode
import TexturePack.Host.Owner

/-! Everything that can happen to a host, one event after the other: what owners do, and
the turns that decode tasks take on their own, also while an owner waits in a poll. -/
namespace TexturePack

inductive HostEvent where
  | createTexture
  | createEntry
  | populate (texture : Nat) (attachment : Attachment)
  | poll (texture : Nat) (budget : Binary64) (turns : List Turn)
  | turn (turn : Turn)
  | purge (texture : Nat) (threshold : Instant) (held : List Nat)
  | beginDrop (texture : Nat)
  /-- A drop that begins while the task loads, just before a candidate. -/
  | beginDropDuringLoad (task candidate : Nat)
  | finishDrop (texture : Nat)
  | dropContext

namespace Host

/-- Whether a texture still has an owner who can use it. -/
def owned (h : Host) (i : Nat) : Bool := h.textures[i]?.any fun t => t.ownership = .owned

/-- The host after an event. Textures without an owner are not used. -/
def step (h : Host) (src : Sources) (now : Instant) : HostEvent → Host
  | .createTexture => (h.createTexture now).1
  | .createEntry => (h.createEntry now).1
  | .populate i a => if h.owned i then (h.populate i a).1 else h
  | .poll i budget ts =>
      if h.owned i then (h.poll i budget now fun h => h.turns src now ts).1 else h
  | .turn t => h.turn src now t
  | .purge i threshold held =>
      if h.owned i then h.purge i threshold (fun e => held.contains e) else h
  | .beginDrop i => h.beginDrop i
  | .beginDropDuringLoad task candidate => h.beginDropDuringLoad src task candidate
  | .finishDrop i => h.finishDrop i
  | .dropContext => h.dropContext

/-- The host after events that happen at given instants. -/
def run (h : Host) (src : Sources) (events : List (Instant × HostEvent)) : Host :=
  events.foldl (fun h (now, e) => h.step src now e) h

end Host
end TexturePack
