import TransitMatching.Geometry.Point
import TransitMatching.Mode

/-!
# Nodes and links

The elements of a network. Nodes and links are numbered in order of insertion;
links name their ends by node number.
-/

namespace TransitMatching

/-- The number of a node in its network. -/
abbrev NodeIx := Nat

/-- The number of a link in its network. -/
abbrev LinkIx := Nat

/-- A node of the network. -/
structure Node (α : Type) where
  id : String
  position : Point α
  deriving DecidableEq, Repr

/-- A directed link between two nodes. -/
structure Link (α : Type) where
  id : String
  source : NodeIx
  target : NodeIx
  length : α
  freespeed : α
  capacity : α
  /-- The network modes that may travel on the link. -/
  modes : ModeSet
  /-- The schedule modes of the mapped route relations that the link is a member of. -/
  osmModes : ModeSet
  /-- The link was made up for a stop. -/
  artificial : Bool

variable {α : Type} [Scalar α]

/-- Fifty kilometres per hour, in metres per second. -/
def defaultFreespeed : α := 13.89

/-- The capacity of a link for which none is given. -/
def defaultCapacity : α := ((9999 : Nat) : α)

/-- A link to be inserted; its ends are given by the ids of the nodes. -/
structure LinkSpec (α : Type) [Scalar α] where
  id : String
  source : String
  target : String
  /-- Without a length, the link is as long as the straight line between its ends. -/
  length : Option α := none
  freespeed : α := defaultFreespeed
  capacity : α := defaultCapacity
  modes : ModeSet := ∅
  osmModes : ModeSet := ∅

instance : Inhabited (Node α) := ⟨⟨"", default⟩⟩

instance : Inhabited (Link α) := ⟨⟨"", 0, 0, 0, 0, 0, ∅, ∅, false⟩⟩

namespace Link

omit [Scalar α] in
/-- A loop link starts and ends at the same node. -/
def isLoop (l : Link α) : Bool := l.source = l.target

omit [Scalar α] in
/-- Whether the link is open to one of the modes. -/
def allowsAny (l : Link α) (modes : ModeSet) : Bool := l.modes.meets modes

/-- The time it takes to travel along the link in free flow. -/
def travelTime (l : Link α) : α := l.length / l.freespeed

end Link

end TransitMatching
