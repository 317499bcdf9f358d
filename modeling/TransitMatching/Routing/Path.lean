import TransitMatching.Network.Basic

/-!
# Paths

The result of a search: the nodes and links of a least-cost path.
-/

namespace TransitMatching

/-- A path of least cost. -/
structure LeastCostPath (α : Type) where
  /-- The nodes from the origin to the destination. -/
  nodes : List NodeIx
  /-- The links between these nodes. -/
  links : List LinkIx
  /-- The adjusted cost of all links. -/
  cost : α
  /-- The time it takes in free flow. -/
  time : α
  deriving DecidableEq, Repr

namespace LeastCostPath

variable {α : Type}

/-- Whether the path ends where it starts, without a link. -/
def isEmpty (p : LeastCostPath α) : Bool := p.links.isEmpty

/-- The first node. -/
def origin? (p : LeastCostPath α) : Option NodeIx := p.nodes.head?

/-- The last node. -/
def destination? (p : LeastCostPath α) : Option NodeIx := p.nodes.getLast?

/-- The line through the positions of the nodes. -/
def line [Scalar α] (p : LeastCostPath α) (net : Network α) : List (Point α) :=
  p.nodes.map net.position

end LeastCostPath

end TransitMatching
