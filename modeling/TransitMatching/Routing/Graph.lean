import TransitMatching.Geometry.Box
import TransitMatching.Network.Basic

/-!
# The part of a network that a router searches

A routing graph keeps the links that are open to one of a set of modes and have
both ends in a box, if one is given, and the nodes at the ends of these links.
-/

namespace TransitMatching

/-- The kept links in ascending order, and their ends in the order in which they come up. -/
structure RoutingGraph where
  links : List LinkIx
  nodes : List NodeIx
  deriving DecidableEq, Repr

namespace RoutingGraph

variable {α : Type} [Scalar α]

/-- Whether a link is kept. -/
def keeps (net : Network α) (modes : ModeSet) (box : Option (Box α)) (l : Link α) : Bool :=
  l.allowsAny modes &&
    box.all fun b =>
      decide (b.Contains (net.position l.source) ∧ b.Contains (net.position l.target))

/-- The graph of the links of a network that are kept. -/
def ofNetwork (net : Network α) (modes : ModeSet) (box : Option (Box α)) : RoutingGraph :=
  let links := (List.range net.links.size).filter fun ix => keeps net modes box (net.link ix)
  { links
    nodes := (links.flatMap fun ix => [(net.link ix).source, (net.link ix).target]).eraseDups }

omit [Scalar α] in
/-- Whether a node is at the end of a kept link. -/
def contains (g : RoutingGraph) (n : NodeIx) : Bool := g.nodes.contains n

end RoutingGraph

end TransitMatching
