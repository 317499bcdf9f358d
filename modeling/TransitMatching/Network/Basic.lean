import Std.Data.TreeMap
import TransitMatching.Network.SpatialIndex
import TransitMatching.Network.Error

/-!
# The network

Nodes and links are kept in two arrays and name each other by number. Beside
them stand the links at each node, look-ups by id, the loop links made up for
stops, and the spatial index. Numbers once given stay valid: a network only grows.

* `addNode`, `addLink`: insertion of a node and of a link between two nodes.
* `loopLink`: the loop link of a stop facility, made up on first request.
-/

namespace TransitMatching

/-- A network of nodes and directed links. -/
structure Network (α : Type) where
  nodes : Array (Node α) := #[]
  links : Array (Link α) := #[]
  /-- The links that leave each node, in order of insertion. -/
  outgoing : Array (List LinkIx) := #[]
  /-- The links that enter each node, in order of insertion. -/
  incoming : Array (List LinkIx) := #[]
  nodeLookup : Std.TreeMap String NodeIx := ∅
  /-- The link of an id; of several links with one id, the one inserted last. -/
  linkLookup : Std.TreeMap String LinkIx := ∅
  /-- The loop link made up for a stop facility. -/
  loopLinks : Std.TreeMap String LinkIx := ∅
  index : SpatialIndex α := {}

namespace Network

/-- Node and link numbers stay below two to the thirty-second. -/
def capacity : Nat := 0x100000000

/-- Put before the id of a stop facility, this gives the id of its loop link and of its node. -/
def loopLinkPrefix : String := "pt_"

variable {α : Type}

/-- The network without nodes. -/
def empty : Network α := {}

instance : Inhabited (Network α) := ⟨empty⟩

/-- The number of the node with an id. -/
def nodeIx? (net : Network α) (id : String) : Option NodeIx := net.nodeLookup[id]?

/-- The number of the link with an id. -/
def linkIx? (net : Network α) (id : String) : Option LinkIx := net.linkLookup[id]?

/-- The loop link made up for a stop facility, if there is one. -/
def existingLoopLink? (net : Network α) (facility : String) : Option LinkIx :=
  net.loopLinks[facility]?

/-- The node of a number. -/
def node? (net : Network α) (ix : NodeIx) : Option (Node α) := net.nodes[ix]?

/-- The link of a number. -/
def link? (net : Network α) (ix : LinkIx) : Option (Link α) := net.links[ix]?

/-- The links that leave a node. -/
def outLinks (net : Network α) (n : NodeIx) : List LinkIx := net.outgoing[n]?.getD []

/-- The links that enter a node. -/
def inLinks (net : Network α) (n : NodeIx) : List LinkIx := net.incoming[n]?.getD []

/-- The links that enter or leave a node. A loop link is listed twice. -/
def incidentLinks (net : Network α) (n : NodeIx) : List LinkIx := net.inLinks n ++ net.outLinks n

/-- The size of the network in words. -/
def summary (net : Network α) : String :=
  "Network with Nodes: " ++ Nat.repr net.nodes.size ++ ", Links: " ++ Nat.repr net.links.size

/-- Appends a node, without an entry in the spatial index. -/
def pushNode (net : Network α) (node : Node α) : Except (NetworkError α) (Network α × NodeIx) :=
  if net.nodeLookup.contains node.id then .error (.duplicateNode node.id)
  else
    let ix := net.nodes.size
    if capacity ≤ ix then .error .overflow
    else
      .ok ({ net with
        nodes := net.nodes.push node
        outgoing := net.outgoing.push []
        incoming := net.incoming.push []
        nodeLookup := net.nodeLookup.insert node.id ix }, ix)

/-- Inserts a node and gives its number. -/
def addNode (net : Network α) (id : String) (position : Point α) :
    Except (NetworkError α) (Network α × NodeIx) := do
  let (net, ix) ← net.pushNode ⟨id, position⟩
  return ({ net with index := net.index.insert ix position }, ix)

/-- Appends a link between two nodes of the network. -/
def pushLink (net : Network α) (link : Link α) : Except (NetworkError α) (Network α × LinkIx) :=
  let ix := net.links.size
  if capacity ≤ ix then .error .overflow
  else
    .ok ({ net with
      links := net.links.push link
      outgoing := net.outgoing.modify link.source (· ++ [ix])
      incoming := net.incoming.modify link.target (· ++ [ix])
      linkLookup := net.linkLookup.insert link.id ix }, ix)

variable [Scalar α]

/-- The node of a number that belongs to the network. -/
def node (net : Network α) (ix : NodeIx) : Node α := net.nodes[ix]?.getD default

/-- The link of a number that belongs to the network. -/
def link (net : Network α) (ix : LinkIx) : Link α := net.links[ix]?.getD default

/-- The position of a node. -/
def position (net : Network α) (ix : NodeIx) : Point α := (net.node ix).position

/-- The length of a loop link. -/
def loopLinkLength : α := 1

/-- The speed on links that are made up. -/
def artificialFreespeed : α := 1

/-- The number of a node that a link refers to by id. -/
def resolveEnd (net : Network α) (link node : String) : Except (NetworkError α) NodeIx :=
  match net.nodeIx? node with
  | some ix => .ok ix
  | none => .error (.unknownNode link node)

/-- Inserts a link between two existing nodes and gives its number. -/
def addLink (net : Network α) (spec : LinkSpec α) : Except (NetworkError α) (Network α × LinkIx) :=
  if net.linkLookup.contains spec.id then .error (.duplicateLink spec.id)
  else if spec.freespeed ≤ 0 then .error (.invalidFreespeed spec.id spec.freespeed)
  else do
    let source ← net.resolveEnd spec.id spec.source
    let target ← net.resolveEnd spec.id spec.target
    net.pushLink
      { id := spec.id
        source
        target
        length := spec.length.getD ((net.position source).distance (net.position target))
        freespeed := spec.freespeed
        capacity := spec.capacity
        modes := spec.modes
        osmModes := spec.osmModes
        artificial := false }

/-- The loop link of a stop facility. It is made up on first request, with a node at `position`;
later requests give the same link, whatever their position and modes. -/
def loopLink (net : Network α) (facility : String) (position : Point α) (modes : ModeSet) :
    Except (NetworkError α) (Network α × LinkIx) :=
  match net.existingLoopLink? facility with
  | some ix => .ok (net, ix)
  | none => do
    let id := loopLinkPrefix ++ facility
    let (net, node) ← net.addNode id position
    let (net, ix) ← net.pushLink
      { id
        source := node
        target := node
        length := loopLinkLength
        freespeed := artificialFreespeed
        capacity := defaultCapacity
        modes := modes.withArtificial
        osmModes := ∅
        artificial := true }
    return ({ net with loopLinks := net.loopLinks.insert facility ix }, ix)

/-- The network that a request for a loop link leaves, whatever it answers. Where there is room for the
node of the link but not for the link itself, the request fails and the node stays. -/
def afterLoopLink (net : Network α) (facility : String) (position : Point α) (modes : ModeSet) :
    Network α :=
  match net.loopLink facility position modes with
  | .ok (grown, _) => grown
  | .error _ =>
    match net.addNode (loopLinkPrefix ++ facility) position with
    | .ok (grown, _) => grown
    | .error _ => net

/-- The network of the given nodes, which are indexed all at once, and links. -/
def ofParts (nodes : List (Node α)) (links : List (LinkSpec α)) :
    Except (NetworkError α) (Network α) := do
  let net ← nodes.foldlM (fun net node => Prod.fst <$> net.pushNode node) empty
  let net := { net with index := SpatialIndex.bulkLoad net.nodes }
  links.foldlM (fun net spec => Prod.fst <$> net.addLink spec) net

/-- The first link that leads the opposite way between the ends of a link. A loop link has none. -/
def oppositeLink? (net : Network α) (ix : LinkIx) : Option LinkIx :=
  let l := net.link ix
  if l.isLoop then none
  else (net.outLinks l.target).find? fun other =>
    other ≠ ix && (net.link other).target = l.source

/-- The end points of a link. -/
def linkLine (net : Network α) (ix : LinkIx) : Point α × Point α :=
  (net.position (net.link ix).source, net.position (net.link ix).target)

/-- The distance of a point to a link. The link is measured from its end of lower number, so that
a link and its opposite are equally far away to the last bit. -/
def linkDistance (net : Network α) (ix : LinkIx) (p : Point α) : α :=
  let l := net.link ix
  if l.source ≤ l.target then
    p.segmentDistance (net.position l.source) (net.position l.target)
  else p.segmentDistance (net.position l.target) (net.position l.source)

end Network

end TransitMatching
