import TransitMatching.Cost.Model
import TransitMatching.Diagnostics
import TransitMatching.Routing.Graph
import TransitMatching.Routing.Path
import TransitMatching.Routing.Search

/-!
# Routers

A router answers queries for least-cost paths over its part of the network. It
keeps every answer, also that there is no path.

* `Router.search`: one search, without regard to earlier answers.
* `Router.pathBetweenNodes`, `Router.pathBetweenCandidates`: queries.
-/

namespace TransitMatching

/-- What a router is built for and shared by. -/
inductive RouterKey where
  /-- All routes of a schedule mode. -/
  | mode (mode : Mode)
  /-- All routes of a schedule mode along a shape. -/
  | shape (shape : String) (mode : Mode)
  deriving DecidableEq, Repr

namespace RouterKey

/-- The schedule mode of the routes. -/
def scheduleMode : RouterKey → Mode
  | mode m => m
  | shape _ m => m

/-- The key in words. -/
def text : RouterKey → String
  | mode m => "mode:" ++ m
  | shape s m => "shape:" ++ s ++ ":" ++ m

/-- The order of keys: those of modes come first. -/
def compare : RouterKey → RouterKey → Ordering
  | mode m, mode n => Ord.compare m n
  | mode _, shape _ _ => .lt
  | shape _ _, mode _ => .gt
  | shape s m, shape t n => (Ord.compare s t).then (Ord.compare m n)

end RouterKey

variable {α : Type} [Scalar α]

/-- Sizes of a router. -/
structure RouterStats where
  nodes : Nat
  links : Nat
  memoizedPaths : Nat
  searches : Nat
  deriving DecidableEq, Repr

/-- A router with the answers it has given. -/
structure Router (α : Type) [Scalar α] where
  key : RouterKey
  network : Network α
  model : CostModel α
  graph : RoutingGraph
  /-- The number of searches with both ends in the graph. -/
  searches : Nat := 0
  /-- The answers between nodes; no path is an answer. -/
  nodePaths : Table (NodeIx × NodeIx) (Option (LeastCostPath α)) := ∅
  /-- The answers between the links of candidates. -/
  linkPaths : Table (LinkIx × LinkIx) (Option (LeastCostPath α)) := ∅

/-- The answer to a query, the router after it, and what was counted. -/
structure RouterAnswer (α : Type) [Scalar α] where
  path : Option (LeastCostPath α)
  router : Router α
  events : List Event

namespace Router

/-- The router of a key: over links open to the modes or made up, near the shape if there is one,
and with costs biased towards it. -/
def build (settings : Settings α) (network : Network α) (key : RouterKey) (modes : ModeSet)
    (shape : Option (Shape α)) : Router α :=
  { key
    network
    model := CostModel.ofSettings settings shape
    graph := RoutingGraph.ofNetwork network modes.withArtificial (shape.bind Shape.bufferedBounds) }

/-- Sizes of the router and of what it remembers. -/
def stats (r : Router α) : RouterStats :=
  { nodes := r.graph.nodes.length
    links := r.graph.links.length
    memoizedPaths := r.nodePaths.size + r.linkPaths.size
    searches := r.searches }

/-- The router in words. -/
def summary (r : Router α) : String :=
  let s := r.stats
  "Router(" ++ r.key.text ++ ") RouterStats \x7b nodes: " ++ Nat.repr s.nodes ++ ", links: " ++
    Nat.repr s.links ++ ", memoized_paths: " ++ Nat.repr s.memoizedPaths ++ ", searches: " ++
    Nat.repr s.searches ++ " \x7d"

/-- Whether a node is part of the graph. -/
def contains (r : Router α) (n : NodeIx) : Bool := r.graph.contains n

/-- The cost of a link for a query that departs from a link or from none. -/
def linkCost (r : Router α) (departure : Option LinkIx) (ix : LinkIx) : α :=
  r.model.linkCost { network := r.network, link := ix, departure, mode := r.key.scheduleMode }

/-- The kept links with their costs for a query. -/
def arcs (r : Router α) (departure : Option LinkIx) : List (Arc α) :=
  r.graph.links.map fun ix =>
    let l := r.network.link ix
    { link := ix, source := l.source, target := l.target, cost := r.linkCost departure ix }

/-- The path through nodes, along the cheapest of the arcs that join them. -/
def pathThrough (r : Router α) (arcs : List (Arc α)) (nodes : List NodeIx) (cost : α) :
    LeastCostPath α :=
  let links := (Arc.between arcs nodes).map Arc.link
  { nodes
    links
    cost
    time := links.foldl (fun sum ix => sum + (r.network.link ix).travelTime) 0 }

/-- The least-cost path between two nodes of the graph, if there is one. -/
def search (r : Router α) (start goal : NodeIx) (departure : Option LinkIx) :
    Option (LeastCostPath α) :=
  if r.contains start && r.contains goal then
    let arcs := r.arcs departure
    (search? arcs start goal).map fun (nodes, cost) => r.pathThrough arcs nodes cost
  else none

/-- The router about to search between two nodes. What is measured about links is kept, and the
search is counted; there is none if one of the nodes is not in the graph. -/
def prepare (r : Router α) (start goal : NodeIx) : Router α :=
  if r.contains start && r.contains goal then
    { r with
      model := r.graph.links.foldl (fun m ix => m.remember r.network ix) r.model
      searches := r.searches + 1 }
  else r

/-- What is counted for a query that is answered by a search. -/
def searchEvents (path : Option (LeastCostPath α)) : List Event :=
  .counted .pathQueries :: if path.isNone then [.counted .unreachablePaths] else []

/-- The least-cost path from one node to another. -/
def pathBetweenNodes (r : Router α) (start goal : NodeIx) : RouterAnswer α :=
  match r.nodePaths.get? (start, goal) with
  | some path => { path, router := r, events := [.counted .pathQueries, .counted .pathCacheHits] }
  | none =>
    let r := r.prepare start goal
    let path := r.search start goal none
    { path
      router := { r with nodePaths := r.nodePaths.put (start, goal) path }
      events := searchEvents path }

/-- The least-cost path that connects two links: from the target of the first to the source of the
second, with costs that know about the departure from the first. -/
def pathBetweenLinks (r : Router α) (a b : LinkIx) : RouterAnswer α :=
  match r.linkPaths.get? (a, b) with
  | some path => { path, router := r, events := [.counted .pathQueries, .counted .pathCacheHits] }
  | none =>
    let start := (r.network.link a).target
    let goal := (r.network.link b).source
    let r := r.prepare start goal
    let path := r.search start goal (some a)
    { path
      router := { r with linkPaths := r.linkPaths.put (a, b) path }
      events := searchEvents path }

/-- The least-cost path that connects two candidates. -/
def pathBetweenCandidates (r : Router α) (a b : LinkCandidate α) : RouterAnswer α :=
  r.pathBetweenLinks a.link b.link

/-- The speed and length of a link made up to connect two candidates. -/
def artificialLink (r : Router α) (a b : LinkCandidate α) (cost : α) : α × α :=
  r.model.artificialLink r.network a b cost

end Router

end TransitMatching
