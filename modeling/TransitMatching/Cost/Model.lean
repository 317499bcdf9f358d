import TransitMatching.Candidate.Ranking
import TransitMatching.Geometry.Shape
import TransitMatching.Settings.Basic
import TransitMatching.Table

/-!
# Costs of links

The base cost of a link is its length or its travel time. Strategies adjust it:
all factors are multiplied first, then all penalties are added.

* `CostModel.linkCost`: the adjusted cost of a link in a context.
* `CostModel.remember`: keeps what was measured once, which changes no cost.
-/

namespace TransitMatching

/-- The circumstances in which a link is costed. -/
structure LinkContext (α : Type) where
  network : Network α
  link : LinkIx
  /-- The link that the path departs from. -/
  departure : Option LinkIx := none
  /-- The schedule mode of the route. -/
  mode : Mode

/-- An adjustment of the base cost of a link. -/
inductive Adjustment (α : Type) where
  | factor (value : α)
  | penalty (value : α)
  deriving DecidableEq, Repr

/-- A bias towards a shape, with the distances of links to it that are known already. -/
structure ShapeBias (α : Type) where
  shape : Shape α
  profile : BiasProfile α
  distances : Table LinkIx α := ∅

namespace ShapeBias

variable {α : Type} [Scalar α]

/-- Measures the distance of a link to the shape. -/
def measure (b : ShapeBias α) (net : Network α) (ix : LinkIx) : α :=
  let (source, target) := net.linkLine ix
  b.shape.segmentDistance source target

/-- The distance of a link to the shape, measured unless it is known. -/
def distance (b : ShapeBias α) (net : Network α) (ix : LinkIx) : α :=
  (b.distances.get? ix).getD (b.measure net ix)

/-- The bias with the distance of a link known. -/
def remember (b : ShapeBias α) (net : Network α) (ix : LinkIx) : ShapeBias α :=
  match b.distances.get? ix with
  | some _ => b
  | none => { b with distances := b.distances.put ix (b.measure net ix) }

end ShapeBias

/-- A rule that adjusts the cost of links. -/
inductive Strategy (α : Type) where
  /-- A factor by the distance of the link to a shape. -/
  | shapeBias (bias : ShapeBias α)
  /-- A factor for links that the schedule mode is known to travel on. -/
  | osmFactor (factor : α)
  /-- A penalty for turning back on the link that the path departs from. -/
  | uTurn (penalty : α)

namespace Strategy

variable {α : Type} [Scalar α]

/-- The adjustment in a context, unless the rule does not concern it. -/
def adjust (s : Strategy α) (context : LinkContext α) : Option (Adjustment α) :=
  match s with
  | shapeBias bias =>
    some (.factor (bias.profile.multiplier (bias.distance context.network context.link)))
  | osmFactor factor =>
    if (context.network.link context.link).osmModes.contains context.mode then
      some (.factor factor)
    else none
  | uTurn penalty =>
    match context.departure with
    | none => none
    | some departure =>
      if context.network.oppositeLink? departure = some context.link then some (.penalty penalty)
      else none

/-- The rule with what it measures about a link kept. -/
def remember (s : Strategy α) (net : Network α) (ix : LinkIx) : Strategy α :=
  match s with
  | shapeBias bias => shapeBias (bias.remember net ix)
  | s => s

end Strategy

/-- A measure of cost with the rules that adjust it. -/
structure CostModel (α : Type) [Scalar α] where
  costType : CostType
  strategies : List (Strategy α) := []
  candidateDistanceWeight : α := 0

namespace CostModel

variable {α : Type} [Scalar α]

/-- The walk to a stop and back counts the distance of a candidate this many times. -/
def candidateDistanceFactor : α := ((2 : Nat) : α)

/-- The model of the given settings, biased towards a shape if there is one. Rules that would change
nothing are left out. -/
def ofSettings (s : Settings α) (shape : Option (Shape α)) : CostModel α :=
  let costs := s.costs
  let bias := match shape, costs.shapeBias with
    | some shape, some profile => [.shapeBias { shape, profile }]
    | _, _ => []
  let osm := if Scalar.Same costs.osmFactor 1 then [] else [.osmFactor costs.osmFactor]
  let uTurn := if 0 < costs.uTurnPenalty then [.uTurn costs.uTurnPenalty] else []
  { costType := s.costType
    strategies := bias ++ osm ++ uTurn
    candidateDistanceWeight := costs.candidateDistanceWeight }

/-- The cost of a link before adjustments. -/
def baseCost (m : CostModel α) (l : Link α) : α :=
  match m.costType with
  | .length => l.length
  | .time => l.travelTime

/-- The product of the factors and the sum of the penalties so far, with one more adjustment. -/
def accumulate (total : α × α) : Adjustment α → α × α
  | .factor value => (total.1 * value, total.2)
  | .penalty value => (total.1, total.2 + value)

/-- The cost of a link in a context. -/
def linkCost (m : CostModel α) (context : LinkContext α) : α :=
  let adjustments := m.strategies.filterMap fun s => s.adjust context
  let (factor, penalty) := adjustments.foldl accumulate (1, 0)
  m.baseCost (context.network.link context.link) * factor + penalty

/-- The model with what its rules measure about a link kept. -/
def remember (m : CostModel α) (net : Network α) (ix : LinkIx) : CostModel α :=
  { m with strategies := m.strategies.map fun s => s.remember net ix }

/-- The cost of the distance between a candidate and its stop, in the unit of the measure. -/
def candidateDistanceCost (m : CostModel α) (l : Link α) (c : LinkCandidate α) : α :=
  let distance := m.candidateDistanceWeight * candidateDistanceFactor * c.distance
  match m.costType with
  | .length => distance
  | .time => distance / l.freespeed

/-- The cost of a candidate: that of the link and that of its distance to the stop. -/
def candidateCost (m : CostModel α) (context : LinkContext α) (c : LinkCandidate α) : α :=
  m.linkCost context + m.candidateDistanceCost (context.network.link context.link) c

/-- A lower bound of the cost between two stops: the time that the schedule allows, or the straight
line. Where the schedule lacks what is needed, the bound is zero. -/
def minTravelCost (m : CostModel α) (a b : Occurrence α) : α :=
  match m.costType with
  | .time =>
    match a.departure, b.arrival with
    | some departure, some arrival => Scalar.greatest (arrival - departure) 0
    | _, _ => 0
  | .length =>
    match a.position, b.position with
    | some p, some q => p.distance q
    | _, _ => 0

/-- The speed and length of a link made up to connect two candidates. By time it takes as long as
the given cost, by length it spans the straight line. -/
def artificialLink (m : CostModel α) (net : Network α) (a b : LinkCandidate α) (cost : α) : α × α :=
  let length := match m.costType with
    | .time => cost
    | .length =>
      (net.position (net.link a.link).target).distance (net.position (net.link b.link).source)
  (Network.artificialFreespeed, length)

end CostModel

end TransitMatching
