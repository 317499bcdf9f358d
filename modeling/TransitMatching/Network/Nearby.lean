import TransitMatching.Network.Basic
import TransitMatching.Sorting

/-!
# Links near a position

Links are collected at the nodes within a radius and grouped into buckets of
equal distance. A bounded search admits whole buckets, nearest first, up to two
cutoffs.

* `Buckets.admitted`: a bucket beyond the greatest distance ends the search (hard
  cutoff), and once enough links are admitted, so does a bucket beyond the
  distance reached times the tolerance (soft cutoff).
-/

namespace TransitMatching

/-- Limits of a search for links. -/
structure SearchBounds (α : Type) where
  /-- The radius in which nodes are collected. -/
  radius : α
  /-- The number of links at which the soft cutoff is set. -/
  count : Nat
  /-- The slack of the soft cutoff, as a factor. -/
  tolerance : α
  /-- Links further away are not admitted. -/
  maxDistance : α
  deriving Repr

variable {α : Type} [Scalar α]

/-- Links by their exact distance, nearest first. -/
abbrev Buckets (α : Type) [Scalar α] := Std.TreeMap α (List LinkIx) Scalar.order

namespace SearchBounds

/-- The factor of the soft cutoff. A tolerance below one leaves no slack. -/
def slack (b : SearchBounds α) : α := if b.tolerance < 1 then 0 else b.tolerance

/-- Whether a bucket at distance `d` ends the search; `threshold` is the soft cutoff, once set. -/
def rejects (b : SearchBounds α) (threshold : Option α) (d : α) : Bool :=
  decide (b.maxDistance < d) || threshold.any fun t => decide (t < d)

/-- The soft cutoff after a bucket at distance `d`, when `admitted` links are in. It is set once. -/
def threshold (b : SearchBounds α) (old : Option α) (admitted : Nat) (d : α) : Option α :=
  match old with
  | some t => some t
  | none => if b.count ≤ admitted then some (d * b.slack) else none

/-- The links admitted from a list of buckets, when `admitted` links are in. -/
def admittedFrom (b : SearchBounds α) (admitted : Nat) (old : Option α) :
    List (α × List LinkIx) → List (LinkIx × α)
  | [] => []
  | (d, links) :: rest =>
    if b.rejects old d then []
    else
      let admitted := admitted + links.length
      links.map (·, d) ++ b.admittedFrom admitted (b.threshold old admitted d) rest

end SearchBounds

namespace Buckets

/-- The buckets with links added at a distance, after those already there. -/
def add (buckets : Buckets α) (d : α) (links : List LinkIx) : Buckets α :=
  buckets.alter d fun old => some (old.getD [] ++ links)

/-- The links that a bounded search admits, nearest first, with their distances. -/
def admitted (buckets : Buckets α) (bounds : SearchBounds α) : List (LinkIx × α) :=
  bounds.admittedFrom 0 none buckets.toList

end Buckets

namespace Network

/-- The nodes within a radius, in ascending order. -/
def nodesWithin (net : Network α) (p : Point α) (radius : α) : List NodeIx :=
  net.index.within p radius

/-- The links that have an end within the radius and are open to one of the modes, each once and in
ascending order. Without a set of modes every link is taken. -/
def linksAround (net : Network α) (p : Point α) (radius : α) (modes : Option ModeSet) :
    List LinkIx :=
  let links := ((net.nodesWithin p radius).flatMap net.incidentLinks).eraseDups
  sortBy compare (links.filter fun ix => modes.all (net.link ix).allowsAny)

/-- The links around a position by their distance from it. -/
def closestLinks (net : Network α) (p : Point α) (radius : α) (modes : Option ModeSet) :
    Buckets α :=
  (net.linksAround p radius modes).foldl (fun b ix => b.add (net.linkDistance ix p) [ix]) ∅

/-- The links near a position that a bounded search admits. -/
def boundedLinks (net : Network α) (p : Point α) (bounds : SearchBounds α)
    (modes : Option ModeSet) : List (LinkIx × α) :=
  (net.closestLinks p bounds.radius modes).admitted bounds

end Network

end TransitMatching
