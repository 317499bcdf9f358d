import TransitMatching.Candidate.RawSet
import TransitMatching.Network.Chain
import TransitMatching.Sorting

/-!
# One link of each chain

Along a single-file chain one link serves a stop as well as another, so of each
chain only the nearest link is kept. Ties go to the link of lower number.
-/

namespace TransitMatching

namespace RawCandidate

variable {α : Type} [Scalar α]

/-- Nearer first, then by link number. -/
def compare (a b : RawCandidate α) : Ordering :=
  (Scalar.order a.distance b.distance).then (Ord.compare a.link b.link)

end RawCandidate

namespace RawSet

variable {α : Type} [Scalar α]

/-- The entries of a set that lie in the chain of a link. -/
def chainMembers (net : Network α) (s : RawSet α) (ix : LinkIx) : List (RawCandidate α) :=
  let chain := net.chain ix
  s.entries.filter fun e => e.link ∈ chain

/-- The links settled and the links dropped so far. -/
structure Sifting where
  settled : List LinkIx := []
  dropped : List LinkIx := []

/-- Settles the chain of an entry, unless an earlier entry has settled it. -/
def sift (net : Network α) (s : RawSet α) (r : Sifting) (e : RawCandidate α) : Sifting :=
  if e.link ∈ r.settled then r
  else
    let members := s.chainMembers net e.link
    let links := members.map RawCandidate.link
    let keep := (leastBy? RawCandidate.compare members).map RawCandidate.link
    { settled := r.settled ++ links
      dropped := r.dropped ++ links.filter fun ix => some ix ≠ keep }

/-- Keeps of each chain the nearest link. A pre-assigned set is left alone. -/
def reduce (net : Network α) (s : RawSet α) : RawSet α :=
  if s.preassigned || s.entries.length < 2 then s
  else
    let dropped := (s.entries.foldl (s.sift net) {}).dropped
    { s with entries := s.entries.filter fun e => e.link ∉ dropped }

end RawSet

end TransitMatching
