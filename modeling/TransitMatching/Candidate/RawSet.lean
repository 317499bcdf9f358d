import TransitMatching.Network.Nearby

/-!
# Links found for a stop

A raw set lists the links that were found for one occurrence of a stop, before
they are compared with those of its neighbours. A set is pre-assigned if the
facility itself names its link.
-/

namespace TransitMatching

/-- A link found for a stop. -/
structure RawCandidate (α : Type) where
  link : LinkIx
  /-- The source of the link as it was when the link was found. -/
  source : NodeIx
  distance : α
  deriving DecidableEq, Repr

/-- The links found for one occurrence of a stop. -/
structure RawSet (α : Type) where
  entries : List (RawCandidate α) := []
  preassigned : Bool := false
  deriving DecidableEq, Repr

namespace RawSet

variable {α : Type}

/-- The set without links. -/
def empty : RawSet α := {}

/-- The first entry of a link. -/
def get? (s : RawSet α) (ix : LinkIx) : Option (RawCandidate α) :=
  s.entries.find? fun e => e.link = ix

/-- The links in order. -/
def links (s : RawSet α) : List LinkIx := s.entries.map RawCandidate.link

/-- The set without a link. -/
def remove (s : RawSet α) (ix : LinkIx) : RawSet α :=
  { s with entries := s.entries.filter fun e => e.link ≠ ix }

/-- Whether no link was found. -/
def isEmpty (s : RawSet α) : Bool := s.entries.isEmpty

variable [Scalar α]

/-- The set of links that a search admitted. -/
def searched (net : Network α) (hits : List (LinkIx × α)) : RawSet α :=
  { entries := hits.map fun (ix, distance) => ⟨ix, (net.link ix).source, distance⟩ }

/-- The set of the one link that a facility names. -/
def ofLink (net : Network α) (ix : LinkIx) (position : Point α) : RawSet α :=
  { entries := [⟨ix, (net.link ix).source, net.linkDistance ix position⟩]
    preassigned := true }

end RawSet

end TransitMatching
