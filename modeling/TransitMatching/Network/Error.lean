import TransitMatching.Number.Scalar

/-!
# Why a node or a link is refused
-/

namespace TransitMatching

/-- The reasons for which an insertion into a network is refused. -/
inductive NetworkError (α : Type) where
  | duplicateNode (id : String)
  | duplicateLink (id : String)
  | unknownNode (link node : String)
  | invalidFreespeed (link : String) (freespeed : α)
  | overflow
  deriving DecidableEq, Repr

namespace NetworkError

variable {α : Type} [DecimalText α]

/-- The error in words. -/
def message : NetworkError α → String
  | duplicateNode id => "node " ++ id ++ " already exists in the network"
  | duplicateLink id => "link " ++ id ++ " already exists in the network"
  | unknownNode link node => "link " ++ link ++ " references unknown node " ++ node
  | invalidFreespeed link freespeed =>
    "link " ++ link ++ " has a non-positive freespeed of " ++ DecimalText.shortest freespeed
  | overflow => "network exceeds the addressable number of elements"

end NetworkError

end TransitMatching
