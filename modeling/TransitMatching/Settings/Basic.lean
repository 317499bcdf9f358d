import Std.Data.TreeMap
import TransitMatching.Cost.Bias
import TransitMatching.Mode

/-!
# Settings

What an operator may set for a run. Every value has a default.
-/

namespace TransitMatching

variable {α : Type} [Scalar α]

/-- Settings of the search for candidates, for one schedule mode. -/
structure ModeSettings (α : Type) [Scalar α] where
  /-- The network modes that routes of the schedule mode may travel on. -/
  networkModes : ModeSet := ∅
  /-- Links further from a stop are not candidates. -/
  maxDistance : α := ((90 : Nat) : α)
  /-- The number of candidates after which only near ties are admitted. -/
  maxCount : Nat := 6
  /-- The slack for near ties, as a factor of distance. -/
  tolerance : α := 1.6
  /-- Every stop gets a loop link of its own, without a search. -/
  artificialOnly : Bool := false

/-- Settings of link costs. -/
structure CostSettings (α : Type) [Scalar α] where
  /-- The bias of routers that belong to a shape. -/
  shapeBias : Option (BiasProfile α) := some BiasProfile.standard
  /-- The cost of turning back on the link that a query departs from. -/
  uTurnPenalty : α := 0
  /-- The factor for links that the schedule mode is known to travel on. -/
  osmFactor : α := 1
  /-- The weight of a candidate's distance to its stop in the candidate's cost. -/
  candidateDistanceWeight : α := 0
  deriving DecidableEq, Repr

/-- Links that an operator assigns to a stop facility. -/
structure ManualLinks where
  facility : String
  /-- The schedule modes for which the links are meant; none means all. -/
  modes : ModeSet := ∅
  links : List String
  /-- The computed candidates are discarded, not extended. -/
  replace : Bool := false

namespace ManualLinks

/-- Whether the links are meant for a facility when it is served by a mode. -/
def appliesTo (m : ManualLinks) (facility : String) (mode : Mode) : Bool :=
  m.facility = facility && (m.modes.isEmpty || m.modes.contains mode)

end ManualLinks

/-- The settings of a run. -/
structure Settings (α : Type) [Scalar α] where
  /-- The radius around a stop in which nodes are collected. -/
  searchRadius : α := ((500 : Nat) : α)
  costType : CostType := .length
  /-- The number of workers. -/
  threads : Nat := 1
  modes : Std.TreeMap Mode (ModeSettings α) := ∅
  costs : CostSettings α := {}
  /-- There is a router for each shape, and not only for each schedule mode. -/
  routeByShape : Bool := false
  manual : List ManualLinks := []

namespace Settings

instance : Inhabited (Settings α) := ⟨{}⟩

/-- The settings of a schedule mode, if there are any. -/
def mode? (s : Settings α) (mode : Mode) : Option (ModeSettings α) := s.modes[mode]?

/-- The settings with those of one schedule mode replaced. -/
def withMode (s : Settings α) (mode : Mode) (m : ModeSettings α) : Settings α :=
  { s with modes := s.modes.insert mode m }

/-- The settings with manual links after those already there. -/
def withManual (s : Settings α) (m : ManualLinks) : Settings α :=
  { s with manual := s.manual ++ [m] }

end Settings

end TransitMatching
