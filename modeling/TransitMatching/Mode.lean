import Std.Data.TreeSet

/-!
# Transport modes

A mode is a name. Schedule modes are those of transit routes, network modes those
that a link is open to; links made up for stops carry the mode `artificial`.
-/

namespace TransitMatching

/-- A transport mode, such as `bus` for a route or `car` for a link. -/
abbrev Mode := String

/-- The mode of links that have no counterpart in the given network. -/
def Mode.artificial : Mode := "artificial"

/-- A set of modes, listed in ascending order. -/
abbrev ModeSet := Std.TreeSet Mode compare

namespace ModeSet

/-- Whether two sets share a mode. -/
def meets (s t : ModeSet) : Bool := s.toList.any t.contains

theorem meets_iff {s t : ModeSet} : s.meets t ↔ ∃ m, m ∈ s ∧ m ∈ t := by
  simp [meets, List.any_eq_true, Std.TreeSet.mem_toList]

/-- The set with the artificial mode added. -/
def withArtificial (s : ModeSet) : ModeSet := s.insert Mode.artificial

end ModeSet

end TransitMatching
