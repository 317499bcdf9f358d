import TransitMatching.Candidate.Separation
import TransitMatching.Network.Error
import TransitMatching.Settings.Validation

/-!
# Why matching fails

Only what makes a run meaningless is an error. An empty search or an unreachable
stop is a result.
-/

namespace TransitMatching

/-- The errors of a run. -/
inductive MatchingError (α : Type) where
  | network (e : NetworkError α)
  | candidate (e : CandidateError)
  | settings (e : SettingsError α)
  deriving DecidableEq, Repr

namespace MatchingError

variable {α : Type} [DecimalText α]

/-- The error in words. -/
def message : MatchingError α → String
  | network e => "network error: " ++ e.message
  | candidate e => "candidate error: " ++ e.message
  | settings e => "configuration error: " ++ e.message

end MatchingError

end TransitMatching
