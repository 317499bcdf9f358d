import TransitMatching.Settings.Basic

/-!
# Settings that make sense

Settings are checked in a fixed order, and the first fault is reported: the
search radius, the number of workers, the schedule modes one by one, then costs.
-/

namespace TransitMatching

/-- The quantities that must be positive or must not be negative. -/
inductive Quantity where
  | tolerance
  | osmFactor
  | uTurnPenalty
  | candidateDistanceWeight
  | nearFactor
  | farFactor
  | nearDistance
  | rampWidth
  deriving DecidableEq, Repr

namespace Quantity

/-- The name of a quantity in settings files and messages. -/
def name : Quantity → String
  | tolerance => "distance_tolerance_factor"
  | osmFactor => "osm_route_bonus"
  | uTurnPenalty => "u_turn_penalty"
  | candidateDistanceWeight => "candidate_distance_weight"
  | nearFactor => "shape_bias.near_factor"
  | farFactor => "shape_bias.far_factor"
  | nearDistance => "shape_bias.near_distance"
  | rampWidth => "shape_bias.far_distance - near_distance"

end Quantity

/-- What can be wrong with settings. -/
inductive SettingsError (α : Type) where
  | invalidSearchRadius (radius : α)
  | invalidCandidateDistance (mode : Mode) (distance : α)
  | zeroCandidateCount (mode : Mode)
  | nonPositive (quantity : Quantity) (value : α)
  | negative (quantity : Quantity) (value : α)
  | zeroThreads
  | invalidEnvironment (name value : String)
  deriving DecidableEq, Repr

namespace SettingsError

variable {α : Type} [DecimalText α]

/-- The error in words. -/
def message : SettingsError α → String
  | invalidSearchRadius radius =>
    "node search radius must be positive, got " ++ DecimalText.shortest radius
  | invalidCandidateDistance mode distance =>
    "mode " ++ mode ++ ": maximum candidate distance must not be negative, got " ++
      DecimalText.shortest distance
  | zeroCandidateCount mode => "mode " ++ mode ++ ": maximum candidate count must be at least one"
  | nonPositive quantity value =>
    quantity.name ++ " must be positive, got " ++ DecimalText.shortest value
  | negative quantity value =>
    quantity.name ++ " must not be negative, got " ++ DecimalText.shortest value
  | zeroThreads => "worker pool needs at least one thread"
  | invalidEnvironment name value =>
    "could not parse environment variable " ++ name ++ "=" ++ value

end SettingsError

variable {α : Type} [Scalar α]

/-- Refuses a value that is not above zero. -/
def requirePositive (quantity : Quantity) (value : α) : Except (SettingsError α) Unit :=
  if 0 < value then .ok () else .error (.nonPositive quantity value)

/-- Refuses a value that is not at least zero. -/
def requireNonNegative (quantity : Quantity) (value : α) : Except (SettingsError α) Unit :=
  if 0 ≤ value then .ok () else .error (.negative quantity value)

namespace ModeSettings

/-- Checks the settings of one schedule mode. -/
def validate (mode : Mode) (m : ModeSettings α) : Except (SettingsError α) Unit :=
  if ¬ 0 ≤ m.maxDistance then .error (.invalidCandidateDistance mode m.maxDistance)
  else if ¬ 0 ≤ m.tolerance then .error (.negative .tolerance m.tolerance)
  else if m.maxCount = 0 ∧ ¬ m.artificialOnly then .error (.zeroCandidateCount mode)
  else .ok ()

end ModeSettings

namespace BiasProfile

/-- Checks a bias profile. -/
def validate : BiasProfile α → Except (SettingsError α) Unit
  | graded nearDistance farDistance nearFactor farFactor => do
    requirePositive .nearFactor nearFactor
    requirePositive .farFactor farFactor
    requireNonNegative .nearDistance nearDistance
    requirePositive .rampWidth (farDistance - nearDistance)
  | simple nearDistance nearFactor => do
    requirePositive .nearFactor nearFactor
    requireNonNegative .nearDistance nearDistance

end BiasProfile

namespace CostSettings

/-- Checks the settings of link costs. -/
def validate (c : CostSettings α) : Except (SettingsError α) Unit := do
  requirePositive .osmFactor c.osmFactor
  requireNonNegative .uTurnPenalty c.uTurnPenalty
  requireNonNegative .candidateDistanceWeight c.candidateDistanceWeight
  match c.shapeBias with
  | some profile => profile.validate
  | none => .ok ()

end CostSettings

namespace Settings

/-- Checks settings; an error is the first fault. -/
def validate (s : Settings α) : Except (SettingsError α) Unit :=
  if ¬ 0 < s.searchRadius then .error (.invalidSearchRadius s.searchRadius)
  else if s.threads = 0 then .error .zeroThreads
  else do
    s.modes.toList.forM fun (mode, m) => m.validate mode
    s.costs.validate

end Settings

end TransitMatching
