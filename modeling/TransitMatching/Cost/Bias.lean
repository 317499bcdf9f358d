import TransitMatching.Number.Scalar

/-!
# Measures of cost, and the bias towards a shape

Links cost their length or their travel time. A bias profile turns the distance
of a link to the shape of the route into a factor of its cost.
-/

namespace TransitMatching

/-- The measure by which links are costed. -/
inductive CostType where
  | length
  | time
  deriving DecidableEq, Repr

namespace CostType

/-- The name of a measure. -/
def name : CostType → String
  | length => "length"
  | time => "time"

/-- The measure of a name. -/
def ofName? (text : String) : Option CostType :=
  if text = "length" then some length else if text = "time" then some time else none

theorem ofName?_name (t : CostType) : ofName? t.name = some t := by cases t <;> rfl

end CostType

/-- How the cost of a link depends on its distance to the shape. -/
inductive BiasProfile (α : Type) where
  /-- One factor near the shape and another far from it, with a linear ramp between. -/
  | graded (nearDistance farDistance nearFactor farFactor : α)
  /-- A factor near the shape; links further away keep their cost. -/
  | simple (nearDistance nearFactor : α)
  deriving DecidableEq, Repr

namespace BiasProfile

variable {α : Type} [Scalar α]

/-- The graded profile used where none is given. -/
def standard : BiasProfile α := graded ((20 : Nat) : α) ((100 : Nat) : α) 0.85 ((3 : Nat) : α)

/-- The simple profile used where none is given. -/
def standardSimple : BiasProfile α := simple ((20 : Nat) : α) 0.8

/-- The factor for a link at a distance from the shape. -/
def multiplier : BiasProfile α → α → α
  | graded nearDistance farDistance nearFactor farFactor, d =>
    if d < nearDistance then nearFactor
    else if farDistance ≤ d then farFactor
    else
      let ramp := (d - nearDistance) / (farDistance - nearDistance)
      nearFactor + (farFactor - nearFactor) * ramp
  | simple nearDistance nearFactor, d => if d < nearDistance then nearFactor else 1

end BiasProfile

end TransitMatching
