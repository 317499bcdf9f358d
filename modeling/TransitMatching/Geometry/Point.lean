import TransitMatching.Number.Scalar

/-!
# Points in the plane

Coordinates are projected: distances are Euclidean and in the unit of the
coordinates.

* `segmentDistance_self`: a segment that is a single point is as far away as the
  point.
-/

namespace TransitMatching

/-- A position. -/
structure Point (α : Type) where
  x : α
  y : α
  deriving DecidableEq, Repr

namespace Point

variable {α : Type} [Scalar α]

instance : Inhabited (Point α) := ⟨⟨0, 0⟩⟩

/-- Two points with the same coordinates. -/
def Same (a b : Point α) : Prop := Scalar.Same a.x b.x ∧ Scalar.Same a.y b.y

instance (a b : Point α) : Decidable (Same a b) := inferInstanceAs (Decidable (_ ∧ _))

/-- The straight-line distance of two points. -/
def distance (a b : Point α) : α := Scalar.hypot (a.x - b.x) (a.y - b.y)

/-- The distance of `p` to the segment from `s` to `e`. The foot of the perpendicular from `p` cuts
the segment at `ratio`; beyond an end, the end is nearest. -/
def segmentDistance (p s e : Point α) : α :=
  if s.Same e then distance s p
  else
    let dx := e.x - s.x
    let dy := e.y - s.y
    let norm := dx * dx + dy * dy
    let ratio := ((p.x - s.x) * dx + (p.y - s.y) * dy) / norm
    if ratio ≤ 0 then distance s p
    else if 1 ≤ ratio then distance e p
    else
      Scalar.magnitude (((s.y - p.y) * dx - (s.x - p.x) * dy) / norm) * Scalar.hypot dx dy

theorem segmentDistance_self (p : Point α) {s e : Point α} (h : s.Same e) :
    p.segmentDistance s e = distance s p := if_pos h

/-- The cross product of the direction from `s` to `e` and the offset of `p` from `s`. -/
def cross (p s e : Point α) : α := (e.x - s.x) * (p.y - s.y) - (e.y - s.y) * (p.x - s.x)

/-- Whether `p` lies to the right of the line that leads from `s` to `e`. A point on the line does
not. -/
def isRightOf (p s e : Point α) : Bool := decide (cross p s e < 0)

end Point

end TransitMatching
