import TransitMatching.Geometry.Point

/-!
# Boxes

A box is a span of each coordinate. Its border belongs to it.
-/

namespace TransitMatching

/-- A span of one coordinate. -/
structure Span (α : Type) where
  low : α
  high : α
  deriving DecidableEq, Repr

namespace Span

variable {α : Type} [Scalar α]

/-- The span between two numbers, given in either order. -/
def between (a b : α) : Span α := if a < b then ⟨a, b⟩ else ⟨b, a⟩

/-- The span widened to take in a number. -/
def cover (s : Span α) (a : α) : Span α :=
  if s.high < a then ⟨s.low, a⟩ else if a < s.low then ⟨a, s.high⟩ else s

/-- The least span that takes in a number and a list of numbers. -/
def around (a : α) (l : List α) : Span α :=
  let s := l.foldl cover ⟨a, a⟩
  between s.low s.high

/-- The span widened by its own width at either end. -/
def grown (s : Span α) : Span α :=
  let width := s.high - s.low
  between (s.low - width) (s.high + width)

/-- The numbers in the span, the ends included. -/
def Contains (s : Span α) (a : α) : Prop := s.low ≤ a ∧ a ≤ s.high

instance (s : Span α) (a : α) : Decidable (s.Contains a) := inferInstanceAs (Decidable (_ ∧ _))

end Span

/-- A rectangle along the axes. -/
structure Box (α : Type) where
  xs : Span α
  ys : Span α
  deriving DecidableEq, Repr

namespace Box

variable {α : Type} [Scalar α]

/-- The bounding box of a list of points, if it has a point. -/
def around? : List (Point α) → Option (Box α)
  | [] => none
  | p :: rest =>
    some { xs := Span.around p.x (rest.map Point.x), ys := Span.around p.y (rest.map Point.y) }

/-- The box widened on every side by its own width or height. -/
def grown (b : Box α) : Box α := { xs := b.xs.grown, ys := b.ys.grown }

/-- The points in the box, its border included. -/
def Contains (b : Box α) (p : Point α) : Prop := b.xs.Contains p.x ∧ b.ys.Contains p.y

instance (b : Box α) (p : Point α) : Decidable (b.Contains p) :=
  inferInstanceAs (Decidable (_ ∧ _))

/-- The corner of least coordinates. -/
def lowCorner (b : Box α) : Point α := ⟨b.xs.low, b.ys.low⟩

/-- The corner of greatest coordinates. -/
def highCorner (b : Box α) : Point α := ⟨b.xs.high, b.ys.high⟩

end Box

end TransitMatching
