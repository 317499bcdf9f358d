import Std.Data.TreeMap
import TransitMatching.Geometry.Box

/-!
# Shapes of routes

A shape is the line that the vehicles of a route follow. It serves as a
reference: links are measured against it at samples along their length.

* `distanceTo_of_nil`: a shape without points is infinitely far away.
* `samples_length`: a segment of length `l` is sampled at `⌈l / 5⌉ + 1` points.
-/

namespace TransitMatching

/-- The line of a route through its points in order. -/
structure Shape (α : Type) where
  id : String
  points : List (Point α)
  deriving DecidableEq, Repr

namespace Shape

variable {α : Type} [Scalar α]

/-- The shape through points in the order of their sequence numbers; of two points with one number
the later given is taken. -/
def ofSequence (id : String) (points : List (Nat × Point α)) : Shape α :=
  let placed : Std.TreeMap Nat (Point α) := points.foldl (fun t e => t.insert e.1 e.2) ∅
  { id, points := placed.values }

/-- Whether the shape has no point. -/
def isEmpty (s : Shape α) : Bool := s.points.isEmpty

/-- The bounding box, if there is a point. -/
def bounds (s : Shape α) : Option (Box α) := Box.around? s.points

/-- The bounding box widened on every side by its own width or height. -/
def bufferedBounds (s : Shape α) : Option (Box α) := s.bounds.map Box.grown

/-- The relative position of `p` between `s` and `e` in one coordinate, unless `s` and `e` agree in
it. -/
def relative? (p s e : α) : Option α :=
  if Scalar.Same (e - s) 0 then none else some ((p - s) / (e - s))

/-- Whether `p` lies on the segment from `s` to `e`. Its relative positions in the two coordinates
may differ by what is lost when they are rounded. -/
def OnSegment (p s e : Point α) : Prop :=
  match relative? p.x s.x e.x, relative? p.y s.y e.y with
  | none, none => p.Same s
  | some t, none => Scalar.Same p.y s.y ∧ 0 ≤ t ∧ t ≤ 1
  | none, some t => Scalar.Same p.x s.x ∧ 0 ≤ t ∧ t ≤ 1
  | some t, some u => Scalar.magnitude (t - u) ≤ Scalar.epsilon ∧ 0 ≤ t ∧ t ≤ 1

instance (p s e : Point α) : Decidable (OnSegment p s e) := by
  unfold OnSegment
  split <;> exact inferInstance

/-- The segments of a line through points. -/
def segments (points : List (Point α)) : List (Point α × Point α) := points.zip points.tail

/-- The distance of a point to a line of two or more points. -/
def lineDistance (p : Point α) (points : List (Point α)) : α :=
  if points.any (fun q => p.Same q) || (segments points).any (fun e => OnSegment p e.1 e.2) then 0
  else
    let distances := (segments points).map fun e => p.segmentDistance e.1 e.2
    Scalar.toFinite ((Scalar.least? distances).getD Scalar.infinity)

/-- The distance of a point to the shape. A shape without points is infinitely far away. -/
def distanceTo (s : Shape α) (p : Point α) : α :=
  match s.points with
  | [] => Scalar.infinity
  | [q] => p.distance q
  | points => lineDistance p points

/-- The distance between two samples of a segment. -/
def sampleInterval : α := ((5 : Nat) : α)

/-- The points at which the segment from `a` to `b` is measured: one every five units from `a` on,
and `b`. -/
def samples (a b : Point α) : List (Point α) :=
  let length := a.distance b
  let steps := Scalar.ceilNat (Scalar.greatest (length / sampleInterval) 1)
  (List.range (steps + 1)).map fun (step : Nat) =>
    let ratio := Scalar.least ((step : α) * sampleInterval / length) 1
    ⟨a.x + (b.x - a.x) * ratio, a.y + (b.y - a.y) * ratio⟩

/-- The distance of the segment from `a` to `b` to the shape: the least over its samples. -/
def segmentDistance (s : Shape α) (a b : Point α) : α :=
  (Scalar.least? ((samples a b).map s.distanceTo)).getD Scalar.infinity

theorem distanceTo_of_nil {s : Shape α} (h : s.points = []) (p : Point α) :
    s.distanceTo p = Scalar.infinity := by
  unfold distanceTo
  rw [h]

theorem samples_length (a b : Point α) :
    (samples a b).length =
      Scalar.ceilNat (Scalar.greatest (a.distance b / sampleInterval) 1) + 1 := by
  simp [samples]

end Shape

end TransitMatching
