import TransitMatching.Network.Element

/-!
# Nodes by position

The spatial index lists the nodes with their positions and answers which of them
lie within a radius.

* `mem_within`: a node is found exactly if an entry of it lies within the radius.
-/

namespace TransitMatching

/-- Where a node lies. -/
structure IndexedNode (α : Type) where
  ix : NodeIx
  position : Point α
  deriving DecidableEq, Repr

/-- The positions of the nodes of a network. -/
structure SpatialIndex (α : Type) where
  entries : Array (IndexedNode α) := #[]

namespace SpatialIndex

variable {α : Type}

/-- The index of nodes that are numbered in the given order. -/
def bulkLoad (nodes : Array (Node α)) : SpatialIndex α :=
  { entries := nodes.mapIdx fun ix node => ⟨ix, node.position⟩ }

/-- The index with one more node. -/
def insert (s : SpatialIndex α) (ix : NodeIx) (position : Point α) : SpatialIndex α :=
  { entries := s.entries.push ⟨ix, position⟩ }

variable [Scalar α]

/-- Whether `q` lies within the radius around `p`. Squares are compared, so a negative radius counts
as a positive one. -/
def InRadius (p : Point α) (radius : α) (q : Point α) : Prop :=
  Scalar.square (q.x - p.x) + Scalar.square (q.y - p.y) ≤ Scalar.square radius ∧
    Scalar.square (q.distance p) ≤ Scalar.square radius

instance (p : Point α) (radius : α) (q : Point α) : Decidable (InRadius p radius q) :=
  inferInstanceAs (Decidable (_ ∧ _))

/-- The nodes within a radius around `p`, in the order of their insertion. -/
def within (s : SpatialIndex α) (p : Point α) (radius : α) : List NodeIx :=
  (s.entries.toList.filter fun e => InRadius p radius e.position).map IndexedNode.ix

theorem mem_within {s : SpatialIndex α} {p : Point α} {radius : α} {ix : NodeIx} :
    ix ∈ s.within p radius ↔
      ∃ position, ⟨ix, position⟩ ∈ s.entries ∧ InRadius p radius position := by
  simp only [within, List.mem_map, List.mem_filter, Array.mem_toList_iff, decide_eq_true_eq]
  constructor
  · rintro ⟨e, ⟨h, r⟩, rfl⟩
    exact ⟨e.position, h, r⟩
  · rintro ⟨position, h, r⟩
    exact ⟨⟨ix, position⟩, ⟨h, r⟩, rfl⟩

end SpatialIndex

end TransitMatching
