import Std.Data.TreeMap
import TransitMatching.Heap
import TransitMatching.Network.Element
import TransitMatching.Number.Scalar
import TransitMatching.Sorting

/-!
# Least-cost search

The search runs on arcs with fixed costs. Every node that has been reached carries
a label: its score, and the node it was reached from. Nodes wait in a heap at the
score at which they were reached. The one of least score is settled next, which
follows the arcs that leave it, until the goal is at the front. A node for which a
lower score has been found since it came into the heap is passed over.

With costs that are not negative, a node is settled once and at its least score. A
negative cost can improve the score of a node that has been settled, which is then
settled again; scores that were computed from the old one stand until then. A score
that is no number compares with nothing: it replaces every other and gives way to
every other.

* `Walk`: walks along arcs, with the costs accumulated from the start.
* `search?`: the nodes of a least-cost walk, and its cost.
* `Arc.between`: the cheapest arcs between successive nodes.
-/

namespace TransitMatching

/-- A link with its cost in a search. -/
structure Arc (α : Type) where
  link : LinkIx
  source : NodeIx
  target : NodeIx
  cost : α
  deriving DecidableEq, Repr

namespace Arc

variable {α : Type}

/-- The arcs that leave a node, the last one first. -/
def leaving (arcs : List (Arc α)) (n : NodeIx) : List (Arc α) :=
  (arcs.filter fun a => a.source = n).reverse

/-- The arcs from one node to another. -/
def joining (arcs : List (Arc α)) (n m : NodeIx) : List (Arc α) :=
  arcs.filter fun a => a.source = n ∧ a.target = m

variable [Scalar α]

/-- Cheaper first, then by link number. -/
def compare (a b : Arc α) : Ordering :=
  (Scalar.order a.cost b.cost).then (Ord.compare a.link b.link)

/-- The cheapest arc from one node to another. -/
def cheapest? (arcs : List (Arc α)) (n m : NodeIx) : Option (Arc α) :=
  leastBy? compare (joining arcs n m)

/-- The cheapest arcs from each node of a list to the one after it. -/
def between (arcs : List (Arc α)) (nodes : List NodeIx) : List (Arc α) :=
  (nodes.zip nodes.tail).filterMap fun (n, m) => cheapest? arcs n m

/-- The cost of a sequence of arcs, added up from the first to the last. -/
def totalCost (arcs : List (Arc α)) : α := arcs.foldl (fun sum a => sum + a.cost) 0

end Arc

/-- A walk along arcs from one node to another. -/
inductive Walk {α : Type} (arcs : List (Arc α)) : NodeIx → NodeIx → List (Arc α) → Prop where
  | nil (n : NodeIx) : Walk arcs n n []
  | snoc {n : NodeIx} {a : Arc α} {path : List (Arc α)} :
    Walk arcs n a.source path → a ∈ arcs → Walk arcs n a.target (path ++ [a])

/-- What is known about a node that has been reached. -/
structure Label (α : Type) where
  /-- The score of the node: the least one found, as long as all are numbers. -/
  score : α
  /-- The node it was reached from at that score; the start has none. -/
  via : Option NodeIx := none
  deriving DecidableEq, Repr

variable {α : Type} [Scalar α]

/-- Whether a score is to be settled before another; what is no number comes last. -/
def Before (a b : α) : Prop := a < b ∨ Scalar.IsNumber a ∧ ¬ Scalar.IsNumber b

instance (a b : α) : Decidable (Before a b) := inferInstanceAs (Decidable (_ ∨ _))

/-- A node that waits to be settled, at the score at which it was reached. -/
structure Waiting (α : Type) where
  node : NodeIx
  score : α
  deriving DecidableEq, Repr

/-- Whether a node is to be settled before another. -/
def Waiting.before (a b : Waiting α) : Bool := decide (Before a.score b.score)

/-- A search under way. -/
structure Search (α : Type) [Scalar α] where
  labels : Std.TreeMap NodeIx (Label α)
  queue : Heap (Waiting α) Waiting.before

namespace Search

/-- The search at its start. -/
def start (n : NodeIx) : Search α :=
  { labels := (∅ : Std.TreeMap NodeIx (Label α)).insert n { score := 0 }
    queue := (∅ : Heap (Waiting α) Waiting.before).push ⟨n, 0⟩ }

/-- The label of a node that has been reached. -/
def label? (s : Search α) (n : NodeIx) : Option (Label α) := s.labels[n]?

/-- Follows an arc from a node at a score. Unless the target has a score as low already, it is
labelled and waits to be settled. -/
def relax (score : α) (s : Search α) (a : Arc α) : Search α :=
  let reached := score + a.cost
  let old := s.label? a.target
  -- Where one of the two is no number they do not compare, and the target is labelled anew.
  if old.any fun l => l.score ≤ reached then s
  else
    { labels := s.labels.insert a.target { score := reached, via := some a.source }
      queue := s.queue.push ⟨a.target, reached⟩ }

/-- Whether a lower score has been found for a node since it came into the heap. -/
def isStale (s : Search α) (w : Waiting α) : Bool :=
  (s.label? w.node).any fun l => l.score < w.score

/-- Gives a node the score at which it is settled. Its label has another one only if it has been
labelled with what is no number in between. -/
def mark (s : Search α) (w : Waiting α) : Search α :=
  { s with labels := s.labels.modify w.node fun l => { l with score := w.score } }

/-- Settles a node: follows the arcs that leave it, at the score at which it waits. -/
def settle (arcs : List (Arc α)) (s : Search α) (w : Waiting α) : Search α :=
  if s.isStale w then s else (Arc.leaving arcs w.node).foldl (relax w.score) (s.mark w)

/-- Settles nodes until the goal is next. Without enough fuel, or where no node is left, the goal
is not reached. -/
def run (arcs : List (Arc α)) (goal : NodeIx) : Nat → Search α → Option (Search α)
  | 0, _ => none
  | fuel + 1, ⟨labels, queue⟩ =>
    match queue.pop? with
    | none => none
    | some (w, queue) =>
      if w.node = goal then some ⟨labels, queue⟩
      else run arcs goal fuel (settle arcs ⟨labels, queue⟩ w)

/-- The nodes through which a node was reached, from the start on, in front of others. -/
def trace (s : Search α) : Nat → NodeIx → List NodeIx → List NodeIx
  | 0, _, path => path
  | fuel + 1, n, path =>
    match (s.label? n).bind Label.via with
    | none => n :: path
    | some m => trace s fuel m (n :: path)

/-- A bound on the number of nodes that are taken from the heap. Unless going round in a loop lowers
the score, each entry stands for a walk of its own without a loop, and the arcs of such a walk
determine it. -/
def fuel (arcs : List (Arc α)) : Nat := Nat.pow 2 (arcs.length + 1)

end Search

/-- The nodes of a least-cost walk from one node to another, and its cost. -/
def search? (arcs : List (Arc α)) (start goal : NodeIx) : Option (List NodeIx × α) :=
  (Search.run arcs goal (Search.fuel arcs) (Search.start start)).bind fun s =>
    -- The label may have changed since the goal came into the heap.
    (s.label? goal).map fun l => (s.trace s.labels.size goal [], l.score)

end TransitMatching
