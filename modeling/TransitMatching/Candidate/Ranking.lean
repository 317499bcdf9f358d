import TransitMatching.Network.Basic
import TransitMatching.Schedule.Occurrence
import TransitMatching.Sorting

/-!
# Ranked candidates

A candidate pairs a link with an occurrence of a stop. Candidates of a stop score
between one for the nearest and zero for the furthest, and are listed best first.

* `LinkCandidate.compare`: by score, right-hand side, link and stop.
* `LinkCandidates.merge`: candidates given by hand beside computed ones.
-/

namespace TransitMatching

/-- A link that may serve an occurrence of a stop. -/
structure LinkCandidate (α : Type) where
  link : LinkIx
  /-- The key of the occurrence. -/
  stop : String
  distance : α
  sourcePosition : Point α
  targetPosition : Point α
  isLoop : Bool
  /-- The stop lies to the right of the link. -/
  onRight : Bool
  /-- The score; the best is one. -/
  priority : α
  deriving DecidableEq, Repr

namespace LinkCandidate

variable {α : Type} [Scalar α]

/-- A link as a candidate for the occurrence with a key, at a position. -/
def make (net : Network α) (ix : LinkIx) (stop : String) (position : Point α) : LinkCandidate α :=
  let (source, target) := net.linkLine ix
  { link := ix
    stop
    distance := net.linkDistance ix position
    sourcePosition := source
    targetPosition := target
    isLoop := (net.link ix).isLoop
    onRight := position.isRightOf source target
    priority := 1 }

/-- A link as a candidate for an occurrence. -/
def ofOccurrence [DecimalText α] (net : Network α) (ix : LinkIx) (o : Occurrence α)
    (position : Point α) : LinkCandidate α :=
  make net ix o.key position

omit [Scalar α] in
/-- The candidate with another score. -/
def withPriority (c : LinkCandidate α) (priority : α) : LinkCandidate α :=
  { c with priority }

/-- The order of candidates, best first. -/
def compare (a b : LinkCandidate α) : Ordering :=
  (Scalar.order b.priority a.priority).then <|
    (Ord.compare b.onRight a.onRight).then <|
      (Ord.compare a.link b.link).then (Ord.compare a.stop b.stop)

/-- Two candidates that pair the same link and stop at the same score. -/
def Same (a b : LinkCandidate α) : Prop :=
  a.link = b.link ∧ a.stop = b.stop ∧ Scalar.order a.priority b.priority = .eq

instance (a b : LinkCandidate α) : Decidable (Same a b) := inferInstanceAs (Decidable (_ ∧ _))

/-- The score of a distance among distances from `near` to `far`. -/
def score (near far d : α) : α :=
  if 0 < far - near then 1 - (d - near) / (far - near) else 1

/-- Scores candidates by their distances, from one for the nearest to zero for the furthest. If all
are equally far away, they all score one. -/
def assignPriorities (candidates : List (LinkCandidate α)) : List (LinkCandidate α) :=
  let distances := candidates.map LinkCandidate.distance
  match Scalar.least? distances, Scalar.greatest? distances with
  | some near, some far => candidates.map fun c => c.withPriority (score near far c.distance)
  | _, _ => candidates.map fun c => c.withPriority 1

end LinkCandidate

/-- The candidates of an occurrence, best first. -/
structure LinkCandidates (α : Type) where
  toList : List (LinkCandidate α) := []
  deriving DecidableEq, Repr

namespace LinkCandidates

variable {α : Type}

instance : Inhabited (LinkCandidates α) := ⟨⟨[]⟩⟩

/-- The best candidate. -/
def best? (c : LinkCandidates α) : Option (LinkCandidate α) := c.toList.head?

/-- The links of the candidates. -/
def links (c : LinkCandidates α) : List LinkIx := c.toList.map LinkCandidate.link

/-- Whether a link is among the candidates. -/
def containsLink (c : LinkCandidates α) (ix : LinkIx) : Bool := c.links.contains ix

variable [Scalar α]

/-- Candidates in order. -/
def ofList (candidates : List (LinkCandidate α)) : LinkCandidates α :=
  ⟨sortBy LinkCandidate.compare candidates⟩

/-- Candidates with others given by hand, which stand instead of all of them or else instead of
those of the same links. -/
def merge (c : LinkCandidates α) (manual : List (LinkCandidate α)) (replace : Bool) :
    LinkCandidates α :=
  if replace then ofList manual
  else
    ofList ((c.toList.filter fun e => !(manual.map LinkCandidate.link).contains e.link) ++ manual)

end LinkCandidates

/-- The candidates of the occurrences of a schedule, by key. -/
abbrev CandidateStore (α : Type) := Std.TreeMap String (LinkCandidates α) compare

end TransitMatching
