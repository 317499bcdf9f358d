import TransitMatching.Network.Basic

/-!
# Single-file chains

Links that follow one another without a choice form a chain: at every node
between them, traffic that does not turn back has one way in and one way out.

* `successor?`, `predecessor?`: one step along a chain.
* `chain`: all links of the chain of a link.
-/

namespace TransitMatching.Network

variable {α : Type} [Scalar α]

/-- The only link of a list besides an excluded one, if it is the only one. -/
def soleExcept (excluded : Option LinkIx) (links : List LinkIx) : Option LinkIx :=
  match links.filter fun ix => some ix ≠ excluded with
  | [ix] => some ix
  | _ => none

/-- The link that follows: the only one that leaves the target of `ix` other than its opposite,
provided `ix` in turn is the only link that enters there other than the opposite of the follower. -/
def successor? (net : Network α) (ix : LinkIx) : Option LinkIx :=
  let l := net.link ix
  if l.isLoop then none
  else
    match soleExcept (net.oppositeLink? ix) (net.outLinks l.target) with
    | none => none
    | some next =>
      if (net.link next).isLoop then none
      else if soleExcept (net.oppositeLink? next) (net.inLinks l.target) = some ix then some next
      else none

/-- The link that precedes: the only one that enters the source of `ix` other than its opposite,
provided `ix` in turn is the only link that leaves there other than the opposite of that one. -/
def predecessor? (net : Network α) (ix : LinkIx) : Option LinkIx :=
  let l := net.link ix
  if l.isLoop then none
  else
    match soleExcept (net.oppositeLink? ix) (net.inLinks l.source) with
    | none => none
    | some previous =>
      if (net.link previous).isLoop then none
      else if soleExcept (net.oppositeLink? previous) (net.outLinks l.source) = some ix then
        some previous
      else none

/-- The visited links after a walk from `ix`, which ends where it would come to a visited link. -/
def walk (step : LinkIx → Option LinkIx) : Nat → LinkIx → List LinkIx → List LinkIx
  | 0, _, visited => visited
  | fuel + 1, ix, visited =>
    match step ix with
    | none => visited
    | some next => if next ∈ visited then visited else walk step fuel next (next :: visited)

/-- The links of the chain that `ix` belongs to, found by a walk forwards and a walk backwards. A
walk visits each link at most once, so it has no more steps than there are links. -/
def chain (net : Network α) (ix : LinkIx) : List LinkIx :=
  let fuel := net.links.size + 1
  walk net.predecessor? fuel ix (walk net.successor? fuel ix [ix])

end TransitMatching.Network
