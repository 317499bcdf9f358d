import Mathlib.Logic.Relation
import TransitMatching.Network.Chain
import TransitMatching.Number.Double
import TransitMatching.Proofs.Network.Consistency

/-!
# Single-file chains partition the links

`successor?` and `predecessor?` ask the same question from either side, so they are
inverse to each other (`successor?_eq_some_iff`). This carries the rest:

* `walked_walk`: a walk along a chain ends by itself, and not for want of fuel.
* `mem_chain_iff`: the chain of a link holds exactly the links that steps forwards
  and backwards lead to.
* `chains_partition`: **the chains of a reachable network partition its links.**
-/

namespace TransitMatching.Network

variable {α : Type} [Scalar α] {net : Network α}

/-! ## The two steps are inverse -/

theorem mem_of_soleExcept {excluded : Option LinkIx} {links : List LinkIx} {ix : LinkIx}
    (h : soleExcept excluded links = some ix) : ix ∈ links := by
  unfold soleExcept at h
  split at h
  · next heq =>
    cases h
    have hmem : ix ∈ links.filter fun other => some other ≠ excluded := by
      rw [heq]
      exact List.mem_singleton_self ix
    exact (List.mem_filter.1 hmem).1
  · cases h

theorem Consistent.mem_outLinks (hnet : net.Consistent) {n : NodeIx} {ix : LinkIx} :
    ix ∈ net.outLinks n ↔ ix < net.links.size ∧ (net.link ix).source = n := by
  simp [hnet.outLinks, mem_linksWhere]

theorem Consistent.mem_inLinks (hnet : net.Consistent) {n : NodeIx} {ix : LinkIx} :
    ix ∈ net.inLinks n ↔ ix < net.links.size ∧ (net.link ix).target = n := by
  simp [hnet.inLinks, mem_linksWhere]

/-- Two links follow one another at a node: neither is a loop, and each is the only way on from or
back to the other besides turning round. -/
structure Follows (net : Network α) (a b : LinkIx) : Prop where
  left_isLoop : (net.link a).isLoop = false
  right_isLoop : (net.link b).isLoop = false
  next : soleExcept (net.oppositeLink? a) (net.outLinks (net.link a).target) = some b
  previous : soleExcept (net.oppositeLink? b) (net.inLinks (net.link b).source) = some a
  meet : (net.link a).target = (net.link b).source

theorem Consistent.successor?_eq_some_iff (hnet : net.Consistent) {a b : LinkIx} :
    net.successor? a = some b ↔ net.Follows a b := by
  unfold successor?
  constructor
  · intro h
    simp only at h
    split at h
    · cases h
    next ha =>
    split at h
    · cases h
    next next hnext =>
    split at h
    · cases h
    next hb =>
    split at h
    · next hprev =>
      cases h
      have hmeet := (hnet.mem_outLinks.1 (mem_of_soleExcept hnext)).2
      exact ⟨by simpa using ha, by simpa using hb, hnext, by rw [hmeet]; exact hprev, hmeet.symm⟩
    · cases h
  · rintro ⟨ha, hb, hnext, hprev, hmeet⟩
    rw [← hmeet] at hprev
    simp [ha, hb, hnext, hprev]

theorem Consistent.predecessor?_eq_some_iff (hnet : net.Consistent) {a b : LinkIx} :
    net.predecessor? b = some a ↔ net.Follows a b := by
  unfold predecessor?
  constructor
  · intro h
    simp only at h
    split at h
    · cases h
    next hb =>
    split at h
    · cases h
    next previous hprev =>
    split at h
    · cases h
    next ha =>
    split at h
    · next hnext =>
      cases h
      have hmeet := (hnet.mem_inLinks.1 (mem_of_soleExcept hprev)).2
      exact ⟨by simpa using ha, by simpa using hb, by rw [hmeet]; exact hnext, hprev, hmeet⟩
    · cases h
  · rintro ⟨ha, hb, hnext, hprev, hmeet⟩
    rw [hmeet] at hnext
    simp [ha, hb, hnext, hprev]

/-- Steps lead to links of the network. -/
theorem Consistent.successor?_lt (hnet : net.Consistent) {a b : LinkIx}
    (h : net.successor? a = some b) : b < net.links.size :=
  (hnet.mem_outLinks.1 (mem_of_soleExcept (hnet.successor?_eq_some_iff.1 h).next)).1

theorem Consistent.predecessor?_lt (hnet : net.Consistent) {a b : LinkIx}
    (h : net.predecessor? b = some a) : a < net.links.size :=
  (hnet.mem_inLinks.1 (mem_of_soleExcept (hnet.predecessor?_eq_some_iff.1 h).previous)).1

/-! ## Walks end -/

/-- A walk with some links visited that ends by itself, and the links visited then: it ends where
there is no next link, or where the next one has been visited. -/
inductive Walked (step : LinkIx → Option LinkIx) :
    LinkIx → List LinkIx → List LinkIx → Prop where
  | stop {ix : LinkIx} {visited : List LinkIx} : step ix = none → Walked step ix visited visited
  | met {ix next : LinkIx} {visited : List LinkIx} :
    step ix = some next → next ∈ visited → Walked step ix visited visited
  | go {ix next : LinkIx} {visited out : List LinkIx} :
    step ix = some next → next ∉ visited → Walked step next (next :: visited) out →
      Walked step ix visited out

variable {step back : LinkIx → Option LinkIx} {ix : LinkIx} {visited out : List LinkIx}

/-- What holds of the links visited so far, and passes on with each step, holds of all at the end. -/
theorem Walked.forall_mem {P : LinkIx → Prop} (h : Walked step ix visited out)
    (hstep : ∀ v next, P v → step v = some next → P next) (hix : P ix)
    (hvisited : ∀ v ∈ visited, P v) : ∀ v ∈ out, P v := by
  induction h with
  | stop _ => exact hvisited
  | met _ _ => exact hvisited
  | go hnext _ _ ih =>
    have hP := hstep _ _ hix hnext
    exact ih hP (List.forall_mem_cons.2 ⟨hP, hvisited⟩)

theorem Walked.subset (h : Walked step ix visited out) : visited ⊆ out := by
  induction h with
  | stop _ => exact List.Subset.refl _
  | met _ _ => exact List.Subset.refl _
  | go _ _ _ ih => exact List.Subset.trans (List.subset_cons_self _ _) ih

theorem Walked.nodup (h : Walked step ix visited out) (hvisited : visited.Nodup) : out.Nodup := by
  induction h with
  | stop _ => exact hvisited
  | met _ _ => exact hvisited
  | go _ hnew _ ih => exact ih (List.nodup_cons.2 ⟨hnew, hvisited⟩)

theorem length_le_of_nodup {n : Nat} {l : List LinkIx} (hnodup : l.Nodup)
    (hlt : ∀ v ∈ l, v < n) : l.length ≤ n := by
  have hsub : l ⊆ List.range n := fun v hv => List.mem_range.2 (hlt v hv)
  simpa using hnodup.length_le_of_subset hsub

/-- A walk visits no link twice, so it needs no more fuel than there are links left. -/
theorem walked_walk {n : Nat} (hstep : ∀ v next, step v = some next → next < n) :
    ∀ (fuel : Nat) (ix : LinkIx) (visited : List LinkIx), visited.Nodup →
      (∀ v ∈ visited, v < n) → n < fuel + visited.length →
        Walked step ix visited (walk step fuel ix visited) := by
  intro fuel
  induction fuel with
  | zero =>
    intro ix visited hnodup hlt hfuel
    have := length_le_of_nodup hnodup hlt
    omega
  | succ fuel ih =>
    intro ix visited hnodup hlt hfuel
    unfold walk
    cases hnext : step ix with
    | none => exact .stop hnext
    | some next =>
      by_cases hmem : next ∈ visited
      · simp only [if_pos hmem]
        exact .met hnext hmem
      · simp only [if_neg hmem]
        refine .go hnext hmem (ih next _ (List.nodup_cons.2 ⟨hmem, hnodup⟩) ?_ ?_)
        · exact List.forall_mem_cons.2 ⟨hstep _ _ hnext, hlt⟩
        · rw [List.length_cons]
          omega

/-- Steps from those links of a list that satisfy `S` stay in the list. -/
def ClosedOn (S : LinkIx → Prop) (step : LinkIx → Option LinkIx) (l : List LinkIx) : Prop :=
  ∀ v ∈ l, S v → ∀ next, step v = some next → next ∈ l

/-- If only the link at which a walk stands has a step that leads out, none has at the end. -/
theorem Walked.closedOn (h : Walked step ix visited out)
    (hvisited : ClosedOn (· ≠ ix) step visited) : ClosedOn (fun _ => True) step out := by
  induction h with
  | @stop ix _ hstop =>
    intro v hv _ next hnext
    by_cases hvix : v = ix
    · rw [hvix, hstop] at hnext
      cases hnext
    · exact hvisited v hv hvix next hnext
  | @met ix _ _ hmet hmem =>
    intro v hv _ next hnext
    by_cases hvix : v = ix
    · rw [hvix, hmet] at hnext
      cases hnext
      exact hmem
    · exact hvisited v hv hvix next hnext
  | @go ix new visited _ hgo hnew _ ih =>
    refine ih ?_
    intro v hv hvnew next hnext
    rcases List.mem_cons.1 hv with rfl | hv
    · exact absurd rfl hvnew
    by_cases hvix : v = ix
    · rw [hvix, hgo] at hnext
      cases hnext
      exact List.mem_cons_self
    · exact List.mem_cons_of_mem _ (hvisited v hv hvix next hnext)

/-- A walk adds no step back that leads out: from each new link it leads to the one before. -/
theorem Walked.closedOn_back {S : LinkIx → Prop} (h : Walked step ix visited out)
    (hback : ∀ v next, step v = some next → back next = some v) (hix : ix ∈ visited)
    (hvisited : ClosedOn S back visited) : ClosedOn S back out := by
  induction h with
  | stop _ => exact hvisited
  | met _ _ => exact hvisited
  | @go ix new visited _ hgo hnew _ ih =>
    refine ih List.mem_cons_self ?_
    intro v hv hS next hnext
    rcases List.mem_cons.1 hv with rfl | hv
    · rw [hback _ _ hgo] at hnext
      cases hnext
      exact List.mem_cons_of_mem _ hix
    · exact List.mem_cons_of_mem _ (hvisited v hv hS next hnext)

/-! ## Chains -/

/-- One step along a chain, in either direction. -/
def Linked (net : Network α) (a b : LinkIx) : Prop :=
  net.successor? a = some b ∨ net.predecessor? a = some b

/-- Links of one chain: any number of steps leads from one to the other. -/
def SameChain (net : Network α) : LinkIx → LinkIx → Prop := Relation.ReflTransGen net.Linked

theorem Consistent.linked_symm (hnet : net.Consistent) {a b : LinkIx} (h : net.Linked a b) :
    net.Linked b a := by
  rcases h with h | h
  · exact .inr (hnet.predecessor?_eq_some_iff.2 (hnet.successor?_eq_some_iff.1 h))
  · exact .inl (hnet.successor?_eq_some_iff.2 (hnet.predecessor?_eq_some_iff.1 h))

theorem Consistent.sameChain_symm (hnet : net.Consistent) {a b : LinkIx}
    (h : net.SameChain a b) : net.SameChain b a := by
  induction h with
  | refl => exact .refl
  | tail _ hlast ih => exact .head (hnet.linked_symm hlast) ih

/-- Steps from a link of the network do not leave it. -/
theorem Consistent.lt_of_sameChain (hnet : net.Consistent) {a b : LinkIx}
    (ha : a < net.links.size) (h : net.SameChain a b) : b < net.links.size := by
  induction h with
  | refl => exact ha
  | tail _ hlast _ =>
    rcases hlast with hlast | hlast
    · exact hnet.successor?_lt hlast
    · exact hnet.predecessor?_lt hlast

/-- Both walks that make up a chain end by themselves. -/
theorem Consistent.walked_chain (hnet : net.Consistent) (a : LinkIx) :
    ∃ ahead, Walked net.successor? a [a] ahead ∧ Walked net.predecessor? a ahead (net.chain a) := by
  by_cases ha : a < net.links.size
  · have hone : ∀ v ∈ [a], v < net.links.size := by
      intro v hv
      rwa [List.mem_singleton.1 hv]
    have hsucc : ∀ v next, net.successor? v = some next → next < net.links.size :=
      fun _ _ => hnet.successor?_lt
    have hpred : ∀ v next, net.predecessor? v = some next → next < net.links.size :=
      fun _ _ => hnet.predecessor?_lt
    have hnodup : [a].Nodup := List.pairwise_singleton _ a
    have hahead := walked_walk hsucc (net.links.size + 1) a [a] hnodup hone
      (by rw [List.length_singleton]; omega)
    have hlt := hahead.forall_mem (fun v next _ => hsucc v next) ha hone
    exact ⟨_, hahead, walked_walk hpred _ a _ (hahead.nodup hnodup) hlt (by omega)⟩
  · -- A number without a link has no step to take.
    have hout : net.links[a]? = none := Array.getElem?_eq_none (Nat.not_lt.1 ha)
    have hloop : (net.link a).isLoop = true := by
      simp only [Network.link, hout]
      rfl
    have hnext : net.successor? a = none := by simp [successor?, hloop]
    have hprevious : net.predecessor? a = none := by simp [predecessor?, hloop]
    refine ⟨[a], .stop hnext, ?_⟩
    have hchain : net.chain a = [a] := by simp [chain, walk, hnext, hprevious]
    rw [hchain]
    exact .stop hprevious

/-- **A chain holds exactly the links that steps in either direction lead to.** -/
theorem Consistent.mem_chain_iff (hnet : net.Consistent) {a b : LinkIx} :
    b ∈ net.chain a ↔ net.SameChain a b := by
  obtain ⟨ahead, hforth, hback⟩ := hnet.walked_chain a
  have hself : a ∈ ahead := hforth.subset (List.mem_singleton_self a)
  have hinv : ∀ v next, net.successor? v = some next → net.predecessor? next = some v :=
    fun _ _ h => hnet.predecessor?_eq_some_iff.2 (hnet.successor?_eq_some_iff.1 h)
  have hinv' : ∀ v next, net.predecessor? v = some next → net.successor? next = some v :=
    fun _ _ h => hnet.successor?_eq_some_iff.2 (hnet.predecessor?_eq_some_iff.1 h)
  have hstart : ∀ step, ClosedOn (· ≠ a) step [a] :=
    fun _ v hv hne => absurd (List.mem_singleton.1 hv) hne
  constructor
  · have hone : ∀ v ∈ [a], net.SameChain a v := by
      intro v hv
      rw [List.mem_singleton.1 hv]
      exact .refl
    have hmem := hforth.forall_mem (fun _ _ h hnext => h.tail (.inl hnext)) .refl hone
    exact hback.forall_mem (fun _ _ h hnext => h.tail (.inr hnext)) .refl hmem b
  · -- The walk forwards closes the chain under successors, and the walk back under predecessors;
    -- neither undoes what the other has closed.
    have hsucc := hback.closedOn_back hinv' hself (hforth.closedOn (hstart _))
    have hpred := hback.closedOn
      (hforth.closedOn_back hinv (List.mem_singleton_self a) (hstart _))
    intro h
    induction h with
    | refl => exact hback.subset hself
    | tail _ hlast ih =>
      rcases hlast with hlast | hlast
      · exact hsucc _ ih trivial _ hlast
      · exact hpred _ ih trivial _ hlast

theorem Consistent.mem_chain_self (hnet : net.Consistent) (a : LinkIx) : a ∈ net.chain a :=
  hnet.mem_chain_iff.2 .refl

/-- Links of one chain have the same chain. -/
theorem Consistent.mem_chain_congr (hnet : net.Consistent) {a b : LinkIx} (h : b ∈ net.chain a)
    (c : LinkIx) : c ∈ net.chain a ↔ c ∈ net.chain b := by
  rw [hnet.mem_chain_iff, hnet.mem_chain_iff]
  have hab := hnet.mem_chain_iff.1 h
  exact ⟨fun hc => (hnet.sameChain_symm hab).trans hc, fun hc => hab.trans hc⟩

/-- The chains of a network partition its links. -/
structure ChainsPartition (net : Network α) : Prop where
  /-- Steps forwards and backwards are inverse to each other. -/
  inverse : ∀ a b, net.successor? a = some b ↔ net.predecessor? b = some a
  /-- The walk forwards and the walk backwards that collect a chain end by themselves. -/
  ends : ∀ a, ∃ ahead, Walked net.successor? a [a] ahead ∧
    Walked net.predecessor? a ahead (net.chain a)
  /-- A link lies in the chain of another exactly if both have the same chain. -/
  same : ∀ a b, b ∈ net.chain a ↔ ∀ c, c ∈ net.chain a ↔ c ∈ net.chain b
  /-- A chain holds exactly the links that any number of steps lead to. -/
  reach : ∀ a b, b ∈ net.chain a ↔
    Relation.ReflTransGen (fun v w => net.successor? v = some w ∨ net.predecessor? v = some w) a b

/-- **Chains partition the links of a reachable network**, whether its links are parallel, opposite,
loops or closed to a ring. -/
theorem chains_partition (h : net.Reachable) : net.ChainsPartition where
  inverse a b := by
    rw [h.consistent.successor?_eq_some_iff, h.consistent.predecessor?_eq_some_iff]
  ends := h.consistent.walked_chain
  same a b := by
    refine ⟨h.consistent.mem_chain_congr, fun hsame => ?_⟩
    exact (hsame b).2 (h.consistent.mem_chain_self b)
  reach _ _ := h.consistent.mem_chain_iff

/-! ## A closed ring -/

/-- The corners of a triangle. -/
def triangleNodes : List (Node Double) := [⟨"a", ⟨0, 0⟩⟩, ⟨"b", ⟨60, 0⟩⟩, ⟨"c", ⟨0, 60⟩⟩]

/-- Three links that lead round the triangle, and one that leads back along the first. -/
def triangleLinks : List (LinkSpec Double) :=
  [{ id := "ab", source := "a", target := "b", modes := .ofList ["car"] },
    { id := "bc", source := "b", target := "c", modes := .ofList ["car"] },
    { id := "ca", source := "c", target := "a", modes := .ofList ["car"] },
    { id := "ba", source := "b", target := "a", modes := .ofList ["car"] }]

/-- The network of the triangle. -/
def triangle : Network Double := (ofParts triangleNodes triangleLinks).toOption.getD empty

theorem ofParts_triangle : ofParts triangleNodes triangleLinks = .ok triangle := rfl

/-- Round the triangle there is one chain, which does not take in the link that leads back. -/
theorem chains_partition_triangle :
    triangle.Reachable ∧ triangle.ChainsPartition ∧ triangle.chain 0 = [2, 1, 0] ∧
      triangle.chain 3 = [3] :=
  ⟨.ofParts ofParts_triangle, chains_partition (.ofParts ofParts_triangle), by decide +kernel,
    by decide +kernel⟩

end TransitMatching.Network
