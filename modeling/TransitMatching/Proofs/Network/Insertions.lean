import Mathlib.Data.List.Pairwise
import TransitMatching.Proofs.Network.Chains

/-!
# Networks after any requests

Requests to insert nodes, links and loop links may be refused. Whatever they answer,
they leave a network whose parts agree.

* `Reachable.afterRequest`: a request leaves a network that can come about by insertions.
* `after_agrees`: **after any requests the parts of a network agree.**
-/

namespace TransitMatching.Network

variable {α : Type} [Scalar α] {net : Network α}

/-- A request to insert something into a network. -/
inductive Request (α : Type) [Scalar α] where
  | node (id : String) (position : Point α)
  | link (spec : LinkSpec α)
  | loopLink (facility : String) (position : Point α) (modes : ModeSet)

/-- The network that a request leaves, whether it is granted or refused. -/
def afterRequest (net : Network α) : Request α → Network α
  | .node id position =>
    match net.addNode id position with
    | .ok (grown, _) => grown
    | .error _ => net
  | .link spec =>
    match net.addLink spec with
    | .ok (grown, _) => grown
    | .error _ => net
  | .loopLink facility position modes => net.afterLoopLink facility position modes

/-- The network that requests leave, one after the other. -/
def after (net : Network α) (requests : List (Request α)) : Network α :=
  requests.foldl afterRequest net

theorem Reachable.afterLoopLink (h : net.Reachable) (facility : String) (position : Point α)
    (modes : ModeSet) : (net.afterLoopLink facility position modes).Reachable := by
  unfold Network.afterLoopLink
  split
  · next hloop => exact .loopLink h hloop
  · -- What stays of a loop link that is refused is its node at most.
    split
    · next hadd => exact .addNode h hadd
    · exact h

theorem Reachable.afterRequest (h : net.Reachable) (request : Request α) :
    (net.afterRequest request).Reachable := by
  cases request with
  | node id position =>
    dsimp only [Network.afterRequest]
    split
    · next hadd => exact .addNode h hadd
    · exact h
  | link spec =>
    dsimp only [Network.afterRequest]
    split
    · next hadd => exact .addLink h hadd
    · exact h
  | loopLink facility position modes => exact h.afterLoopLink facility position modes

theorem Reachable.after (h : net.Reachable) (requests : List (Request α)) :
    (net.after requests).Reachable := by
  induction requests generalizing net with
  | nil => exact h
  | cons request requests ih => exact ih (h.afterRequest request)

/-- What holds of every request at its turn holds of the first one, and of the others from the
network on that it leaves. -/
theorem forall_turn_cons_iff (P : Network α → Request α → Prop) (net : Network α)
    (request : Request α) (requests : List (Request α)) :
    (∀ before turn rest, request :: requests = before ++ turn :: rest → P (net.after before) turn) ↔
      P net request ∧ ∀ before turn rest, requests = before ++ turn :: rest →
        P ((net.afterRequest request).after before) turn := by
  constructor
  · intro h
    refine ⟨h [] request requests rfl, ?_⟩
    rintro before turn rest rfl
    exact h (request :: before) turn rest rfl
  · rintro ⟨hfirst, hrest⟩ before turn rest heq
    cases before with
    | nil =>
      obtain ⟨rfl, -⟩ := List.cons.inj heq
      exact hfirst
    | cons first before =>
      obtain ⟨rfl, rfl⟩ := List.cons.inj heq
      exact hrest before turn rest rfl

/-! ## What agrees -/

/-- What the spatial index holds of a node. -/
def indexEntry (net : Network α) (ix : NodeIx) : IndexedNode α := ⟨ix, net.position ix⟩

/-- All that a network keeps beside its nodes and links, as it follows from them. -/
structure Agrees (net : Network α) : Prop where
  outLinks_ascending : ∀ n, (net.outLinks n).Pairwise (· < ·)
  mem_outLinks : ∀ n ix, ix ∈ net.outLinks n ↔ ix < net.links.size ∧ (net.link ix).source = n
  inLinks_ascending : ∀ n, (net.inLinks n).Pairwise (· < ·)
  mem_inLinks : ∀ n ix, ix ∈ net.inLinks n ↔ ix < net.links.size ∧ (net.link ix).target = n
  ends_lt : ∀ ix < net.links.size,
    (net.link ix).source < net.nodes.size ∧ (net.link ix).target < net.nodes.size
  nodeIx?_id : ∀ ix < net.nodes.size, net.nodeIx? (net.node ix).id = some ix
  id_nodeIx? : ∀ id ix, net.nodeIx? id = some ix → ix < net.nodes.size ∧ (net.node ix).id = id
  /-- The link of an id is the highest one with it. -/
  linkIx?_eq_some : ∀ id ix, net.linkIx? id = some ix ↔
    ix < net.links.size ∧ (net.link ix).id = id ∧
      ∀ other < net.links.size, (net.link other).id = id → other ≤ ix
  linkIx?_eq_none : ∀ id, net.linkIx? id = none ↔ ∀ ix < net.links.size, (net.link ix).id ≠ id
  loopLinks : ∀ facility ix, net.existingLoopLink? facility = some ix → net.MadeUpFor facility ix
  /-- The spatial index lists every node once, in some order. -/
  index : net.index.entries.toList.Perm ((List.range net.nodes.size).map net.indexEntry)

theorem linksWhere_ascending (net : Network α) (test : Link α → Bool) :
    (net.linksWhere test).Pairwise (· < ·) :=
  List.pairwise_lt_range.filter _

/-- The last of the links that pass a test is the highest of them. -/
theorem getLast?_linksWhere_iff {test : Link α → Bool} {ix : LinkIx} :
    (net.linksWhere test).getLast? = some ix ↔
      ix ∈ net.linksWhere test ∧ ∀ other ∈ net.linksWhere test, other ≤ ix := by
  have hsorted : (net.linksWhere test).Pairwise (· ≤ ·) :=
    (net.linksWhere_ascending test).imp Nat.le_of_lt
  have hbound : ∀ last, (net.linksWhere test).getLast? = some last →
      ∀ other ∈ net.linksWhere test, other ≤ last := by
    intro last hlast other hother
    rw [List.getLast?_eq_some_getLast (List.ne_nil_of_mem hother)] at hlast
    obtain rfl := Option.some.inj hlast
    exact hsorted.rel_getLast hother
  refine ⟨fun hlast => ⟨List.mem_of_getLast? hlast, hbound ix hlast⟩, ?_⟩
  rintro ⟨hmem, hmax⟩
  cases hlast : (net.linksWhere test).getLast? with
  | none =>
    rw [List.getLast?_eq_none_iff.1 hlast] at hmem
    exact absurd hmem List.not_mem_nil
  | some last =>
    have hle := hmax last (List.mem_of_getLast? hlast)
    rw [Nat.le_antisymm hle (hbound last hlast ix hmem)]

/-- The parts of a network agree if they are consistent and the spatial index is complete. -/
theorem Consistent.agrees (h : net.Consistent) (hindex : net.index = .bulkLoad net.nodes) :
    net.Agrees where
  outLinks_ascending n := by
    rw [h.outLinks]
    exact net.linksWhere_ascending _
  mem_outLinks n ix := by
    rw [h.outLinks, mem_linksWhere, decide_eq_true_eq]
  inLinks_ascending n := by
    rw [h.inLinks]
    exact net.linksWhere_ascending _
  mem_inLinks n ix := by
    rw [h.inLinks, mem_linksWhere, decide_eq_true_eq]
  ends_lt ix hix := ⟨h.source_lt ix hix, h.target_lt ix hix⟩
  nodeIx?_id ix hix := (h.nodeIx? _ ix).2 ⟨hix, rfl⟩
  id_nodeIx? id ix hix := (h.nodeIx? id ix).1 hix
  linkIx?_eq_some id ix := by
    rw [h.linkIx?, getLast?_linksWhere_iff]
    simp only [mem_linksWhere, decide_eq_true_eq, and_imp, and_assoc]
  linkIx?_eq_none id := by
    rw [h.linkIx?, List.getLast?_eq_none_iff, List.eq_nil_iff_forall_not_mem]
    simp only [mem_linksWhere, decide_eq_true_eq, not_and]
  loopLinks := h.loopLinks
  index := by
    rw [hindex]
    refine .of_eq (List.ext_getElem (by simp [SpatialIndex.bulkLoad]) fun ix hix hix' => ?_)
    simp at hix'
    simp [SpatialIndex.bulkLoad, indexEntry, position, Network.node, hix']

/-- **Whatever is requested of a network, in any order, its parts agree.** -/
theorem after_agrees {start : Network α}
    (hstart : start = empty ∨ ∃ nodes links, ofParts nodes links = .ok start)
    (requests : List (Request α)) : (start.after requests).Agrees := by
  have hreach : (start.after requests).Reachable := by
    rcases hstart with rfl | ⟨nodes, links, hparts⟩
    · exact Reachable.empty.after requests
    · exact (Reachable.ofParts hparts).after requests
  exact hreach.consistent.agrees hreach.indexed

/-- A link named as a loop link would be, the loop link, and a node that there is already. -/
def lateRequests : List (Request Double) :=
  [.link { id := "pt_s", source := "a", target := "b" },
    .loopLink "s" ⟨20, 5⟩ (.ofList ["bus"]),
    .node "a" ⟨1, 1⟩]

/-- After requests of which one is refused and two give links of one id, the triangle agrees. -/
theorem after_agrees_triangle :
    (triangle = empty ∨ ∃ nodes links, ofParts nodes links = .ok triangle) ∧
      (triangle.after lateRequests).nodes.size = 4 ∧
      (triangle.after lateRequests).linkIx? "pt_s" = some 5 ∧
      (triangle.after lateRequests).Agrees := by
  have hstart : triangle = empty ∨ ∃ nodes links, ofParts nodes links = .ok triangle :=
    .inr ⟨triangleNodes, triangleLinks, ofParts_triangle⟩
  exact ⟨hstart, by decide +kernel, by decide +kernel, after_agrees hstart lateRequests⟩

end TransitMatching.Network
