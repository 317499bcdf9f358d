import Mathlib.Data.List.Find
import TransitMatching.Proofs.Network.Chains

/-!
# Chains in a network that has grown by loop links

A loop link that is made up comes with a node of its own. No old node gains or loses a
link by it, so whatever is asked about the links that meet at old nodes has the answer
that it had before.

* `GrowsByLoops`: a network that has grown by such links and by nothing else.
* `GrowsByLoops.mem_chain_iff`: **the chains of old links are what they were.**
-/

namespace TransitMatching.Network

variable {α : Type} [Scalar α] {net net' net'' : Network α}

/-- A network that holds all that another one does, and beyond it only loop links at nodes that are
new as well. -/
structure GrowsByLoops (net net' : Network α) : Prop where
  kept : net.Extends net'
  isLoop : ∀ ix, net.links.size ≤ ix → ix < net'.links.size → (net'.link ix).isLoop = true
  source_le : ∀ ix, net.links.size ≤ ix → ix < net'.links.size →
    net.nodes.size ≤ (net'.link ix).source

theorem GrowsByLoops.refl (net : Network α) : net.GrowsByLoops net :=
  ⟨.refl net, fun _ hle hlt => absurd hlt (Nat.not_lt.2 hle),
    fun _ hle hlt => absurd hlt (Nat.not_lt.2 hle)⟩

theorem GrowsByLoops.trans (h : net.GrowsByLoops net') (h' : net'.GrowsByLoops net'') :
    net.GrowsByLoops net'' where
  kept := h.kept.trans h'.kept
  isLoop ix hle hlt := by
    by_cases hmid : ix < net'.links.size
    · rw [h'.kept.link ix hmid]
      exact h.isLoop ix hle hmid
    · exact h'.isLoop ix (Nat.not_lt.1 hmid) hlt
  source_le ix hle hlt := by
    by_cases hmid : ix < net'.links.size
    · rw [h'.kept.link ix hmid]
      exact h.source_le ix hle hmid
    · exact Nat.le_trans h.kept.nodes_size (h'.source_le ix (Nat.not_lt.1 hmid) hlt)

theorem growsByLoops_loopLink {facility : String} {p : Point α} {modes : ModeSet} {ix : LinkIx}
    (h : net.loopLink facility p modes = .ok (net', ix)) : net.GrowsByLoops net' := by
  rcases loopLink_ok h with ⟨-, rfl⟩ | ⟨-, -, rfl, -⟩
  · exact .refl _
  · have hnew : ∀ ix, net.links.size ≤ ix → ix < (net.withLoopLink facility p modes).links.size →
        (net.withLoopLink facility p modes).link ix = madeUpLink facility net.nodes.size modes := by
      intro ix hle hlt
      have hsize : (net.withLoopLink facility p modes).links.size = net.links.size + 1 := by
        simp [withLoopLink, withLink, withPlace, withNode]
      obtain rfl : ix = net.links.size := by omega
      exact (link_withLink (net.withPlace _ p) _ _).trans (if_pos rfl)
    refine ⟨net.extends_withLoopLink facility p modes, fun ix hle hlt => ?_, fun ix hle hlt => ?_⟩
    · rw [hnew ix hle hlt]
      exact decide_eq_true rfl
    · rw [hnew ix hle hlt]
      exact Nat.le_refl _

/-! ## What meets at old nodes -/

/-- A test that no new link passes picks the same links. -/
theorem Extends.linksWhere_eq (h : net.Extends net') {test : Link α → Bool}
    (hnew : ∀ ix, net.links.size ≤ ix → ix < net'.links.size → test (net'.link ix) = false) :
    net'.linksWhere test = net.linksWhere test := by
  obtain ⟨added, hadded⟩ := Nat.exists_eq_add_of_le h.links_size
  have hold : ∀ ix ∈ List.range net.links.size, test (net'.link ix) = test (net.link ix) := by
    intro ix hix
    rw [h.link ix (List.mem_range.1 hix)]
  have hnone : ((List.range added).map (net.links.size + ·)).filter
      (fun ix => test (net'.link ix)) = [] := by
    refine List.filter_eq_nil_iff.2 fun ix hix => ?_
    obtain ⟨i, hi, rfl⟩ := List.mem_map.1 hix
    have hi := List.mem_range.1 hi
    rw [hnew _ (Nat.le_add_right _ _) (by omega)]
    exact Bool.false_ne_true
  unfold linksWhere
  rw [hadded, List.range_add, List.filter_append, hnone, List.append_nil, List.filter_congr hold]

namespace GrowsByLoops

variable {n : NodeIx} {a b : LinkIx}

theorem outLinks_eq (h : net.GrowsByLoops net') (hnet : net.Consistent) (hnet' : net'.Consistent)
    (hn : n < net.nodes.size) : net'.outLinks n = net.outLinks n := by
  rw [hnet'.outLinks, hnet.outLinks]
  refine h.kept.linksWhere_eq fun ix hle hlt => ?_
  exact decide_eq_false (Nat.ne_of_gt (Nat.lt_of_lt_of_le hn (h.source_le ix hle hlt)))

theorem inLinks_eq (h : net.GrowsByLoops net') (hnet : net.Consistent) (hnet' : net'.Consistent)
    (hn : n < net.nodes.size) : net'.inLinks n = net.inLinks n := by
  rw [hnet'.inLinks, hnet.inLinks]
  refine h.kept.linksWhere_eq fun ix hle hlt => ?_
  -- A loop link enters the node that it leaves.
  have hloop : (net'.link ix).source = (net'.link ix).target :=
    of_decide_eq_true (h.isLoop ix hle hlt)
  have hsource := Nat.lt_of_lt_of_le hn (h.source_le ix hle hlt)
  rw [hloop] at hsource
  exact decide_eq_false (Nat.ne_of_gt hsource)

theorem oppositeLink?_eq (h : net.GrowsByLoops net') (hnet : net.Consistent)
    (hnet' : net'.Consistent) (ha : a < net.links.size) :
    net'.oppositeLink? a = net.oppositeLink? a := by
  unfold oppositeLink?
  dsimp only
  rw [h.kept.link a ha, h.outLinks_eq hnet hnet' (hnet.target_lt a ha)]
  split
  · rfl
  · refine List.find?_congr fun other hother => ?_
    rw [h.kept.link other (hnet.mem_outLinks.1 hother).1]

theorem successor?_eq (h : net.GrowsByLoops net') (hnet : net.Consistent)
    (hnet' : net'.Consistent) (ha : a < net.links.size) :
    net'.successor? a = net.successor? a := by
  have htarget := hnet.target_lt a ha
  unfold successor?
  dsimp only
  rw [h.kept.link a ha, h.oppositeLink?_eq hnet hnet' ha, h.outLinks_eq hnet hnet' htarget,
    h.inLinks_eq hnet hnet' htarget]
  split
  · rfl
  · split
    · rfl
    · next next hnext =>
      have hlt := (hnet.mem_outLinks.1 (mem_of_soleExcept hnext)).1
      rw [h.kept.link next hlt, h.oppositeLink?_eq hnet hnet' hlt]

theorem predecessor?_eq (h : net.GrowsByLoops net') (hnet : net.Consistent)
    (hnet' : net'.Consistent) (ha : a < net.links.size) :
    net'.predecessor? a = net.predecessor? a := by
  have hsource := hnet.source_lt a ha
  unfold predecessor?
  dsimp only
  rw [h.kept.link a ha, h.oppositeLink?_eq hnet hnet' ha, h.outLinks_eq hnet hnet' hsource,
    h.inLinks_eq hnet hnet' hsource]
  split
  · rfl
  · split
    · rfl
    · next previous hprevious =>
      have hlt := (hnet.mem_inLinks.1 (mem_of_soleExcept hprevious)).1
      rw [h.kept.link previous hlt, h.oppositeLink?_eq hnet hnet' hlt]

/-! ## Chains -/

theorem linked_iff (h : net.GrowsByLoops net') (hnet : net.Consistent) (hnet' : net'.Consistent)
    (ha : a < net.links.size) : net'.Linked a b ↔ net.Linked a b := by
  unfold Linked
  rw [h.successor?_eq hnet hnet' ha, h.predecessor?_eq hnet hnet' ha]

/-- **The chain of an old link is what it was.** -/
theorem mem_chain_iff (h : net.GrowsByLoops net') (hnet : net.Consistent)
    (hnet' : net'.Consistent) (ha : a < net.links.size) :
    b ∈ net'.chain a ↔ b ∈ net.chain a := by
  rw [hnet'.mem_chain_iff, hnet.mem_chain_iff]
  constructor
  · intro hchain
    induction hchain with
    | refl => exact .refl
    | tail _ hlast ih =>
      exact ih.tail ((h.linked_iff hnet hnet' (hnet.lt_of_sameChain ha ih)).1 hlast)
  · intro hchain
    induction hchain with
    | refl => exact .refl
    | tail hfront hlast ih =>
      exact ih.tail ((h.linked_iff hnet hnet' (hnet.lt_of_sameChain ha hfront)).2 hlast)

end GrowsByLoops

end TransitMatching.Network
