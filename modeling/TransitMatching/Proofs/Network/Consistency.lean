import TransitMatching.Proofs.Network.Growth
import TransitMatching.Proofs.Outcome

/-!
# The parts of a network agree

A network keeps what it knows several times over: links name their ends, nodes list
their links, and ids are looked up in tables. `Consistent` says that these parts
tell the same story.

* `Reachable`: the networks that insertions lead to, from the empty one or from one
  built of parts.
* `Reachable.consistent`: **every such network is consistent.**
* `Reachable.indexed`: its spatial index holds each node once, at its position.
-/

namespace TransitMatching.Network

variable {α : Type} [Scalar α]

/-- The links that pass a test, in ascending order. -/
def linksWhere (net : Network α) (test : Link α → Bool) : List LinkIx :=
  (List.range net.links.size).filter fun ix => test (net.link ix)

theorem mem_linksWhere {net : Network α} {test : Link α → Bool} {ix : LinkIx} :
    ix ∈ net.linksWhere test ↔ ix < net.links.size ∧ test (net.link ix) = true := by
  simp [linksWhere]

/-- A link that was made up for a stop facility: a loop at a node of its own, both named after the
facility. -/
structure MadeUpFor (net : Network α) (facility : String) (ix : LinkIx) : Prop where
  lt : ix < net.links.size
  artificial : (net.link ix).artificial = true
  isLoop : (net.link ix).isLoop = true
  link_id : (net.link ix).id = loopLinkPrefix ++ facility
  node_id : (net.node (net.link ix).source).id = loopLinkPrefix ++ facility

/-- The parts of a network agree with its nodes and links. -/
structure Consistent (net : Network α) : Prop where
  outgoing_size : net.outgoing.size = net.nodes.size
  incoming_size : net.incoming.size = net.nodes.size
  source_lt : ∀ ix < net.links.size, (net.link ix).source < net.nodes.size
  target_lt : ∀ ix < net.links.size, (net.link ix).target < net.nodes.size
  outLinks : ∀ n, net.outLinks n = net.linksWhere fun l => l.source = n
  inLinks : ∀ n, net.inLinks n = net.linksWhere fun l => l.target = n
  nodeIx? : ∀ id ix, net.nodeIx? id = some ix ↔ ix < net.nodes.size ∧ (net.node ix).id = id
  linkIx? : ∀ id, net.linkIx? id = (net.linksWhere fun l => l.id = id).getLast?
  loopLinks : ∀ facility ix, net.existingLoopLink? facility = some ix → net.MadeUpFor facility ix

/-- The look-up by id gives links of the network with that id. -/
theorem Consistent.of_linkIx? {net : Network α} (h : net.Consistent) {id : String} {ix : LinkIx}
    (hid : net.linkIx? id = some ix) : ix < net.links.size ∧ (net.link ix).id = id := by
  rw [h.linkIx?] at hid
  obtain ⟨hlt, htest⟩ := mem_linksWhere.1 (List.mem_of_getLast? hid)
  exact ⟨hlt, by simpa using htest⟩

/-! ## What is read off a grown network -/

theorem node_withNode (net : Network α) (node : Node α) (ix : NodeIx) :
    (net.withNode node).node ix = if ix = net.nodes.size then node else net.node ix := by
  simp only [Network.node, withNode, Array.getElem?_push]
  split <;> rfl

theorem link_withLink (net : Network α) (l : Link α) (ix : LinkIx) :
    (net.withLink l).link ix = if ix = net.links.size then l else net.link ix := by
  simp only [Network.link, withLink, Array.getElem?_push]
  split <;> rfl

omit [Scalar α] in
theorem lt_of_lt_withLink {net : Network α} {l : Link α} {ix : LinkIx}
    (hix : ix < (net.withLink l).links.size) (hne : ix ≠ net.links.size) :
    ix < net.links.size := by
  rw [withLink, Array.size_push] at hix
  exact Nat.lt_of_le_of_ne (Nat.le_of_lt_succ hix) hne

theorem linksWhere_withLink (net : Network α) (l : Link α) (test : Link α → Bool) :
    (net.withLink l).linksWhere test =
      net.linksWhere test ++ if test l then [net.links.size] else [] := by
  have hsize : (net.withLink l).links.size = net.links.size + 1 := by simp [withLink]
  have hold : ∀ ix ∈ List.range net.links.size,
      test ((net.withLink l).link ix) = test (net.link ix) := by
    intro ix hix
    rw [link_withLink, if_neg (Nat.ne_of_lt (List.mem_range.1 hix))]
  unfold linksWhere
  rw [hsize, List.range_succ, List.filter_append, List.filter_congr hold, List.filter_cons,
    link_withLink, if_pos rfl]
  rfl

omit [Scalar α] in
@[simp]
theorem outLinks_withNode (net : Network α) (node : Node α) (n : NodeIx) :
    (net.withNode node).outLinks n = net.outLinks n := by
  simp only [Network.outLinks, withNode, Array.getElem?_push]
  split
  · next h => simp [h]
  · rfl

omit [Scalar α] in
@[simp]
theorem inLinks_withNode (net : Network α) (node : Node α) (n : NodeIx) :
    (net.withNode node).inLinks n = net.inLinks n := by
  simp only [Network.inLinks, withNode, Array.getElem?_push]
  split
  · next h => simp [h]
  · rfl

omit [Scalar α] in
theorem outLinks_withLink {net : Network α} {l : Link α} (hl : l.source < net.outgoing.size)
    (n : NodeIx) :
    (net.withLink l).outLinks n =
      net.outLinks n ++ if l.source = n then [net.links.size] else [] := by
  simp only [Network.outLinks, withLink, Array.getElem?_modify]
  split
  · next h =>
    subst h
    simp [hl]
  · simp

omit [Scalar α] in
theorem inLinks_withLink {net : Network α} {l : Link α} (hl : l.target < net.incoming.size)
    (n : NodeIx) :
    (net.withLink l).inLinks n =
      net.inLinks n ++ if l.target = n then [net.links.size] else [] := by
  simp only [Network.inLinks, withLink, Array.getElem?_modify]
  split
  · next h =>
    subst h
    simp [hl]
  · simp

omit [Scalar α] in
theorem nodeIx?_withNode (net : Network α) (node : Node α) (id : String) :
    (net.withNode node).nodeIx? id =
      if node.id = id then some net.nodes.size else net.nodeIx? id := by
  simp [Network.nodeIx?, withNode, Std.TreeMap.getElem?_insert]

omit [Scalar α] in
theorem linkIx?_withLink (net : Network α) (l : Link α) (id : String) :
    (net.withLink l).linkIx? id =
      if l.id = id then some net.links.size else net.linkIx? id := by
  simp [Network.linkIx?, withLink, Std.TreeMap.getElem?_insert]

theorem existingLoopLink?_withLoopLink (net : Network α) (facility other : String) (p : Point α)
    (modes : ModeSet) :
    (net.withLoopLink facility p modes).existingLoopLink? other =
      if facility = other then some net.links.size else net.existingLoopLink? other := by
  simp [existingLoopLink?, withLoopLink, withLink, withPlace, withNode,
    Std.TreeMap.getElem?_insert]

/-! ## What an insertion keeps -/

/-- A network that holds all that another one does, under the same numbers. -/
structure Extends (net net' : Network α) : Prop where
  nodes_size : net.nodes.size ≤ net'.nodes.size
  links_size : net.links.size ≤ net'.links.size
  node : ∀ ix < net.nodes.size, net'.node ix = net.node ix
  link : ∀ ix < net.links.size, net'.link ix = net.link ix

theorem Extends.refl (net : Network α) : net.Extends net :=
  ⟨Nat.le_refl _, Nat.le_refl _, fun _ _ => rfl, fun _ _ => rfl⟩

theorem Extends.trans {net net' net'' : Network α} (h : net.Extends net')
    (h' : net'.Extends net'') : net.Extends net'' where
  nodes_size := Nat.le_trans h.nodes_size h'.nodes_size
  links_size := Nat.le_trans h.links_size h'.links_size
  node ix hix := (h'.node ix (Nat.lt_of_lt_of_le hix h.nodes_size)).trans (h.node ix hix)
  link ix hix := (h'.link ix (Nat.lt_of_lt_of_le hix h.links_size)).trans (h.link ix hix)

theorem extends_withNode (net : Network α) (node : Node α) : net.Extends (net.withNode node) where
  nodes_size := by simp [withNode]
  links_size := Nat.le_refl _
  node ix hix := by rw [node_withNode, if_neg (Nat.ne_of_lt hix)]
  link _ _ := rfl

theorem extends_withLink (net : Network α) (l : Link α) : net.Extends (net.withLink l) where
  nodes_size := Nat.le_refl _
  links_size := by simp [withLink]
  node _ _ := rfl
  link ix hix := by rw [link_withLink, if_neg (Nat.ne_of_lt hix)]

theorem extends_withLoopLink (net : Network α) (facility : String) (p : Point α)
    (modes : ModeSet) : net.Extends (net.withLoopLink facility p modes) := by
  have h := (net.extends_withNode ⟨loopLinkPrefix ++ facility, p⟩).trans
    ((net.withNode _).extends_withLink (madeUpLink facility net.nodes.size modes))
  exact ⟨h.nodes_size, h.links_size, h.node, h.link⟩

/-- A made-up link stays what it is when the network grows. -/
theorem Extends.madeUpFor {net net' : Network α} (h : net.Extends net') (hnet : net.Consistent)
    {facility : String} {ix : LinkIx} (hix : net.MadeUpFor facility ix) :
    net'.MadeUpFor facility ix := by
  have hlink := h.link ix hix.lt
  refine ⟨Nat.lt_of_lt_of_le hix.lt h.links_size, ?_, ?_, ?_, ?_⟩
  · rw [hlink]
    exact hix.artificial
  · rw [hlink]
    exact hix.isLoop
  · rw [hlink]
    exact hix.link_id
  · rw [hlink, h.node _ (hnet.source_lt ix hix.lt)]
    exact hix.node_id

theorem consistent_empty : (empty : Network α).Consistent where
  outgoing_size := rfl
  incoming_size := rfl
  source_lt _ h := absurd h (Nat.not_lt_zero _)
  target_lt _ h := absurd h (Nat.not_lt_zero _)
  outLinks _ := rfl
  inLinks _ := rfl
  nodeIx? id ix := by simp [Network.nodeIx?, empty]
  linkIx? id := by simp [Network.linkIx?, linksWhere, empty]
  loopLinks facility ix h := by simp [existingLoopLink?, empty] at h

theorem Consistent.withNode {net : Network α} (h : net.Consistent) (node : Node α)
    (hid : net.nodeIx? node.id = none) : (net.withNode node).Consistent where
  outgoing_size := by simp [Network.withNode, h.outgoing_size]
  incoming_size := by simp [Network.withNode, h.incoming_size]
  source_lt ix hix := Nat.lt_of_lt_of_le (h.source_lt ix hix) (net.extends_withNode node).nodes_size
  target_lt ix hix := Nat.lt_of_lt_of_le (h.target_lt ix hix) (net.extends_withNode node).nodes_size
  outLinks n := (net.outLinks_withNode node n).trans (h.outLinks n)
  inLinks n := (net.inLinks_withNode node n).trans (h.inLinks n)
  nodeIx? id ix := by
    have hsize : (net.withNode node).nodes.size = net.nodes.size + 1 := by simp [Network.withNode]
    rw [nodeIx?_withNode, node_withNode, hsize]
    by_cases hix : ix = net.nodes.size
    · -- The new number was never handed out before.
      subst hix
      have hold : net.nodeIx? id ≠ some net.nodes.size := by
        intro hsome
        exact Nat.lt_irrefl _ ((h.nodeIx? id _).1 hsome).1
      by_cases hnew : node.id = id <;> simp [hnew, hold]
    · rw [if_neg hix]
      by_cases hnew : node.id = id
      · -- The new id was not known before, so no old node has it.
        have hold : ¬ (ix < net.nodes.size ∧ (net.node ix).id = id) := by
          intro hnode
          rw [← hnew, ← h.nodeIx?, hid] at hnode
          cases hnode
        rw [if_pos hnew, Option.some.injEq]
        constructor
        · intro heq
          exact absurd heq.symm hix
        · rintro ⟨hlt, hname⟩
          exact absurd ⟨Nat.lt_of_le_of_ne (Nat.le_of_lt_succ hlt) hix, hname⟩ hold
      · rw [if_neg hnew, h.nodeIx?]
        constructor
        · rintro ⟨hlt, hname⟩
          exact ⟨Nat.lt_succ_of_lt hlt, hname⟩
        · rintro ⟨hlt, hname⟩
          exact ⟨Nat.lt_of_le_of_ne (Nat.le_of_lt_succ hlt) hix, hname⟩
  linkIx? id := h.linkIx? id
  loopLinks facility ix hix := (net.extends_withNode node).madeUpFor h (h.loopLinks facility ix hix)

theorem Consistent.withLink {net : Network α} (h : net.Consistent) (l : Link α)
    (hs : l.source < net.nodes.size) (ht : l.target < net.nodes.size) :
    (net.withLink l).Consistent where
  outgoing_size := by simp [Network.withLink, h.outgoing_size]
  incoming_size := by simp [Network.withLink, h.incoming_size]
  source_lt ix hix := by
    rw [link_withLink]
    split
    · exact hs
    · next hne => exact h.source_lt ix (lt_of_lt_withLink hix hne)
  target_lt ix hix := by
    rw [link_withLink]
    split
    · exact ht
    · next hne => exact h.target_lt ix (lt_of_lt_withLink hix hne)
  outLinks n := by
    rw [outLinks_withLink (h.outgoing_size ▸ hs), linksWhere_withLink, h.outLinks]
    simp
  inLinks n := by
    rw [inLinks_withLink (h.incoming_size ▸ ht), linksWhere_withLink, h.inLinks]
    simp
  nodeIx? id ix := h.nodeIx? id ix
  linkIx? id := by
    rw [linkIx?_withLink, linksWhere_withLink, h.linkIx?]
    by_cases hid : l.id = id <;> simp [hid]
  loopLinks facility ix hix := (net.extends_withLink l).madeUpFor h (h.loopLinks facility ix hix)

theorem extends_withIndex (net : Network α) (index : SpatialIndex α) :
    net.Extends { net with index } :=
  ⟨Nat.le_refl _, Nat.le_refl _, fun _ _ => rfl, fun _ _ => rfl⟩

theorem Consistent.withIndex {net : Network α} (h : net.Consistent) (index : SpatialIndex α) :
    { net with index := index }.Consistent :=
  ⟨h.outgoing_size, h.incoming_size, h.source_lt, h.target_lt, h.outLinks, h.inLinks, h.nodeIx?,
    h.linkIx?, fun facility ix hix =>
      (net.extends_withIndex index).madeUpFor h (h.loopLinks facility ix hix)⟩

theorem Consistent.withLoopLink {net : Network α} (h : net.Consistent) {facility : String}
    (hid : net.nodeIx? (loopLinkPrefix ++ facility) = none) (p : Point α) (modes : ModeSet) :
    (net.withLoopLink facility p modes).Consistent := by
  have hsize : (net.withPlace (loopLinkPrefix ++ facility) p).nodes.size = net.nodes.size + 1 := by
    simp [withPlace, Network.withNode]
  have hplace : (net.withPlace (loopLinkPrefix ++ facility) p).Consistent :=
    (h.withNode ⟨_, p⟩ hid).withIndex _
  have hlink := hplace.withLink (madeUpLink facility net.nodes.size modes)
    (by rw [hsize]; exact Nat.lt_succ_self _) (by rw [hsize]; exact Nat.lt_succ_self _)
  refine ⟨hlink.outgoing_size, hlink.incoming_size, hlink.source_lt, hlink.target_lt,
    hlink.outLinks, hlink.inLinks, hlink.nodeIx?, hlink.linkIx?, ?_⟩
  intro other ix hix
  rw [existingLoopLink?_withLoopLink] at hix
  split at hix
  · next heq =>
    subst heq
    obtain rfl : net.links.size = ix := Option.some.inj hix
    have hnew : (net.withLoopLink facility p modes).link net.links.size =
        madeUpLink facility net.nodes.size modes :=
      (link_withLink (net.withPlace _ p) _ _).trans (if_pos rfl)
    have hnode : (net.withLoopLink facility p modes).node net.nodes.size =
        ⟨loopLinkPrefix ++ facility, p⟩ :=
      (node_withNode net _ _).trans (if_pos rfl)
    refine ⟨by simp [Network.withLoopLink, Network.withLink, withPlace, Network.withNode], ?_, ?_,
      ?_, ?_⟩
    · rw [hnew]
      rfl
    · rw [hnew]
      simp [madeUpLink, Link.isLoop]
    · rw [hnew]
      rfl
    · rw [hnew]
      exact congrArg Node.id hnode
  · exact (net.extends_withLoopLink facility p modes).madeUpFor h (h.loopLinks other ix hix)

theorem Consistent.addNode {net net' : Network α} {id : String} {p : Point α} {ix : NodeIx}
    (h : net.Consistent) (hadd : net.addNode id p = .ok (net', ix)) : net'.Consistent := by
  obtain ⟨hid, rfl, -⟩ := addNode_ok hadd
  exact (h.withNode ⟨id, p⟩ hid).withIndex _

theorem Consistent.addLink {net net' : Network α} {spec : LinkSpec α} {ix : LinkIx}
    (h : net.Consistent) (hadd : net.addLink spec = .ok (net', ix)) : net'.Consistent := by
  obtain ⟨-, source, target, hs, ht, rfl, -⟩ := addLink_ok hadd
  exact h.withLink _ ((h.nodeIx? _ _).1 hs).1 ((h.nodeIx? _ _).1 ht).1

theorem Consistent.loopLink {net net' : Network α} {facility : String} {p : Point α}
    {modes : ModeSet} {ix : LinkIx} (h : net.Consistent)
    (hloop : net.loopLink facility p modes = .ok (net', ix)) : net'.Consistent := by
  rcases loopLink_ok hloop with ⟨-, rfl⟩ | ⟨-, hid, rfl, -⟩
  · exact h
  · exact h.withLoopLink hid p modes

/-- A request for the loop link of a facility leaves all numbers as they were. -/
theorem extends_loopLink {net net' : Network α} {facility : String} {p : Point α}
    {modes : ModeSet} {ix : LinkIx} (hloop : net.loopLink facility p modes = .ok (net', ix)) :
    net.Extends net' := by
  rcases loopLink_ok hloop with ⟨-, rfl⟩ | ⟨-, -, rfl, -⟩
  · exact .refl _
  · exact extends_withLoopLink _ facility p modes

/-- The link given for a facility is the one that is found for it from then on. -/
theorem existingLoopLink?_loopLink {net net' : Network α} {facility : String} {p : Point α}
    {modes : ModeSet} {ix : LinkIx} (hloop : net.loopLink facility p modes = .ok (net', ix)) :
    net'.existingLoopLink? facility = some ix := by
  rcases loopLink_ok hloop with ⟨hold, rfl⟩ | ⟨-, -, rfl, rfl⟩
  · exact hold
  · rw [existingLoopLink?_withLoopLink, if_pos rfl]

/-! ## Networks that can come about -/

/-- The networks that insertions lead to. What an insertion that fails leaves is among them
(`Reachable.afterRequest`). -/
inductive Reachable : Network α → Prop where
  | empty : Reachable Network.empty
  | ofParts {nodes : List (Node α)} {links : List (LinkSpec α)} {net : Network α} :
    ofParts nodes links = .ok net → Reachable net
  | addNode {net net' : Network α} {id : String} {p : Point α} {ix : NodeIx} :
    Reachable net → net.addNode id p = .ok (net', ix) → Reachable net'
  | addLink {net net' : Network α} {spec : LinkSpec α} {ix : LinkIx} :
    Reachable net → net.addLink spec = .ok (net', ix) → Reachable net'
  | loopLink {net net' : Network α} {facility : String} {p : Point α} {modes : ModeSet}
    {ix : LinkIx} :
    Reachable net → net.loopLink facility p modes = .ok (net', ix) → Reachable net'

/-- The network of given parts: nodes without an index, then the index, then links. -/
theorem ofParts_ok {nodes : List (Node α)} {links : List (LinkSpec α)} {net : Network α}
    (h : ofParts nodes links = .ok net) :
    ∃ bare : Network α,
      nodes.foldlM (fun net node => Prod.fst <$> net.pushNode node) empty = .ok bare ∧
        links.foldlM (fun net spec => Prod.fst <$> net.addLink spec)
          { bare with index := .bulkLoad bare.nodes } = .ok net := by
  unfold ofParts at h
  exact bind_eq_ok_iff.1 h

/-- Given links are let in one after the other, into a network of nodes. -/
theorem exists_of_ofParts {nodes : List (Node α)} {links : List (LinkSpec α)} {net : Network α}
    (h : ofParts nodes links = .ok net) :
    ∃ start : Network α, start.Consistent ∧ start.links = #[] ∧
      links.foldlM (fun net spec => Prod.fst <$> net.addLink spec) start = .ok net := by
  obtain ⟨bare, hnodes, hlinks⟩ := ofParts_ok h
  have hbare : bare.Consistent ∧ bare.links = #[] := by
    refine foldlM_keeps (P := fun net => net.Consistent ∧ net.links = #[]) ?_ _
      ⟨consistent_empty, rfl⟩ hnodes
    rintro net node net' ⟨hnet, hnone⟩ hpush
    obtain ⟨⟨_, ix⟩, hpush, rfl⟩ := map_eq_ok_iff.1 hpush
    rw [pushNode_eq] at hpush
    split at hpush
    · cases hpush
    next hid =>
    split at hpush
    · cases hpush
    · cases hpush
      exact ⟨hnet.withNode node (by simpa using hid), hnone⟩
  -- Consistency does not look at the index.
  exact ⟨{ bare with index := .bulkLoad bare.nodes }, hbare.1.withIndex _, hbare.2, hlinks⟩

/-- **The parts of a reachable network agree.** -/
theorem Reachable.consistent {net : Network α} (h : net.Reachable) : net.Consistent := by
  induction h with
  | empty => exact consistent_empty
  | ofParts hparts =>
    obtain ⟨start, hstart, -, hlinks⟩ := exists_of_ofParts hparts
    refine foldlM_keeps ?_ _ hstart hlinks
    intro net spec net' hnet hadd
    obtain ⟨⟨_, ix⟩, hlink, rfl⟩ := map_eq_ok_iff.1 hadd
    exact hnet.addLink hlink
  | addNode _ hadd ih => exact ih.addNode hadd
  | addLink _ hadd ih => exact ih.addLink hadd
  | loopLink _ hloop ih => exact ih.loopLink hloop

/-- **What holds of every link that can be let in and of every loop link** holds of all links of a
reachable network. -/
theorem Reachable.forall_link {P : Link α → Prop}
    (hgiven : ∀ (net : Network α) (spec : LinkSpec α) (source target : NodeIx),
      ¬ spec.freespeed ≤ 0 → P (net.resolvedLink spec source target))
    (hmade : ∀ facility node modes, P (madeUpLink facility node modes)) {net : Network α}
    (h : net.Reachable) : ∀ ix < net.links.size, P (net.link ix) := by
  have hgrow {net : Network α} {l : Link α} (hl : P l)
      (hnet : ∀ ix < net.links.size, P (net.link ix)) :
      ∀ ix < (net.withLink l).links.size, P ((net.withLink l).link ix) := by
    intro ix hix
    rw [link_withLink]
    split
    · exact hl
    · next hne => exact hnet ix (lt_of_lt_withLink hix hne)
  have hadded {net net' : Network α} {spec : LinkSpec α} {ix : LinkIx}
      (hadd : net.addLink spec = .ok (net', ix))
      (hnet : ∀ ix < net.links.size, P (net.link ix)) :
      ∀ ix < net'.links.size, P (net'.link ix) := by
    have hspeed := not_freespeed_le_of_addLink hadd
    obtain ⟨-, source, target, -, -, rfl, -⟩ := addLink_ok hadd
    exact hgrow (hgiven _ _ _ _ hspeed) hnet
  induction h with
  | empty => exact fun ix hix => absurd hix (Nat.not_lt_zero ix)
  | ofParts hparts =>
    obtain ⟨start, -, hnone, hlinks⟩ := exists_of_ofParts hparts
    refine foldlM_keeps (P := fun net => ∀ ix < net.links.size, P (net.link ix)) ?_ _ ?_ hlinks
    · intro net spec net' hnet hadd
      obtain ⟨⟨_, ix⟩, hlink, rfl⟩ := map_eq_ok_iff.1 hadd
      exact hadded hlink hnet
    · rw [hnone]
      exact fun ix hix => absurd hix (Nat.not_lt_zero ix)
  | addNode _ hadd ih =>
    obtain ⟨-, rfl, -⟩ := addNode_ok hadd
    exact ih
  | addLink _ hadd ih => exact hadded hadd ih
  | loopLink _ hloop ih =>
    rcases loopLink_ok hloop with ⟨-, rfl⟩ | ⟨-, -, rfl, -⟩
    · exact ih
    · exact hgrow (hmade _ _ _) ih

/-- **The spatial index of a reachable network lists every node once, at its position.** -/
theorem Reachable.indexed {net : Network α} (h : net.Reachable) :
    net.index = .bulkLoad net.nodes := by
  have hplace : ∀ {net : Network α} {id : String} {p : Point α},
      net.index = .bulkLoad net.nodes →
        (net.withPlace id p).index = .bulkLoad (net.withPlace id p).nodes := by
    intro net id p hnet
    simp [withPlace, withNode, SpatialIndex.insert, SpatialIndex.bulkLoad, hnet]
  induction h with
  | empty => rfl
  | ofParts hparts =>
    obtain ⟨bare, -, hlinks⟩ := ofParts_ok hparts
    refine foldlM_keeps (P := fun net => net.index = .bulkLoad net.nodes) ?_ _ rfl hlinks
    intro net spec net' hnet hadd
    obtain ⟨⟨_, ix⟩, hlink, rfl⟩ := map_eq_ok_iff.1 hadd
    obtain ⟨-, source, target, -, -, rfl, -⟩ := addLink_ok hlink
    exact hnet
  | addNode _ hadd ih =>
    obtain ⟨-, rfl, -⟩ := addNode_ok hadd
    exact hplace ih
  | addLink _ hadd ih =>
    obtain ⟨-, source, target, -, -, rfl, -⟩ := addLink_ok hadd
    exact ih
  | loopLink _ hloop ih =>
    rcases loopLink_ok hloop with ⟨-, rfl⟩ | ⟨-, -, rfl, -⟩
    · exact ih
    · exact hplace ih

end TransitMatching.Network
