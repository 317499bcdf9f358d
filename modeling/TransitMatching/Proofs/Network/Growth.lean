import TransitMatching.Network.Basic

/-!
# How insertions change a network

Every insertion appends: a node without links, a link between nodes, or both. The
networks after it are written as functions of the one before, and each insertion
as the conditions under which it gives such a network.

* `addNode_eq`, `addLink_eq`, `loopLink_eq`: all that an insertion can answer.
-/

namespace TransitMatching.Network

variable {α : Type}

/-- The network with a node appended that no link touches. -/
def withNode (net : Network α) (node : Node α) : Network α :=
  { net with
    nodes := net.nodes.push node
    outgoing := net.outgoing.push []
    incoming := net.incoming.push []
    nodeLookup := net.nodeLookup.insert node.id net.nodes.size }

/-- The network with a node appended and entered in the spatial index. -/
def withPlace (net : Network α) (id : String) (position : Point α) : Network α :=
  { net.withNode ⟨id, position⟩ with index := net.index.insert net.nodes.size position }

/-- The network with a link appended. -/
def withLink (net : Network α) (l : Link α) : Network α :=
  { net with
    links := net.links.push l
    outgoing := net.outgoing.modify l.source (· ++ [net.links.size])
    incoming := net.incoming.modify l.target (· ++ [net.links.size])
    linkLookup := net.linkLookup.insert l.id net.links.size }

theorem contains_nodeLookup (net : Network α) (id : String) :
    net.nodeLookup.contains id = (net.nodeIx? id).isSome :=
  Std.TreeMap.contains_eq_isSome_getElem?

theorem contains_linkLookup (net : Network α) (id : String) :
    net.linkLookup.contains id = (net.linkIx? id).isSome :=
  Std.TreeMap.contains_eq_isSome_getElem?

theorem pushNode_eq (net : Network α) (node : Node α) :
    net.pushNode node =
      if (net.nodeIx? node.id).isSome then .error (.duplicateNode node.id)
      else if capacity ≤ net.nodes.size then .error .overflow
      else .ok (net.withNode node, net.nodes.size) := by
  unfold pushNode
  rw [contains_nodeLookup]
  rfl

theorem pushLink_eq (net : Network α) (l : Link α) :
    net.pushLink l =
      if capacity ≤ net.links.size then .error .overflow
      else .ok (net.withLink l, net.links.size) := rfl

theorem addNode_eq (net : Network α) (id : String) (p : Point α) :
    net.addNode id p =
      if (net.nodeIx? id).isSome then .error (.duplicateNode id)
      else if capacity ≤ net.nodes.size then .error .overflow
      else .ok (net.withPlace id p, net.nodes.size) := by
  unfold addNode
  rw [pushNode_eq]
  split
  · rfl
  · split <;> rfl

/-- A node that was inserted has a new id. -/
theorem addNode_ok {net net' : Network α} {id : String} {p : Point α} {ix : NodeIx}
    (h : net.addNode id p = .ok (net', ix)) :
    net.nodeIx? id = none ∧ net' = net.withPlace id p ∧ ix = net.nodes.size := by
  rw [addNode_eq] at h
  split at h
  · cases h
  · next hid =>
    split at h
    · cases h
    · cases h
      exact ⟨by simpa using hid, rfl, rfl⟩

variable [Scalar α]

/-- The link that a description stands for, once its ends are known. -/
def resolvedLink (net : Network α) (spec : LinkSpec α) (source target : NodeIx) : Link α :=
  { id := spec.id
    source
    target
    length := spec.length.getD ((net.position source).distance (net.position target))
    freespeed := spec.freespeed
    capacity := spec.capacity
    modes := spec.modes
    osmModes := spec.osmModes
    artificial := false }

theorem addLink_eq (net : Network α) (spec : LinkSpec α) :
    net.addLink spec =
      if (net.linkIx? spec.id).isSome then .error (.duplicateLink spec.id)
      else if spec.freespeed ≤ 0 then .error (.invalidFreespeed spec.id spec.freespeed)
      else
        match net.nodeIx? spec.source, net.nodeIx? spec.target with
        | none, _ => .error (.unknownNode spec.id spec.source)
        | some _, none => .error (.unknownNode spec.id spec.target)
        | some source, some target =>
          if capacity ≤ net.links.size then .error .overflow
          else .ok (net.withLink (net.resolvedLink spec source target), net.links.size) := by
  unfold addLink resolveEnd
  rw [contains_linkLookup]
  split
  · rfl
  · split
    · rfl
    · cases net.nodeIx? spec.source with
      | none => rfl
      | some source => cases net.nodeIx? spec.target <;> rfl

/-- A link that was inserted has a new id and two ends in the network. -/
theorem addLink_ok {net net' : Network α} {spec : LinkSpec α} {ix : LinkIx}
    (h : net.addLink spec = .ok (net', ix)) :
    net.linkIx? spec.id = none ∧ ∃ source target, net.nodeIx? spec.source = some source ∧
      net.nodeIx? spec.target = some target ∧
        net' = net.withLink (net.resolvedLink spec source target) ∧ ix = net.links.size := by
  rw [addLink_eq] at h
  split at h
  · cases h
  next hid =>
  split at h
  · cases h
  split at h
  · cases h
  · cases h
  next source target hs ht =>
  split at h
  · cases h
  · cases h
    exact ⟨by simpa using hid, source, target, hs, ht, rfl, rfl⟩

/-- A link that is let in has a speed that is not at most zero. -/
theorem not_freespeed_le_of_addLink {net net' : Network α} {spec : LinkSpec α} {ix : LinkIx}
    (h : net.addLink spec = .ok (net', ix)) : ¬ spec.freespeed ≤ 0 := by
  intro hle
  rw [addLink_eq] at h
  split at h
  · cases h
  · cases h

/-- The loop link at a node that is made up for a stop facility. -/
def madeUpLink (facility : String) (node : NodeIx) (modes : ModeSet) : Link α :=
  { id := loopLinkPrefix ++ facility
    source := node
    target := node
    length := loopLinkLength
    freespeed := artificialFreespeed
    capacity := defaultCapacity
    modes := modes.withArtificial
    osmModes := ∅
    artificial := true }

/-- The network with a loop link made up for a stop facility. -/
def withLoopLink (net : Network α) (facility : String) (p : Point α) (modes : ModeSet) :
    Network α :=
  { (net.withPlace (loopLinkPrefix ++ facility) p).withLink
      (madeUpLink facility net.nodes.size modes) with
    loopLinks := net.loopLinks.insert facility net.links.size }

theorem loopLink_eq (net : Network α) (facility : String) (p : Point α) (modes : ModeSet) :
    net.loopLink facility p modes =
      match net.existingLoopLink? facility with
      | some ix => .ok (net, ix)
      | none =>
        if (net.nodeIx? (loopLinkPrefix ++ facility)).isSome then
          .error (.duplicateNode (loopLinkPrefix ++ facility))
        else if capacity ≤ net.nodes.size ∨ capacity ≤ net.links.size then .error .overflow
        else .ok (net.withLoopLink facility p modes, net.links.size) := by
  unfold loopLink
  cases net.existingLoopLink? facility with
  | some ix => rfl
  | none =>
    dsimp only
    rw [addNode_eq]
    split
    · rfl
    · by_cases hnodes : capacity ≤ net.nodes.size
      · rw [if_pos hnodes, if_pos (.inl hnodes)]
        rfl
      · rw [if_neg hnodes]
        change Except.bind ((net.withPlace _ p).pushLink (madeUpLink facility _ modes)) _ = _
        have hsize : (net.withPlace (loopLinkPrefix ++ facility) p).links.size = net.links.size :=
          rfl
        rw [pushLink_eq, hsize]
        by_cases hlinks : capacity ≤ net.links.size
        · rw [if_pos hlinks, if_pos (.inr hlinks)]
          rfl
        · rw [if_neg hlinks, if_neg (not_or.2 ⟨hnodes, hlinks⟩)]
          rfl

/-- A loop link was there already, or it was made up with a node of a new id. -/
theorem loopLink_ok {net net' : Network α} {facility : String} {p : Point α} {modes : ModeSet}
    {ix : LinkIx} (h : net.loopLink facility p modes = .ok (net', ix)) :
    net.existingLoopLink? facility = some ix ∧ net' = net ∨
      net.existingLoopLink? facility = none ∧ net.nodeIx? (loopLinkPrefix ++ facility) = none ∧
        net' = net.withLoopLink facility p modes ∧ ix = net.links.size := by
  rw [loopLink_eq] at h
  split at h
  · next old hold =>
    cases h
    exact .inl ⟨hold, rfl⟩
  · next hold =>
    split at h
    · cases h
    next hid =>
    split at h
    · cases h
    · cases h
      exact .inr ⟨hold, by simpa using hid, rfl, rfl⟩

end TransitMatching.Network
