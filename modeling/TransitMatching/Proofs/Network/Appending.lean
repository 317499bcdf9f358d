import TransitMatching.Proofs.Network.LinkIds

/-!
# Requests append, or do nothing

A request that is granted appends a node, a link, or a node with a loop link, and all that was
there keeps its number. A request that is refused leaves everything as it was, as long as there
is room: only where the last node fits and no link does, the node of a refused loop link stays.
The loop link of a facility is made up once, and every later request for it gives its number.

* `Appends`: every part of a network that is grown by one node, one link, or both.
* `afterRequest_cases`: all that a request can do to a network.
* `known_or_blocked`: a facility whose loop link was requested has it, or can never have it.
* `after_appends`: **a request that is refused changes nothing, one that is granted appends what
  was requested and changes nothing else.**
-/

namespace TransitMatching.Network

variable {α : Type} [Scalar α] {net : Network α}

/-! ## Growing by a node, a link, or both -/

/-- A network grown by at most one node and at most one link, which may be the loop link of a
facility: what each of its parts holds, by what it held before. -/
structure Appends (net : Network α) (node : Option (Node α)) (link : Option (Link α))
    (facility : Option String) (grown : Network α) : Prop where
  nodes : grown.nodes.toList = net.nodes.toList ++ node.toList
  links : grown.links.toList = net.links.toList ++ link.toList
  outLinks : ∀ n, grown.outLinks n =
    net.outLinks n ++ if link.any (·.source = n) then [net.links.size] else []
  inLinks : ∀ n, grown.inLinks n =
    net.inLinks n ++ if link.any (·.target = n) then [net.links.size] else []
  nodeIx? : ∀ id, grown.nodeIx? id =
    if node.any (·.id = id) then some net.nodes.size else net.nodeIx? id
  linkIx? : ∀ id, grown.linkIx? id =
    if link.any (·.id = id) then some net.links.size else net.linkIx? id
  existingLoopLink? : ∀ other, grown.existingLoopLink? other =
    if facility = some other then some net.links.size else net.existingLoopLink? other
  entries : grown.index.entries.toList = net.index.entries.toList ++
    (node.map fun node => (⟨net.nodes.size, node.position⟩ : IndexedNode α)).toList

omit [Scalar α] in
theorem appends_withPlace (net : Network α) (id : String) (p : Point α) :
    net.Appends (some ⟨id, p⟩) none none (net.withPlace id p) where
  nodes := by simp [withPlace, withNode]
  links := by simp [withPlace, withNode]
  outLinks n := (net.outLinks_withNode ⟨id, p⟩ n).trans (by simp)
  inLinks n := (net.inLinks_withNode ⟨id, p⟩ n).trans (by simp)
  nodeIx? other := (net.nodeIx?_withNode ⟨id, p⟩ other).trans (by simp)
  linkIx? other := rfl
  existingLoopLink? other := rfl
  entries := by simp [withPlace, withNode, SpatialIndex.insert]

theorem Consistent.appends_withLink (h : net.Consistent) {l : Link α}
    (hsource : l.source < net.nodes.size) (htarget : l.target < net.nodes.size) :
    net.Appends none (some l) none (net.withLink l) where
  nodes := by simp [Network.withLink]
  links := by simp [Network.withLink]
  outLinks n := (outLinks_withLink (h.outgoing_size ▸ hsource) n).trans (by simp)
  inLinks n := (inLinks_withLink (h.incoming_size ▸ htarget) n).trans (by simp)
  nodeIx? id := rfl
  linkIx? id := (net.linkIx?_withLink l id).trans (by simp)
  existingLoopLink? other := rfl
  entries := by simp [Network.withLink]

theorem Consistent.appends_withLoopLink (h : net.Consistent) {facility : String}
    (hid : net.nodeIx? (loopLinkPrefix ++ facility) = none) (p : Point α) (modes : ModeSet) :
    net.Appends (some ⟨loopLinkPrefix ++ facility, p⟩)
      (some (madeUpLink facility net.nodes.size modes)) (some facility)
      (net.withLoopLink facility p modes) := by
  have hplace := net.appends_withPlace (loopLinkPrefix ++ facility) p
  have hconsistent : (net.withPlace (loopLinkPrefix ++ facility) p).Consistent :=
    (h.withNode ⟨_, p⟩ hid).withIndex _
  have hlt : net.nodes.size < (net.withPlace (loopLinkPrefix ++ facility) p).nodes.size := by
    simp [withPlace, Network.withNode]
  have hlink := hconsistent.appends_withLink (l := madeUpLink facility net.nodes.size modes) hlt hlt
  -- The link comes after the node; its entry in the register comes after both.
  exact
    { nodes := hlink.nodes.trans (by simp [hplace.nodes])
      links := hlink.links
      outLinks := fun n => (hlink.outLinks n).trans (congrArg (· ++ _) (by simp [hplace.outLinks]))
      inLinks := fun n => (hlink.inLinks n).trans (congrArg (· ++ _) (by simp [hplace.inLinks]))
      nodeIx? := hplace.nodeIx?
      linkIx? := hlink.linkIx?
      existingLoopLink? := fun other =>
        (net.existingLoopLink?_withLoopLink facility other p modes).trans (by simp)
      entries := hlink.entries.trans (by simp [hplace.entries]) }

/-! ## One request -/

/-- What a request answers: the number of a node or a link, or why it is refused. -/
def answer (net : Network α) : Request α → Except (NetworkError α) Nat
  | .node id position => Prod.snd <$> net.addNode id position
  | .link spec => Prod.snd <$> net.addLink spec
  | .loopLink facility position modes => Prod.snd <$> net.loopLink facility position modes

/-- A request for the loop link of a facility. -/
def Request.AsksFor (facility : String) : Request α → Prop
  | .loopLink other _ _ => other = facility
  | .node _ _ => False
  | .link _ => False

/-- **All that a request can do to a network**: nothing, or append a node of a new id, a link
between two nodes, or the loop link of a facility that has none. -/
theorem afterRequest_cases (net : Network α) (request : Request α) :
    net.afterRequest request = net ∨
      (∃ id p, net.nodeIx? id = none ∧ net.afterRequest request = net.withPlace id p) ∨
      (∃ spec source target, request = .link spec ∧
        net.afterRequest request = net.withLink (net.resolvedLink spec source target)) ∨
      ∃ facility p modes, request = .loopLink facility p modes ∧
        net.answer request = .ok net.links.size ∧ net.existingLoopLink? facility = none ∧
        net.nodeIx? (loopLinkPrefix ++ facility) = none ∧
        net.afterRequest request = net.withLoopLink facility p modes := by
  cases request with
  | node id p =>
    dsimp only [afterRequest]
    split
    · next hadd =>
      obtain ⟨hid, rfl, -⟩ := addNode_ok hadd
      exact .inr (.inl ⟨id, p, hid, rfl⟩)
    · exact .inl rfl
  | link spec =>
    dsimp only [afterRequest]
    split
    · next hadd =>
      obtain ⟨-, source, target, -, -, rfl, -⟩ := addLink_ok hadd
      exact .inr (.inr (.inl ⟨spec, source, target, rfl, rfl⟩))
    · exact .inl rfl
  | loopLink facility p modes =>
    dsimp only [afterRequest, afterLoopLink]
    split
    · next hloop =>
      rcases loopLink_ok hloop with ⟨-, rfl⟩ | ⟨hold, hid, rfl, rfl⟩
      · exact .inl rfl
      · exact .inr (.inr (.inr ⟨facility, p, modes, rfl, congrArg (Prod.snd <$> ·) hloop, hold, hid,
          rfl⟩))
    · split
      · next hadd =>
        obtain ⟨hid, rfl, -⟩ := addNode_ok hadd
        exact .inr (.inl ⟨_, p, hid, rfl⟩)
      · exact .inl rfl

theorem extends_afterRequest (net : Network α) (request : Request α) :
    net.Extends (net.afterRequest request) := by
  rcases net.afterRequest_cases request with h | ⟨id, p, -, h⟩ | ⟨spec, source, target, -, h⟩ |
    ⟨facility, p, modes, -, -, -, -, h⟩
  · rw [h]
    exact .refl net
  · rw [h]
    exact (net.extends_withNode ⟨id, p⟩).trans (extends_withIndex _ _)
  · rw [h]
    exact net.extends_withLink _
  · rw [h]
    exact net.extends_withLoopLink facility p modes

/-- A node is found by its id from its insertion on. -/
theorem nodeIx?_afterRequest {id : String} {ix : NodeIx} (hid : net.nodeIx? id = some ix)
    (request : Request α) : (net.afterRequest request).nodeIx? id = some ix := by
  have hplace : ∀ {other : String} {p : Point α}, net.nodeIx? other = none →
      (net.withPlace other p).nodeIx? id = some ix := by
    intro other p hnew
    have hne : other ≠ id := by
      rintro rfl
      cases hid.symm.trans hnew
    exact (net.nodeIx?_withNode ⟨other, p⟩ id).trans ((if_neg hne).trans hid)
  rcases net.afterRequest_cases request with h | ⟨other, p, hnew, h⟩ |
    ⟨spec, source, target, -, h⟩ | ⟨facility, p, modes, -, -, -, hnew, h⟩ <;> rw [h]
  · exact hid
  · exact hplace hnew
  · exact hid
  · exact hplace hnew

/-- A loop link is found by its facility from its insertion on. -/
theorem existingLoopLink?_afterRequest {facility : String} {ix : LinkIx}
    (hknown : net.existingLoopLink? facility = some ix) (request : Request α) :
    (net.afterRequest request).existingLoopLink? facility = some ix := by
  rcases net.afterRequest_cases request with h | ⟨other, p, -, h⟩ | ⟨spec, source, target, -, h⟩ |
    ⟨other, p, modes, -, -, hnew, -, h⟩ <;> rw [h]
  · exact hknown
  · exact hknown
  · exact hknown
  · rw [existingLoopLink?_withLoopLink, if_neg, hknown]
    rintro rfl
    cases hknown.symm.trans hnew

/-- Only a request for its loop link makes a facility known. -/
theorem existingLoopLink?_afterRequest_of_not_asksFor {facility : String} {request : Request α}
    (hasks : ¬ request.AsksFor facility) :
    (net.afterRequest request).existingLoopLink? facility = net.existingLoopLink? facility := by
  rcases net.afterRequest_cases request with h | ⟨other, p, -, h⟩ | ⟨spec, source, target, -, h⟩ |
    ⟨other, p, modes, rfl, -, -, -, h⟩ <;> rw [h]
  · rfl
  · rfl
  · exact (net.existingLoopLink?_withLoopLink other facility p modes).trans (if_neg hasks)

/-- **A request for a loop link that is granted** leaves the network that goes with its number. -/
theorem loopLink_of_answer {facility : String} {p : Point α} {modes : ModeSet} {ix : LinkIx}
    (h : net.answer (.loopLink facility p modes) = .ok ix) :
    net.loopLink facility p modes =
      .ok (net.afterRequest (.loopLink facility p modes), ix) := by
  obtain ⟨⟨grown, ix⟩, hloop, rfl⟩ := map_eq_ok_iff.1 h
  dsimp only [afterRequest, afterLoopLink]
  rw [hloop]

/-! ## Facilities that can have no loop link -/

/-- A facility that has no loop link and gets none: a node has its name, or there is no room. -/
def Blocked (net : Network α) (facility : String) : Prop :=
  net.existingLoopLink? facility = none ∧
    ((∃ ix, net.nodeIx? (loopLinkPrefix ++ facility) = some ix) ∨
      capacity ≤ net.nodes.size ∨ capacity ≤ net.links.size)

/-- A facility that has no loop link is blocked exactly if a request for it is refused. -/
theorem blocked_iff {facility : String} (hnew : net.existingLoopLink? facility = none)
    (p : Point α) (modes : ModeSet) :
    net.Blocked facility ↔ ∃ error, net.answer (.loopLink facility p modes) = .error error := by
  have hanswer : net.answer (.loopLink facility p modes) =
      Prod.snd <$> net.loopLink facility p modes := rfl
  rw [hanswer, loopLink_eq, hnew]
  unfold Blocked
  dsimp only
  cases net.nodeIx? (loopLinkPrefix ++ facility) with
  | some ix => exact iff_of_true ⟨hnew, .inl ⟨ix, rfl⟩⟩ ⟨_, rfl⟩
  | none =>
    by_cases hroom : capacity ≤ net.nodes.size ∨ capacity ≤ net.links.size
    · simp [hroom, hnew]
    · simp [hroom]

theorem Blocked.afterRequest {facility : String} (h : net.Blocked facility)
    (request : Request α) : (net.afterRequest request).Blocked facility := by
  have hkept := net.extends_afterRequest request
  refine ⟨?_, ?_⟩
  · by_cases hasks : request.AsksFor facility
    · rcases net.afterRequest_cases request with hafter | ⟨id, p, -, hafter⟩ |
        ⟨spec, source, target, rfl, -⟩ | ⟨other, p, modes, rfl, hanswer, -⟩
      · rw [hafter]
        exact h.1
      · rw [hafter]
        exact h.1
      · exact hasks.elim
      · -- A request for a facility that is blocked is refused.
        obtain rfl : other = facility := hasks
        obtain ⟨error, hrefused⟩ := (blocked_iff h.1 p modes).1 h
        cases hanswer.symm.trans hrefused
    · rw [existingLoopLink?_afterRequest_of_not_asksFor hasks]
      exact h.1
  · rcases h.2 with ⟨ix, hid⟩ | hnodes | hlinks
    · exact .inl ⟨ix, nodeIx?_afterRequest hid request⟩
    · exact .inr (.inl (Nat.le_trans hnodes hkept.nodes_size))
    · exact .inr (.inr (Nat.le_trans hlinks hkept.links_size))

/-! ## Any requests -/

/-- The first of some requests for the loop link of a facility was answered with a number. -/
def FirstAnswered (start : Network α) (requests : List (Request α)) (facility : String)
    (ix : LinkIx) : Prop :=
  ∃ before p modes later, requests = before ++ .loopLink facility p modes :: later ∧
    (∀ request ∈ before, ¬ request.AsksFor facility) ∧
    (start.after before).answer (.loopLink facility p modes) = .ok ix

theorem existingLoopLink?_after {facility : String} {ix : LinkIx}
    (hknown : net.existingLoopLink? facility = some ix) (requests : List (Request α)) :
    (net.after requests).existingLoopLink? facility = some ix := by
  induction requests generalizing net with
  | nil => exact hknown
  | cons request rest ih => exact ih (existingLoopLink?_afterRequest hknown request)

theorem Blocked.after {facility : String} (h : net.Blocked facility)
    (requests : List (Request α)) : (net.after requests).Blocked facility := by
  induction requests generalizing net with
  | nil => exact h
  | cons request rest ih => exact ih (h.afterRequest request)

/-- **A facility whose loop link was requested** has the one that the first request gave, or can
never have one. -/
theorem known_or_blocked {facility : String} (hnew : net.existingLoopLink? facility = none)
    (requests : List (Request α)) :
    ((∀ request ∈ requests, ¬ request.AsksFor facility) ∧
        (net.after requests).existingLoopLink? facility = none) ∨
      (∃ ix, net.FirstAnswered requests facility ix ∧
        (net.after requests).existingLoopLink? facility = some ix) ∨
      (net.after requests).Blocked facility := by
  induction requests generalizing net with
  | nil => exact .inl ⟨nofun, hnew⟩
  | cons request rest ih =>
    by_cases hasks : request.AsksFor facility
    · cases request with
      | node id p => exact hasks.elim
      | link spec => exact hasks.elim
      | loopLink other p modes =>
        obtain rfl : other = facility := hasks
        cases hanswer : net.answer (.loopLink other p modes) with
        | ok ix =>
          have hknown := existingLoopLink?_loopLink (loopLink_of_answer hanswer)
          exact .inr (.inl ⟨ix, ⟨[], p, modes, rest, rfl, nofun, hanswer⟩,
            existingLoopLink?_after hknown rest⟩)
        | error error =>
          have hblocked := (blocked_iff hnew p modes).2 ⟨error, hanswer⟩
          exact .inr (.inr ((hblocked.afterRequest _).after rest))
    · have hstill := (existingLoopLink?_afterRequest_of_not_asksFor hasks).trans hnew
      rcases ih hstill with ⟨hnone, hnew⟩ |
        ⟨ix, ⟨before, p, modes, later, rfl, hfirst, hanswer⟩, hknown⟩ | hblocked
      · exact .inl ⟨List.forall_mem_cons.2 ⟨hasks, hnone⟩, hnew⟩
      · exact .inr (.inl ⟨ix, ⟨request :: before, p, modes, later, rfl,
          List.forall_mem_cons.2 ⟨hasks, hfirst⟩, hanswer⟩, hknown⟩)
      · exact .inr (.inr hblocked)

/-- A network of given parts has no loop links. -/
theorem existingLoopLink?_ofParts {nodes : List (Node α)} {links : List (LinkSpec α)}
    (h : ofParts nodes links = .ok net) (facility : String) :
    net.existingLoopLink? facility = none := by
  obtain ⟨bare, hnodes, hlinks⟩ := ofParts_ok h
  have hbare : bare.existingLoopLink? facility = none := by
    refine foldlM_keeps (P := fun net => net.existingLoopLink? facility = none) ?_ _ ?_ hnodes
    · intro net node net' hnet hpush
      obtain ⟨⟨_, ix⟩, hpush, rfl⟩ := map_eq_ok_iff.1 hpush
      rw [pushNode_eq] at hpush
      split at hpush
      · cases hpush
      split at hpush
      · cases hpush
      · cases hpush
        exact hnet
    · simp [existingLoopLink?, empty]
  refine foldlM_keeps (P := fun net => net.existingLoopLink? facility = none) ?_ _ hbare hlinks
  intro net spec net' hnet hadd
  obtain ⟨⟨_, ix⟩, hlink, rfl⟩ := map_eq_ok_iff.1 hadd
  obtain ⟨-, source, target, -, -, rfl, -⟩ := addLink_ok hlink
  exact hnet

/-- What a request that is granted does after others: it appends what was requested under the number
that it is answered, or it gives the loop link that the first request for it gave. -/
inductive Granted (start : Network α) (requests : List (Request α)) :
    Request α → Nat → Network α → Prop
  | node {id : String} {p : Point α} {grown : Network α}
    (hgrown : (start.after requests).Appends (some ⟨id, p⟩) none none grown) :
    Granted start requests (.node id p) (start.after requests).nodes.size grown
  | link {spec : LinkSpec α} {source target : NodeIx} {grown : Network α}
    (hsource : (start.after requests).nodeIx? spec.source = some source)
    (htarget : (start.after requests).nodeIx? spec.target = some target)
    (hgrown : (start.after requests).Appends none
      (some ((start.after requests).resolvedLink spec source target)) none grown) :
    Granted start requests (.link spec) (start.after requests).links.size grown
  | firstLoopLink {facility : String} {p : Point α} {modes : ModeSet} {grown : Network α}
    (hfirst : ∀ request ∈ requests, ¬ request.AsksFor facility)
    (hgrown : (start.after requests).Appends (some ⟨loopLinkPrefix ++ facility, p⟩)
      (some (madeUpLink facility (start.after requests).nodes.size modes)) (some facility) grown)
    (hout : grown.outLinks (start.after requests).nodes.size = [(start.after requests).links.size])
    (hin : grown.inLinks (start.after requests).nodes.size = [(start.after requests).links.size]) :
    Granted start requests (.loopLink facility p modes) (start.after requests).links.size grown
  | knownLoopLink {facility : String} {p : Point α} {modes : ModeSet} {ix : LinkIx}
    (hfirst : start.FirstAnswered requests facility ix) :
    Granted start requests (.loopLink facility p modes) ix (start.after requests)

/-- No link leaves or enters the number that the next node gets. -/
theorem Consistent.outLinks_nodes_size (h : net.Consistent) : net.outLinks net.nodes.size = [] := by
  rw [h.outLinks, linksWhere, List.filter_eq_nil_iff]
  intro ix hix
  simpa using Nat.ne_of_lt (h.source_lt ix (List.mem_range.1 hix))

theorem Consistent.inLinks_nodes_size (h : net.Consistent) : net.inLinks net.nodes.size = [] := by
  rw [h.inLinks, linksWhere, List.filter_eq_nil_iff]
  intro ix hix
  simpa using Nat.ne_of_lt (h.target_lt ix (List.mem_range.1 hix))

/-- **A request that is refused changes nothing** while there is room for a node and a link. -/
theorem afterRequest_of_error {request : Request α} {error : NetworkError α}
    (hnodes : net.nodes.size < capacity) (hlinks : net.links.size < capacity)
    (h : net.answer request = .error error) : net.afterRequest request = net := by
  cases request with
  | node id p =>
    dsimp only [answer, afterRequest] at h ⊢
    cases hadd : net.addNode id p with
    | ok result => rw [hadd] at h; cases h
    | error error => rfl
  | link spec =>
    dsimp only [answer, afterRequest] at h ⊢
    cases hadd : net.addLink spec with
    | ok result => rw [hadd] at h; cases h
    | error error => rfl
  | loopLink facility p modes =>
    dsimp only [answer, afterRequest, afterLoopLink] at h ⊢
    rw [loopLink_eq] at h ⊢
    rw [addNode_eq]
    cases hknown : net.existingLoopLink? facility with
    | some ix => rfl
    | none =>
      rw [hknown] at h
      dsimp only at h ⊢
      cases hid : net.nodeIx? (loopLinkPrefix ++ facility) with
      | some ix => rfl
      | none =>
        -- With room, only a name that is taken stands in the way.
        have hroom : ¬ (capacity ≤ net.nodes.size ∨ capacity ≤ net.links.size) :=
          not_or.2 ⟨Nat.not_le.2 hnodes, Nat.not_le.2 hlinks⟩
        rw [hid, if_neg (by simp), if_neg hroom] at h
        cases h

/-- **A request that is granted does what was requested and nothing else**, where no facility had a
loop link at the start. -/
theorem granted_of_ok {start : Network α} {requests : List (Request α)} {request : Request α}
    {ix : Nat} (h : (start.after requests).Consistent)
    (hfacilities : ∀ facility, start.existingLoopLink? facility = none)
    (hok : (start.after requests).answer request = .ok ix) :
    Granted start requests request ix ((start.after requests).afterRequest request) := by
  cases request with
  | node id p =>
    obtain ⟨⟨grown, ix⟩, hadd, rfl⟩ := map_eq_ok_iff.1 hok
    dsimp only [afterRequest]
    rw [hadd]
    obtain ⟨-, rfl, rfl⟩ := addNode_ok hadd
    exact .node (appends_withPlace _ id p)
  | link spec =>
    obtain ⟨⟨grown, ix⟩, hadd, rfl⟩ := map_eq_ok_iff.1 hok
    dsimp only [afterRequest]
    rw [hadd]
    obtain ⟨-, source, target, hsource, htarget, rfl, rfl⟩ := addLink_ok hadd
    exact .link hsource htarget (h.appends_withLink ((h.nodeIx? _ _).1 hsource).1
      ((h.nodeIx? _ _).1 htarget).1)
  | loopLink facility p modes =>
    have hloop := loopLink_of_answer hok
    rcases known_or_blocked (hfacilities facility) requests with
      ⟨hnone, hnew⟩ | ⟨jx, hfirst, hknown⟩ | hblocked
    · rcases loopLink_ok hloop with ⟨hknown, -⟩ | ⟨-, hid, hgrown, rfl⟩
      · cases hknown.symm.trans hnew
      · rw [hgrown]
        have happends := h.appends_withLoopLink hid p modes
        refine .firstLoopLink hnone happends ?_ ?_
        · rw [happends.outLinks, h.outLinks_nodes_size]
          simp [madeUpLink]
        · rw [happends.inLinks, h.inLinks_nodes_size]
          simp [madeUpLink]
    · rcases loopLink_ok hloop with ⟨hknown', hsame⟩ | ⟨hnew, -⟩
      · rw [hsame]
        obtain rfl := Option.some.inj (hknown.symm.trans hknown')
        exact .knownLoopLink hfirst
      · cases hknown.symm.trans hnew
    · obtain ⟨error, hrefused⟩ := (blocked_iff hblocked.1 p modes).1 hblocked
      cases hok.symm.trans hrefused

/-- **Requests append, or do nothing.** With room for one more node and link, a request that is
refused leaves every part of the network as it was. One that is granted appends a node, a link, or
the node and the loop link of a facility that was not asked for before, and leaves all else as it
was; the loop link of a facility that was asked for before is the one that was given first. -/
theorem after_appends {start : Network α}
    (hstart : start = empty ∨ ∃ nodes links, ofParts nodes links = .ok start)
    (requests : List (Request α)) (hnodes : (start.after requests).nodes.size < capacity)
    (hlinks : (start.after requests).links.size < capacity) (request : Request α) :
    (∀ error, (start.after requests).answer request = .error error →
        (start.after requests).afterRequest request = start.after requests) ∧
      ∀ ix, (start.after requests).answer request = .ok ix →
        Granted start requests request ix ((start.after requests).afterRequest request) := by
  refine ⟨fun error => afterRequest_of_error hnodes hlinks, fun ix hok => ?_⟩
  obtain ⟨hreach, hnew⟩ :
      start.Reachable ∧ ∀ facility, start.existingLoopLink? facility = none := by
    rcases hstart with rfl | ⟨nodes, links, hparts⟩
    · exact ⟨.empty, fun facility => by simp [Network.existingLoopLink?, Network.empty]⟩
    · exact ⟨.ofParts hparts, existingLoopLink?_ofParts hparts⟩
  exact granted_of_ok (hreach.after requests).consistent hnew hok

/-- A second request for the loop link of the facility, from elsewhere and for another mode. -/
def loopRequestAgain : Request Double := .loopLink "s" ⟨0, 0⟩ (.ofList ["tram"])

/-- After the loop link of a facility was made up as link `4`, a link that wants its name is refused
and changes nothing, and a second request for the loop link gives it once more. -/
theorem after_appends_triangle :
    (triangle = empty ∨ ∃ nodes links, ofParts nodes links = .ok triangle) ∧
      (triangle.after [loopRequest]).nodes.size < capacity ∧
      (triangle.after [loopRequest]).links.size < capacity ∧
      (triangle.after [loopRequest]).answer namesakeRequest = .error (.duplicateLink "pt_s") ∧
      (triangle.after [loopRequest]).afterRequest namesakeRequest = triangle.after [loopRequest] ∧
      (triangle.after [loopRequest]).answer loopRequestAgain = .ok 4 ∧
      Granted triangle [loopRequest] loopRequestAgain 4
        ((triangle.after [loopRequest]).afterRequest loopRequestAgain) := by
  have hstart : triangle = empty ∨ ∃ nodes links, ofParts nodes links = .ok triangle :=
    .inr ⟨triangleNodes, triangleLinks, ofParts_triangle⟩
  have hnodes : (triangle.after [loopRequest]).nodes.size < capacity := by decide +kernel
  have hlinks : (triangle.after [loopRequest]).links.size < capacity := by decide +kernel
  have hrefused : (triangle.after [loopRequest]).answer namesakeRequest =
      .error (.duplicateLink "pt_s") := rfl
  have hgranted : (triangle.after [loopRequest]).answer loopRequestAgain = .ok 4 := rfl
  exact ⟨hstart, hnodes, hlinks, hrefused,
    (after_appends hstart [loopRequest] hnodes hlinks namesakeRequest).1 _ hrefused, hgranted,
    (after_appends hstart [loopRequest] hnodes hlinks loopRequestAgain).2 4 hgranted⟩

end TransitMatching.Network
