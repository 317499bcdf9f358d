import TransitMatching.Proofs.Network.Insertions

/-!
# Ids of links

A link that is requested by its id is refused if another link has the id. A loop link
gets its id from its facility, and is refused only if a node has that id. So a loop link
that is made up may take the id of a link, and the look-up gives the loop link from then
on. Nothing else makes ids ambiguous.

* `Identified`: no two links have one id, and each is found by its own.
* `Request.MakesUp`: a request makes up a loop link under an id.
* `Consistent.identified_afterRequest_iff`, `Consistent.linkIx?_afterRequest_iff`: what one request
  keeps.
* `after_identified_iff`: **ids identify links exactly as long as no loop link is made up under
  the id of a link**, and an id goes on to stand for its link exactly if none is made up under it.
-/

namespace TransitMatching.Network

variable {α : Type} [Scalar α] {net : Network α}

/-- Ids identify links: no two links have the same one, and each link is found by its own. -/
structure Identified (net : Network α) : Prop where
  distinct : ∀ ix < net.links.size, ∀ other < net.links.size,
    (net.link ix).id = (net.link other).id → ix = other
  found : ∀ ix < net.links.size, net.linkIx? (net.link ix).id = some ix

/-- A request makes up a loop link under an id: its facility has no loop link, no node has the id,
and there is room for a node and a link. -/
def Request.MakesUp (net : Network α) (id : String) : Request α → Prop
  | .loopLink facility _ _ =>
    id = loopLinkPrefix ++ facility ∧ net.existingLoopLink? facility = none ∧
      net.nodeIx? id = none ∧ net.nodes.size < capacity ∧ net.links.size < capacity
  | .node _ _ => False
  | .link _ => False

/-- Links that are found by their ids have different ids. -/
theorem identified_of_found (h : ∀ ix < net.links.size, net.linkIx? (net.link ix).id = some ix) :
    net.Identified := by
  refine ⟨?_, h⟩
  intro ix hix other hother hsame
  have hfound := h ix hix
  rw [hsame, h other hother] at hfound
  exact (Option.some.inj hfound).symm

/-! ## One insertion -/

/-- A link that is appended leaves ids unambiguous if they were, and its own id was free. -/
theorem Consistent.identified_withLink_iff (h : net.Consistent) (l : Link α) :
    (net.withLink l).Identified ↔ net.Identified ∧ net.linkIx? l.id = none := by
  have hsize : (net.withLink l).links.size = net.links.size + 1 := by simp [Network.withLink]
  have hnew : (net.withLink l).link net.links.size = l := by rw [link_withLink, if_pos rfl]
  have hold : ∀ ix < net.links.size, (net.withLink l).link ix = net.link ix :=
    (net.extends_withLink l).link
  constructor
  · intro hgrown
    have hfree : ∀ ix < net.links.size, l.id ≠ (net.link ix).id := by
      intro ix hix hsame
      have heq := hgrown.distinct ix (by omega) net.links.size (by omega)
        (by rw [hold ix hix, hnew, hsame])
      omega
    refine ⟨identified_of_found fun ix hix => ?_, ?_⟩
    · have hfound := hgrown.found ix (by omega)
      rwa [hold ix hix, linkIx?_withLink, if_neg (hfree ix hix)] at hfound
    · cases htaken : net.linkIx? l.id with
      | none => rfl
      | some ix =>
        obtain ⟨hix, hid⟩ := h.of_linkIx? htaken
        exact absurd hid.symm (hfree ix hix)
  · rintro ⟨hids, hfree⟩
    refine identified_of_found fun ix hix => ?_
    rcases Nat.lt_or_eq_of_le (Nat.le_of_lt_succ (hsize ▸ hix)) with hlt | rfl
    · have hfound := hids.found ix hlt
      rw [hold ix hlt, linkIx?_withLink, if_neg, hfound]
      intro hsame
      rw [hsame, hfound] at hfree
      cases hfree
    · rw [hnew, linkIx?_withLink, if_pos rfl]

/-- A loop link that is made up leaves ids unambiguous if they were, and its own id was free. -/
theorem Consistent.identified_withLoopLink_iff (h : net.Consistent) {facility : String}
    (hnode : net.nodeIx? (loopLinkPrefix ++ facility) = none) (p : Point α) (modes : ModeSet) :
    (net.withLoopLink facility p modes).Identified ↔
      net.Identified ∧ net.linkIx? (loopLinkPrefix ++ facility) = none := by
  have hplace : (net.withPlace (loopLinkPrefix ++ facility) p).Consistent :=
    (h.withNode ⟨_, p⟩ hnode).withIndex _
  have hlink := hplace.identified_withLink_iff (madeUpLink facility net.nodes.size modes)
  -- Neither the node nor its place in the index has to do with links.
  constructor
  · intro hids
    obtain ⟨⟨hdistinct, hfound⟩, hfree⟩ := hlink.1 ⟨hids.distinct, hids.found⟩
    exact ⟨⟨hdistinct, hfound⟩, hfree⟩
  · rintro ⟨⟨hdistinct, hfound⟩, hfree⟩
    obtain ⟨hdistinct, hfound⟩ := hlink.2 ⟨⟨hdistinct, hfound⟩, hfree⟩
    exact ⟨hdistinct, hfound⟩

/-! ## One request -/

/-- The ways in which a request for a loop link can leave a network. -/
theorem afterLoopLink_cases (net : Network α) (facility : String) (p : Point α) (modes : ModeSet) :
    (net.afterLoopLink facility p modes = net.withLoopLink facility p modes ∧
        (Request.loopLink facility p modes).MakesUp net (loopLinkPrefix ++ facility)) ∨
      ((net.afterLoopLink facility p modes = net ∨
          net.afterLoopLink facility p modes = net.withPlace (loopLinkPrefix ++ facility) p) ∧
        ∀ id, ¬ (Request.loopLink facility p modes).MakesUp net id) := by
  unfold afterLoopLink
  rw [loopLink_eq, addNode_eq]
  cases hregistered : net.existingLoopLink? facility with
  | some ix =>
    refine .inr ⟨.inl rfl, ?_⟩
    rintro id ⟨-, hnone, -⟩
    cases hregistered.symm.trans hnone
  | none =>
    cases hnode : net.nodeIx? (loopLinkPrefix ++ facility) with
    | some ix =>
      refine .inr ⟨.inl rfl, ?_⟩
      rintro id ⟨rfl, -, hnone, -⟩
      cases hnode.symm.trans hnone
    | none =>
      by_cases hnodes : capacity ≤ net.nodes.size
      · refine .inr ⟨.inl (by simp [hnodes]), ?_⟩
        rintro id ⟨-, -, -, hroom, -⟩
        exact absurd hnodes (Nat.not_le.2 hroom)
      · by_cases hlinks : capacity ≤ net.links.size
        · refine .inr ⟨.inr (by simp [hnodes, hlinks]), ?_⟩
          rintro id ⟨-, -, -, -, hroom⟩
          exact absurd hlinks (Nat.not_le.2 hroom)
        · refine .inl ⟨by simp [hnodes, hlinks], rfl, hregistered, hnode, ?_, ?_⟩
          · exact Nat.lt_of_not_le hnodes
          · exact Nat.lt_of_not_le hlinks

/-- **A request leaves ids unambiguous** if they were, and it makes up no loop link under the id of a
link. -/
theorem Consistent.identified_afterRequest_iff (h : net.Consistent) (request : Request α) :
    (net.afterRequest request).Identified ↔
      net.Identified ∧ ∀ id, request.MakesUp net id → net.linkIx? id = none := by
  cases request with
  | node id p =>
    have hsame : (net.afterRequest (.node id p)).Identified ↔ net.Identified := by
      dsimp only [afterRequest]
      split
      · next grown ix hadd =>
        obtain ⟨-, rfl, -⟩ := addNode_ok hadd
        exact ⟨fun hids => ⟨hids.distinct, hids.found⟩, fun hids => ⟨hids.distinct, hids.found⟩⟩
      · rfl
    rw [hsame]
    exact ⟨fun hids => ⟨hids, fun _ hmakes => hmakes.elim⟩, And.left⟩
  | link spec =>
    have hsame : (net.afterRequest (.link spec)).Identified ↔ net.Identified := by
      dsimp only [afterRequest]
      split
      · next grown ix hadd =>
        obtain ⟨hfree, source, target, -, -, rfl, -⟩ := addLink_ok hadd
        rw [h.identified_withLink_iff]
        exact and_iff_left hfree
      · rfl
    rw [hsame]
    exact ⟨fun hids => ⟨hids, fun _ hmakes => hmakes.elim⟩, And.left⟩
  | loopLink facility p modes =>
    dsimp only [afterRequest]
    rcases net.afterLoopLink_cases facility p modes with ⟨hafter, hmakes⟩ | ⟨hafter, hnone⟩
    · rw [hafter, h.identified_withLoopLink_iff hmakes.2.2.1]
      refine and_congr_right fun _ => ⟨?_, fun hfree => hfree _ hmakes⟩
      rintro hfree id ⟨rfl, -⟩
      exact hfree
    · have hsame : (net.afterLoopLink facility p modes).Identified ↔ net.Identified := by
        rcases hafter with hafter | hafter
        · rw [hafter]
        · rw [hafter]
          exact ⟨fun hids => ⟨hids.distinct, hids.found⟩, fun hids => ⟨hids.distinct, hids.found⟩⟩
      rw [hsame]
      exact ⟨fun hids => ⟨hids, fun id hmakes => absurd hmakes (hnone id)⟩, And.left⟩

/-- **An id goes on to stand for its link** exactly if no loop link is made up under it. -/
theorem Consistent.linkIx?_afterRequest_iff (h : net.Consistent) (request : Request α) {id : String}
    {ix : LinkIx} (hid : net.linkIx? id = some ix) :
    (net.afterRequest request).linkIx? id = some ix ↔ ¬ request.MakesUp net id := by
  cases request with
  | node id' p =>
    have hsame : (net.afterRequest (.node id' p)).linkIx? id = net.linkIx? id := by
      dsimp only [afterRequest]
      split
      · next grown ix hadd =>
        obtain ⟨-, rfl, -⟩ := addNode_ok hadd
        rfl
      · rfl
    exact ⟨fun _ hmakes => hmakes.elim, fun _ => hsame.trans hid⟩
  | link spec =>
    have hsame : (net.afterRequest (.link spec)).linkIx? id = net.linkIx? id := by
      dsimp only [afterRequest]
      split
      · next grown ix hadd =>
        obtain ⟨hfree, source, target, -, -, rfl, -⟩ := addLink_ok hadd
        rw [linkIx?_withLink, if_neg]
        -- The new link has a free id, and `id` is taken.
        rintro rfl
        cases hid.symm.trans hfree
      · rfl
    exact ⟨fun _ hmakes => hmakes.elim, fun _ => hsame.trans hid⟩
  | loopLink facility p modes =>
    dsimp only [afterRequest]
    rcases net.afterLoopLink_cases facility p modes with ⟨hafter, hmakes⟩ | ⟨hafter, hnone⟩
    · have hlookup : (net.withLoopLink facility p modes).linkIx? id =
          if loopLinkPrefix ++ facility = id then some net.links.size else net.linkIx? id :=
        linkIx?_withLink (net.withPlace _ p) (madeUpLink facility net.nodes.size modes) id
      rw [hafter, hlookup]
      by_cases hname : loopLinkPrefix ++ facility = id
      · subst hname
        have hlt := (h.of_linkIx? hid).1
        rw [if_pos rfl]
        refine ⟨fun heq => ?_, fun hnot => absurd hmakes hnot⟩
        obtain rfl := Option.some.inj heq
        exact absurd hlt (Nat.lt_irrefl _)
      · rw [if_neg hname]
        exact ⟨fun _ hmakes' => hname hmakes'.1.symm, fun _ => hid⟩
    · have hsame : (net.afterLoopLink facility p modes).linkIx? id = net.linkIx? id := by
        rcases hafter with hafter | hafter
        · rw [hafter]
        · rw [hafter]
          rfl
      exact ⟨fun _ => hnone id, fun _ => hsame.trans hid⟩

/-! ## Any requests -/

/-- No request makes up a loop link under an id that a link has by then. -/
def NoneTaken (net : Network α) (requests : List (Request α)) : Prop :=
  ∀ before request rest, requests = before ++ request :: rest →
    ∀ id, request.MakesUp (net.after before) id → (net.after before).linkIx? id = none

theorem noneTaken_cons_iff (net : Network α) (request : Request α) (requests : List (Request α)) :
    net.NoneTaken (request :: requests) ↔
      (∀ id, request.MakesUp net id → net.linkIx? id = none) ∧
        (net.afterRequest request).NoneTaken requests :=
  forall_turn_cons_iff (fun net request => ∀ id, request.MakesUp net id → net.linkIx? id = none)
    net request requests

/-- From a network on in which ids identify links, they do so as long as none is taken. -/
theorem Identified.after_iff (hids : net.Identified) (h : net.Reachable)
    (requests : List (Request α)) : (net.after requests).Identified ↔ net.NoneTaken requests := by
  -- Ambiguity stays, so the step is proved with an arbitrary start.
  have hrun : ∀ (requests : List (Request α)) {net : Network α}, net.Reachable →
      ((net.after requests).Identified ↔ net.Identified ∧ net.NoneTaken requests) := by
    intro requests
    induction requests with
    | nil =>
      intro net _
      refine ⟨fun hids => ⟨hids, ?_⟩, And.left⟩
      intro before request rest heq
      exact absurd heq.symm (List.append_ne_nil_of_right_ne_nil _ (List.cons_ne_nil _ _))
    | cons request requests ih =>
      intro net h
      rw [noneTaken_cons_iff, ← and_assoc, ← h.consistent.identified_afterRequest_iff]
      exact ih (h.afterRequest request)
  rw [hrun requests h]
  exact and_iff_right hids

/-- In a network of given parts ids identify links. -/
theorem identified_ofParts {nodes : List (Node α)} {links : List (LinkSpec α)}
    (h : ofParts nodes links = .ok net) : net.Identified := by
  obtain ⟨start, hstart, hnone, hlinks⟩ := exists_of_ofParts h
  have hids : start.Identified := by
    refine identified_of_found ?_
    rw [hnone]
    exact fun ix hix => absurd hix (Nat.not_lt_zero ix)
  refine (foldlM_keeps (P := fun net => net.Consistent ∧ net.Identified) ?_ _ ⟨hstart, hids⟩
    hlinks).2
  rintro net spec net' ⟨hnet, hids⟩ hadd
  obtain ⟨⟨_, ix⟩, hlink, rfl⟩ := map_eq_ok_iff.1 hadd
  obtain ⟨hfree, source, target, -, -, rfl, -⟩ := addLink_ok hlink
  exact ⟨hnet.addLink hlink, (hnet.identified_withLink_iff _).2 ⟨hids, hfree⟩⟩

/-- **Ids identify links exactly as long as no loop link is made up under the id of a link**; and the
link of an id stays the same under a request exactly if none is made up under that id. -/
theorem after_identified_iff {start : Network α}
    (hstart : start = empty ∨ ∃ nodes links, ofParts nodes links = .ok start)
    (requests : List (Request α)) :
    ((start.after requests).Identified ↔ start.NoneTaken requests) ∧
      ∀ request id ix, (start.after requests).linkIx? id = some ix →
        ((start.after (requests ++ [request])).linkIx? id = some ix ↔
          ¬ request.MakesUp (start.after requests) id) := by
  obtain ⟨hreach, hids⟩ : start.Reachable ∧ start.Identified := by
    rcases hstart with rfl | ⟨nodes, links, hparts⟩
    · exact ⟨.empty, identified_of_found fun ix hix => absurd hix (Nat.not_lt_zero ix)⟩
    · exact ⟨.ofParts hparts, identified_ofParts hparts⟩
  refine ⟨hids.after_iff hreach requests, ?_⟩
  intro request id ix hid
  have hlast : start.after (requests ++ [request]) = (start.after requests).afterRequest request :=
    List.foldl_append
  rw [hlast]
  exact (hreach.after requests).consistent.linkIx?_afterRequest_iff request hid

/-- A link that has the name of the loop link of a facility. -/
def namesakeRequest : Request Double := .link { id := "pt_s", source := "a", target := "b" }

/-- A request for the loop link of that facility. -/
def loopRequest : Request Double := .loopLink "s" ⟨20, 5⟩ (.ofList ["bus"])

/-- If the loop link comes first, its namesake is refused, and ids identify links; `pt_s` stands for the
loop link, whatever is requested next. -/
theorem after_identified_iff_triangle :
    (triangle = empty ∨ ∃ nodes links, ofParts nodes links = .ok triangle) ∧
      (triangle.after [loopRequest, namesakeRequest]).links.size = 5 ∧
      (triangle.after [loopRequest, namesakeRequest]).Identified ∧
      triangle.NoneTaken [loopRequest, namesakeRequest] ∧
      (triangle.after [loopRequest, namesakeRequest]).linkIx? "pt_s" = some 4 ∧
      ∀ request, (triangle.after ([loopRequest, namesakeRequest] ++ [request])).linkIx? "pt_s" = some 4 ↔
        ¬ request.MakesUp (triangle.after [loopRequest, namesakeRequest]) "pt_s" := by
  have hstart : triangle = empty ∨ ∃ nodes links, ofParts nodes links = .ok triangle :=
    .inr ⟨triangleNodes, triangleLinks, ofParts_triangle⟩
  have hids : (triangle.after [loopRequest, namesakeRequest]).Identified :=
    identified_of_found (by decide +kernel)
  have hid : (triangle.after [loopRequest, namesakeRequest]).linkIx? "pt_s" = some 4 := by
    decide +kernel
  obtain ⟨hiff, hkept⟩ := after_identified_iff hstart [loopRequest, namesakeRequest]
  exact ⟨hstart, by decide +kernel, hids, hiff.1 hids, hid, fun request => hkept request _ _ hid⟩

/-- If the loop link comes second, there are two links of its id, and the id no longer stands for the
one that had it. -/
theorem linkIx?_namesake :
    (triangle.after [namesakeRequest]).linkIx? "pt_s" = some 4 ∧
      (triangle.after [namesakeRequest, loopRequest]).linkIx? "pt_s" = some 5 ∧
      (triangle.after [namesakeRequest, loopRequest]).links.size = 6 ∧
      ((triangle.after [namesakeRequest, loopRequest]).link 4).id = "pt_s" ∧
      ((triangle.after [namesakeRequest, loopRequest]).link 5).id = "pt_s" ∧
      ¬ (triangle.after [namesakeRequest, loopRequest]).Identified := by
  refine ⟨by decide +kernel, by decide +kernel, by decide +kernel, by decide +kernel,
    by decide +kernel, ?_⟩
  intro hids
  have hfound := hids.found 4 (by decide +kernel)
  revert hfound
  decide +kernel

end TransitMatching.Network
