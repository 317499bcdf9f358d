import TransitMatching.Cost.Model
import TransitMatching.Proofs.Network.LinkIds
import TransitMatching.Proofs.Number.Quotient

/-!
# Links as a search takes them to be

A least-cost search adds up costs that are numbers and not negative. A link has such
costs if its length is a number not below zero and its speed one above zero. Insertion
refuses a speed that is at most zero, which what is no number is not, and looks at no
length, given or measured.

* `Link.Sound`, `Network.Sound`: links as a search takes them to be.
* `LinkSpec.Sane`: what insertion leaves unchecked about a link.
* `Link.Sound.weighs`: the costs of a sound link.
* `after_sound_iff`: **the links of a network are sound exactly as long as every link
  that was let in is sane.**
-/

namespace TransitMatching

/-! ## Sound links -/

section
variable {α : Type} [Scalar α]

/-- A length that is a number not below zero, and a speed that is a number above zero. -/
structure Link.Sound (l : Link α) : Prop where
  length : 0 ≤ l.length
  freespeed : 0 < l.freespeed

instance (l : Link α) : Decidable l.Sound :=
  decidable_of_iff (0 ≤ l.length ∧ 0 < l.freespeed) ⟨fun h => ⟨h.1, h.2⟩, fun h => ⟨h.1, h.2⟩⟩

/-- All links are sound. -/
def Network.Sound (net : Network α) : Prop := ∀ ix < net.links.size, (net.link ix).Sound

instance (net : Network α) : Decidable net.Sound :=
  inferInstanceAs (Decidable (∀ ix < net.links.size, (net.link ix).Sound))

/-- What insertion does not look at: the speed is a number, and the length that is given or else
the straight line between the ends is a number not below zero. -/
structure LinkSpec.Sane (net : Network α) (spec : LinkSpec α) : Prop where
  freespeed : Scalar.IsNumber spec.freespeed
  length : ∀ source target, net.nodeIx? spec.source = some source →
    net.nodeIx? spec.target = some target →
      0 ≤ spec.length.getD ((net.position source).distance (net.position target))

namespace Network

variable {net : Network α}

theorem sound_withLink_iff (net : Network α) (l : Link α) :
    (net.withLink l).Sound ↔ net.Sound ∧ l.Sound := by
  have hsize : (net.withLink l).links.size = net.links.size + 1 := by simp [Network.withLink]
  have hnew : (net.withLink l).link net.links.size = l := by rw [link_withLink, if_pos rfl]
  have hold : ∀ ix < net.links.size, (net.withLink l).link ix = net.link ix :=
    (net.extends_withLink l).link
  constructor
  · intro h
    refine ⟨fun ix hix => ?_, ?_⟩
    · have hsound := h ix (by omega)
      rwa [hold ix hix] at hsound
    · have hsound := h net.links.size (by omega)
      rwa [hnew] at hsound
  · rintro ⟨h, hl⟩ ix hix
    rcases Nat.lt_or_eq_of_le (Nat.le_of_lt_succ (hsize ▸ hix)) with hlt | rfl
    · rw [hold ix hlt]
      exact h ix hlt
    · rwa [hnew]

/-- **A link that is let in leaves the links sound** if they were, and it is sane. -/
theorem sound_addLink_iff (hone : (0 : α) < 1) {grown : Network α} {spec : LinkSpec α} {ix : LinkIx}
    (h : net.addLink spec = .ok (grown, ix)) : grown.Sound ↔ net.Sound ∧ spec.Sane net := by
  have hspeed := not_freespeed_le_of_addLink h
  have hzero : Scalar.IsNumber (0 : α) := (Scalar.number_of_le (Scalar.le_of_lt hone)).1
  obtain ⟨-, source, target, hs, ht, rfl, -⟩ := addLink_ok h
  rw [sound_withLink_iff]
  refine and_congr_right fun _ => ⟨fun hl => ⟨?_, ?_⟩, fun hsane => ⟨?_, ?_⟩⟩
  · exact (Scalar.number_of_le (Scalar.le_of_lt hl.freespeed)).2
  · intro source' target' hs' ht'
    cases hs.symm.trans hs'
    cases ht.symm.trans ht'
    exact hl.length
  · exact hsane.length source target hs ht
  · exact Scalar.lt_of_not_le hsane.freespeed hzero hspeed

/-! ## Requests -/

/-- If a request inserts a link, the link is sane. -/
def Request.Sane (net : Network α) : Request α → Prop
  | .link spec => (∃ grown ix, net.addLink spec = .ok (grown, ix)) → spec.Sane net
  | .node _ _ => True
  | .loopLink _ _ _ => True

/-- Every link that requests insert is sane in the network at its turn. -/
def SaneThroughout (net : Network α) (requests : List (Request α)) : Prop :=
  ∀ before request rest, requests = before ++ request :: rest → request.Sane (net.after before)

/-- A loop link that is made up is sound. -/
theorem sound_madeUpLink (hone : (0 : α) < 1) (facility : String) (node : NodeIx)
    (modes : ModeSet) : (madeUpLink facility node modes : Link α).Sound :=
  ⟨Scalar.le_of_lt hone, hone⟩

/-- **A request leaves the links sound** if they were, and it inserts none that is not sane. -/
theorem sound_afterRequest_iff (hone : (0 : α) < 1) (net : Network α) (request : Request α) :
    (net.afterRequest request).Sound ↔ net.Sound ∧ request.Sane net := by
  cases request with
  | node id p =>
    have hsame : (net.afterRequest (.node id p)).Sound ↔ net.Sound := by
      dsimp only [afterRequest]
      split
      · next grown ix hadd =>
        obtain ⟨-, rfl, -⟩ := addNode_ok hadd
        rfl
      · rfl
    rw [hsame]
    exact (and_iff_left trivial).symm
  | link spec =>
    dsimp only [afterRequest]
    split
    · next grown ix hadd =>
      rw [sound_addLink_iff hone hadd]
      exact and_congr_right fun _ => ⟨fun hsane _ => hsane, fun hsane => hsane ⟨grown, ix, hadd⟩⟩
    · next e hrefused =>
      refine (and_iff_left ?_).symm
      rintro ⟨grown, ix, hadd⟩
      cases hrefused.symm.trans hadd
  | loopLink facility p modes =>
    have hsame : (net.afterLoopLink facility p modes).Sound ↔ net.Sound := by
      rcases net.afterLoopLink_cases facility p modes with ⟨hafter, -⟩ | ⟨hafter | hafter, -⟩
      · rw [hafter]
        have hlink := sound_withLink_iff (net.withPlace (loopLinkPrefix ++ facility) p)
          (madeUpLink facility net.nodes.size modes)
        exact hlink.trans (and_iff_left (sound_madeUpLink hone _ _ _))
      · rw [hafter]
      · rw [hafter]
        rfl
    exact hsame.trans (and_iff_left trivial).symm

/-- Requests leave the links sound if they were, and insert none that is not sane. -/
theorem sound_after_iff (hone : (0 : α) < 1) (net : Network α) (requests : List (Request α)) :
    (net.after requests).Sound ↔ net.Sound ∧ net.SaneThroughout requests := by
  induction requests generalizing net with
  | nil =>
    refine (and_iff_left ?_).symm
    intro before request rest heq
    exact absurd heq.symm (List.append_ne_nil_of_right_ne_nil _ (List.cons_ne_nil _ _))
  | cons request requests ih =>
    have hturns : net.SaneThroughout (request :: requests) ↔
        request.Sane net ∧ (net.afterRequest request).SaneThroughout requests :=
      forall_turn_cons_iff (fun net request => request.Sane net) net request requests
    have hafter : net.after (request :: requests) = (net.afterRequest request).after requests := rfl
    rw [hafter, ih, sound_afterRequest_iff hone, hturns, and_assoc]

/-! ## Given parts -/

/-- Whether a description is sane depends on the nodes only. -/
theorem sane_withLink_iff (net : Network α) (l : Link α) (spec : LinkSpec α) :
    spec.Sane (net.withLink l) ↔ spec.Sane net :=
  ⟨fun h => ⟨h.freespeed, h.length⟩, fun h => ⟨h.freespeed, h.length⟩⟩

/-- Links that are let in one after the other. -/
theorem sound_addLinks_iff (hone : (0 : α) < 1) {grown : Network α} {links : List (LinkSpec α)}
    (h : links.foldlM (fun net spec => Prod.fst <$> net.addLink spec) net = .ok grown) :
    (grown.Sound ↔ net.Sound ∧ ∀ spec ∈ links, spec.Sane grown) ∧
      ∀ spec : LinkSpec α, spec.Sane grown ↔ spec.Sane net := by
  induction links generalizing net with
  | nil =>
    cases h
    exact ⟨(and_iff_left nofun).symm, fun _ => Iff.rfl⟩
  | cons spec links ih =>
    rw [List.foldlM_cons] at h
    obtain ⟨mid, hmid, hrest⟩ := bind_eq_ok_iff.1 h
    obtain ⟨⟨_, ix⟩, hadd, rfl⟩ := map_eq_ok_iff.1 hmid
    obtain ⟨hsound, hsame⟩ := ih hrest
    have hstep := sound_addLink_iff hone hadd
    obtain ⟨-, source, target, -, -, rfl, -⟩ := addLink_ok hadd
    have hsane (spec : LinkSpec α) : spec.Sane grown ↔ spec.Sane net :=
      (hsame spec).trans (net.sane_withLink_iff _ spec)
    refine ⟨?_, hsane⟩
    rw [hsound, hstep, List.forall_mem_cons, hsane spec, and_assoc]

/-- **The links of given parts are sound** if their descriptions are sane. -/
theorem sound_ofParts_iff (hone : (0 : α) < 1) {nodes : List (Node α)} {links : List (LinkSpec α)}
    (h : ofParts nodes links = .ok net) : net.Sound ↔ ∀ spec ∈ links, spec.Sane net := by
  obtain ⟨start, -, hnone, hlinks⟩ := exists_of_ofParts h
  have hstart : start.Sound := by
    intro ix hix
    rw [hnone] at hix
    exact absurd hix (Nat.not_lt_zero ix)
  rw [(sound_addLinks_iff hone hlinks).1]
  exact and_iff_right hstart

end Network

end

/-! ## Costs of sound links -/

/-- A link of infinite length and infinite speed. -/
def Link.Endless (l : Link Double) : Prop :=
  l.length = Scalar.infinity ∧ l.freespeed = Scalar.infinity

/-- The costs of a link are numbers that are not negative. Only its time need not be one, if the
link is endless. -/
structure Link.Weighs (l : Link Double) : Prop where
  travelTime : ¬ l.Endless → 0 ≤ l.travelTime
  baseCost : ∀ m : CostModel Double, m.costType = .length ∨ ¬ l.Endless → 0 ≤ m.baseCost l
  endless : l.Endless → l.travelTime = .undefined

theorem Link.Sound.weighs {l : Link Double} (h : l.Sound) : l.Weighs where
  travelTime hfinite := Double.div_nonneg h.length h.freespeed hfinite
  baseCost m hm := by
    unfold CostModel.baseCost
    split
    · exact h.length
    · next htime =>
      rcases hm with hlength | hfinite
      · cases htime.symm.trans hlength
      · exact Double.div_nonneg h.length h.freespeed hfinite
  endless hendless := by
    unfold Link.travelTime
    rw [hendless.1, hendless.2]
    exact Double.infinity_div_infinity

namespace Network

theorem zero_lt_one_double : (0 : Double) < 1 := by decide +kernel

/-- **The links of a network are sound exactly as long as every link that was let in is sane**, that
is, as far as insertion leaves it open: its speed is a number, and its length, given or measured, is
a number not below zero. No speed is at most zero in any case, and the costs of a sound link are
numbers that are not negative, except for the time of an endless one. -/
theorem after_sound_iff {nodes : List (Node Double)} {links : List (LinkSpec Double)}
    {start : Network Double} (hstart : ofParts nodes links = .ok start)
    (requests : List (Request Double)) :
    ((start.after requests).Sound ↔
        (∀ spec ∈ links, spec.Sane start) ∧ start.SaneThroughout requests) ∧
      ∀ ix < (start.after requests).links.size,
        ¬ ((start.after requests).link ix).freespeed ≤ 0 ∧
          (((start.after requests).link ix).Sound → ((start.after requests).link ix).Weighs) := by
  have hreach : (start.after requests).Reachable := (Reachable.ofParts hstart).after requests
  refine ⟨?_, fun ix hix => ⟨?_, Link.Sound.weighs⟩⟩
  · rw [sound_after_iff zero_lt_one_double, sound_ofParts_iff zero_lt_one_double hstart]
  · exact hreach.forall_link (P := fun l => ¬ l.freespeed ≤ 0) (fun _ _ _ _ hspeed => hspeed)
      (fun _ _ _ => Scalar.not_le_of_lt zero_lt_one_double) ix hix

/-- A link that is longer than the straight line between its ends. -/
def detourRequest : Request Double := .link { id := "x", source := "a", target := "b", length := some 70 }

/-- A link whose speed is no number. -/
def unclockedRequest : Request Double :=
  .link { id := "x", source := "a", target := "b", freespeed := .of (0 / 0) }

/-- A link whose length is negative. -/
def backwardRequest : Request Double :=
  .link { id := "y", source := "a", target := "b", length := some (.of (-5)) }

/-- A detour and a loop link leave the links of the triangle sound. -/
theorem after_sound_iff_triangle :
    ofParts triangleNodes triangleLinks = .ok triangle ∧
      (triangle.after [detourRequest, loopRequest]).links.size = 6 ∧
      (triangle.after [detourRequest, loopRequest]).Sound ∧
      (∀ spec ∈ triangleLinks, spec.Sane triangle) ∧
      triangle.SaneThroughout [detourRequest, loopRequest] ∧
      ((triangle.after [detourRequest, loopRequest]).link 4).Weighs := by
  have hsize : (triangle.after [detourRequest, loopRequest]).links.size = 6 := by decide +kernel
  have hsound : (triangle.after [detourRequest, loopRequest]).Sound := by decide +kernel
  obtain ⟨hiff, hlinks⟩ := after_sound_iff ofParts_triangle [detourRequest, loopRequest]
  obtain ⟨hgiven, hrequests⟩ := hiff.1 hsound
  have hdetour : 4 < (triangle.after [detourRequest, loopRequest]).links.size := by
    rw [hsize]
    decide
  exact ⟨ofParts_triangle, hsize, hsound, hgiven, hrequests,
    (hlinks 4 hdetour).2 (hsound 4 hdetour)⟩

/-- A speed that is no number is let in, and the time of its link is none either; so is a negative
length, and with it a negative cost. -/
theorem not_sound_unclocked :
    (triangle.after [unclockedRequest, backwardRequest]).links.size = 6 ∧
      ¬ (triangle.after [unclockedRequest, backwardRequest]).Sound ∧
      ((triangle.after [unclockedRequest, backwardRequest]).link 4).travelTime.isNaN = true ∧
      ({ costType := .length } : CostModel Double).baseCost
        ((triangle.after [unclockedRequest, backwardRequest]).link 5) < 0 := by
  decide +kernel

end Network

end TransitMatching
