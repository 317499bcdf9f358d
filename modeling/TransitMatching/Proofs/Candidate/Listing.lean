import TransitMatching.Proofs.Candidate.Build
import TransitMatching.Proofs.Candidate.LoopLinks

/-!
# The list that a build leaves for a stop

The list under a key is the one that the last stop with the key was scored with. A
network that grows by loop links changes nothing about the links it had, so the list
of a stop can be read off the network as it is in the end: it holds the links left
for the stop, or the loop link of its facility.

* `PendingStop.listing`: the list of a stop, in the network after the build.
* `Build.Looped`: a network that has grown by loop links for some stops.
* `Build.score_listed`: what scoring leaves under the key of a stop.
* `Settings.build_listed`: **what a build leaves there**, if no manual entry is meant for the
  stop.
-/

namespace TransitMatching

variable {α : Type} [Scalar α]

/-! ## What is read off a link in a network that grows -/

namespace Network

variable {net net' : Network α} {ix : LinkIx}

theorem Extends.linkLine (h : net.Extends net') (hnet : net.Consistent)
    (hix : ix < net.links.size) : net'.linkLine ix = net.linkLine ix := by
  unfold Network.linkLine position
  rw [h.link ix hix, h.node _ (hnet.source_lt ix hix), h.node _ (hnet.target_lt ix hix)]

/-- The distance of a link, from the positions of its ends. -/
theorem linkDistance_eq (net : Network α) (ix : LinkIx) (p : Point α) :
    net.linkDistance ix p =
      if (net.link ix).source ≤ (net.link ix).target then
        p.segmentDistance (net.linkLine ix).1 (net.linkLine ix).2
      else p.segmentDistance (net.linkLine ix).2 (net.linkLine ix).1 := rfl

theorem Extends.linkDistance (h : net.Extends net') (hnet : net.Consistent)
    (hix : ix < net.links.size) (p : Point α) : net'.linkDistance ix p = net.linkDistance ix p := by
  rw [linkDistance_eq, linkDistance_eq, h.linkLine hnet hix, h.link ix hix]

end Network

theorem LinkCandidate.make_extends {net net' : Network α} (h : net.Extends net')
    (hnet : net.Consistent) {ix : LinkIx} (hix : ix < net.links.size) (key : String) (p : Point α) :
    make net' ix key p = make net ix key p := by
  unfold make
  rw [h.linkLine hnet hix, h.linkDistance hnet hix, h.link ix hix]

/-! ## Growing by loop links -/

namespace PendingStop

/-- The links that serve the stop, in a network that has its loop link if it needs one. -/
def servedBy (net : Network α) (p : PendingStop α) : List LinkIx :=
  if p.needsLoopLink then (net.existingLoopLink? p.facilityId).toList else p.set.links

/-- The loop link of the stop is there, if it needs one. -/
def Supplied (net : Network α) (p : PendingStop α) : Prop :=
  p.needsLoopLink = true → ∃ ix, net.existingLoopLink? p.facilityId = some ix

end PendingStop

namespace Build

variable {net net' net'' : Network α} {p : PendingStop α}

/-- A network that has grown by loop links of the facilities of some stops, and by nothing else. -/
structure Looped (net : Network α) (stops : List (PendingStop α)) (net' : Network α) : Prop where
  reachable : net'.Reachable
  kept : net.Extends net'
  registered : ∀ facility ix, net.existingLoopLink? facility = some ix →
    net'.existingLoopLink? facility = some ix
  /-- A loop link that was made up lies where one of the stops at its facility does. -/
  made : ∀ facility ix, net.existingLoopLink? facility = none →
    net'.existingLoopLink? facility = some ix →
      ∃ p ∈ stops, p.facilityId = facility ∧ net'.linkLine ix = (p.position, p.position)

theorem Looped.refl (h : net.Reachable) : Looped net [] net :=
  ⟨h, .refl net, fun _ _ hix => hix, fun _ _ hnone hix => by cases hnone.symm.trans hix⟩

theorem Looped.trans {stops stops' : List (PendingStop α)} (h : Looped net stops net')
    (h' : Looped net' stops' net'') : Looped net (stops ++ stops') net'' where
  reachable := h'.reachable
  kept := h.kept.trans h'.kept
  registered facility ix hix := h'.registered _ _ (h.registered _ _ hix)
  made facility ix hnone hix := by
    cases hmid : net'.existingLoopLink? facility with
    | none =>
      obtain ⟨p, hp, hfacility, hline⟩ := h'.made facility ix hmid hix
      exact ⟨p, List.mem_append_right _ hp, hfacility, hline⟩
    | some mid =>
      obtain rfl : mid = ix := Option.some.inj ((h'.registered _ _ hmid).symm.trans hix)
      obtain ⟨p, hp, hfacility, hline⟩ := h.made facility mid hnone hmid
      have hmade := h.reachable.consistent.loopLinks _ _ hmid
      refine ⟨p, List.mem_append_left _ hp, hfacility, ?_⟩
      rw [h'.kept.linkLine h.reachable.consistent hmade.lt, hline]

/-- A stop that is supplied is served by the same links from then on. -/
theorem Looped.supplied {stops : List (PendingStop α)} (h : Looped net stops net')
    (hp : p.Supplied net) : p.Supplied net' ∧ p.servedBy net' = p.servedBy net := by
  cases hneeds : p.needsLoopLink with
  | false =>
    unfold PendingStop.servedBy
    rw [hneeds]
    exact ⟨fun htrue => absurd (hneeds.symm.trans htrue) Bool.false_ne_true, rfl⟩
  | true =>
    obtain ⟨ix, hix⟩ := hp hneeds
    have hix' := h.registered _ _ hix
    refine ⟨fun _ => ⟨ix, hix'⟩, ?_⟩
    unfold PendingStop.servedBy
    rw [hix, hix']

theorem linkLine_withLoopLink (net : Network α) (facility : String) (p : Point α)
    (modes : ModeSet) : (net.withLoopLink facility p modes).linkLine net.links.size = (p, p) := by
  have hlink : (net.withLoopLink facility p modes).link net.links.size =
      Network.madeUpLink facility net.nodes.size modes :=
    (Network.link_withLink (net.withPlace _ p) _ _).trans (if_pos rfl)
  have hnode : (net.withLoopLink facility p modes).node net.nodes.size =
      ⟨Network.loopLinkPrefix ++ facility, p⟩ :=
    (Network.node_withNode net _ _).trans (if_pos rfl)
  unfold Network.linkLine Network.position
  rw [hlink]
  exact congrArg (fun n : Node α => (n.position, n.position)) hnode

/-- A stop that is served has its loop link made up, if it needs one and there is none. -/
theorem looped_servingLinks (hnet : net.Reachable) {links : List LinkIx} {events : List Event}
    (h : servingLinks net p = .ok (net', links, events)) :
    Looped net [p] net' ∧ p.Supplied net' ∧ links = p.servedBy net' := by
  unfold servingLinks at h
  cases hneeds : p.needsLoopLink with
  | false =>
    rw [hneeds] at h
    cases h
    refine ⟨⟨hnet, .refl net, fun _ _ hix => hix, ?_⟩, fun htrue => ?_, ?_⟩
    · intro facility ix hnone hix
      cases hnone.symm.trans hix
    · exact absurd (hneeds.symm.trans htrue) Bool.false_ne_true
    · unfold PendingStop.servedBy
      rw [hneeds]
      rfl
  | true =>
    rw [hneeds] at h
    obtain ⟨⟨grown, ix⟩, hloop, heq⟩ := map_eq_ok_iff.1 h
    cases heq
    have hix : net'.existingLoopLink? p.facilityId = some ix :=
      Network.existingLoopLink?_loopLink hloop
    refine ⟨⟨hnet.loopLink hloop, Network.extends_loopLink hloop, ?_, ?_⟩, fun _ => ⟨ix, hix⟩, ?_⟩
    · intro facility old hold
      rcases Network.loopLink_ok hloop with ⟨-, rfl⟩ | ⟨hnone, -, rfl, -⟩
      · exact hold
      · -- The facility that the link is made up for had none, so it is another one.
        rw [Network.existingLoopLink?_withLoopLink, if_neg, hold]
        rintro rfl
        cases hnone.symm.trans hold
    · intro facility new hnone hnew
      rcases Network.loopLink_ok hloop with ⟨-, rfl⟩ | ⟨-, -, rfl, -⟩
      · cases hnone.symm.trans hnew
      · rw [Network.existingLoopLink?_withLoopLink] at hnew
        split at hnew
        · next hfacility =>
          obtain rfl := Option.some.inj hnew
          exact ⟨p, List.mem_singleton_self p, hfacility, linkLine_withLoopLink net _ _ _⟩
        · cases hnone.symm.trans hnew
    · unfold PendingStop.servedBy
      rw [hneeds, hix]
      rfl

end Build

/-! ## Scoring -/

variable [DecimalText α]

/-- The list of the stop, in the network that scoring leaves. -/
def PendingStop.listing (net : Network α) (p : PendingStop α) : LinkCandidates α :=
  Build.candidates net p (p.servedBy net)

namespace Build

variable {net net' : Network α} {p : PendingStop α}

theorem candidates_extends (h : net.Extends net') (hnet : net.Consistent) {links : List LinkIx}
    (hlt : ∀ ix ∈ links, ix < net.links.size) :
    candidates net' p links = candidates net p links := by
  have hmake : ∀ ix ∈ links, LinkCandidate.ofOccurrence net' ix p.occurrence p.position =
      LinkCandidate.ofOccurrence net ix p.occurrence p.position := fun ix hix =>
    LinkCandidate.make_extends h hnet (hlt ix hix) _ _
  unfold candidates
  rw [List.map_congr_left hmake]

/-- A candidate is one of the links with a score. -/
theorem exists_of_mem_candidates {links : List LinkIx} {c : LinkCandidate α}
    (hc : c ∈ (candidates net p links).toList) : ∃ ix ∈ links, ∃ priority,
      c = (LinkCandidate.ofOccurrence net ix p.occurrence p.position).withPriority priority := by
  obtain ⟨q, hq⟩ := LinkCandidate.exists_assignPriorities_eq
    (links.map fun ix => LinkCandidate.ofOccurrence net ix p.occurrence p.position)
  have hmem := mem_sortBy.1 hc
  rw [hq, List.map_map] at hmem
  obtain ⟨ix, hix, rfl⟩ := List.mem_map.1 hmem
  exact ⟨ix, hix, _, rfl⟩

omit [DecimalText α] in
/-- The links that serve a stop that is supplied belong to the network. -/
theorem lt_of_mem_servedBy (hnet : net.Consistent) (hset : ∀ ix ∈ p.set.links, ix < net.links.size) :
    ∀ ix ∈ p.servedBy net, ix < net.links.size := by
  intro ix hix
  unfold PendingStop.servedBy at hix
  split at hix
  · exact (hnet.loopLinks _ _ (Option.mem_toList.1 hix)).lt
  · exact hset ix hix

/-- What is listed for a stop that is supplied stays when the network grows by loop links. -/
theorem Looped.listing {stops : List (PendingStop α)} (h : Looped net stops net')
    (hnet : net.Consistent) (hset : ∀ ix ∈ p.set.links, ix < net.links.size)
    (hp : p.Supplied net) : p.listing net' = p.listing net := by
  unfold PendingStop.listing
  rw [(h.supplied hp).2, candidates_extends h.kept hnet (lt_of_mem_servedBy hnet hset)]

/-- Scoring that comes to its end has served the first stop, and then scored the rest. -/
theorem score_cons_ok {b b' : Build α} {rest : List (PendingStop α)}
    (h : b.score (p :: rest) = (b', none)) :
    ∃ next : Build α, next.score rest = (b', none) ∧ ∃ links events,
      servingLinks b.network p = .ok (next.network, links, events) ∧
        next.store = b.store.insert p.occurrence.key (candidates next.network p links) := by
  unfold score at h
  dsimp only at h
  split at h
  · cases h
  · next net links events hlinks => exact ⟨_, h, links, events, hlinks, rfl⟩

theorem score_append_ok {b b' : Build α} {front rest : List (PendingStop α)}
    (h : b.score (front ++ rest) = (b', none)) :
    ∃ mid : Build α, b.score front = (mid, none) ∧ mid.score rest = (b', none) := by
  induction front generalizing b with
  | nil => exact ⟨b, rfl, h⟩
  | cons p front ih =>
    rw [List.cons_append, score] at h
    rw [score]
    dsimp only at h ⊢
    split at h
    · cases h
    · exact ih h

/-- What scoring some stops does to the network, and that they are supplied after it. -/
theorem score_looped {pending : List (PendingStop α)} {b b' : Build α} (hnet : b.network.Reachable)
    (h : b.score pending = (b', none)) :
    Looped b.network pending b'.network ∧ ∀ p ∈ pending, p.Supplied b'.network := by
  induction pending generalizing b with
  | nil =>
    cases h
    exact ⟨.refl hnet, fun p hp => absurd hp List.not_mem_nil⟩
  | cons p rest ih =>
    obtain ⟨next, hrest, links, events, hlinks, -⟩ := score_cons_ok h
    obtain ⟨hlooped, hsupplied, -⟩ := looped_servingLinks hnet hlinks
    obtain ⟨hlooped', hsupplied'⟩ := ih hlooped.reachable hrest
    exact ⟨hlooped.trans hlooped', List.forall_mem_cons.2 ⟨(hlooped'.supplied hsupplied).1, hsupplied'⟩⟩

/-- Scoring leaves what is under the keys of other stops. -/
theorem score_store_of_ne {pending : List (PendingStop α)} {b b' : Build α}
    (h : b.score pending = (b', none)) {key : String}
    (hkey : ∀ p ∈ pending, p.occurrence.key ≠ key) : b'.store[key]? = b.store[key]? := by
  induction pending generalizing b with
  | nil =>
    cases h
    rfl
  | cons p rest ih =>
    obtain ⟨hp, hrest⟩ := List.forall_mem_cons.1 hkey
    obtain ⟨next, hnext, links, events, -, hstore⟩ := score_cons_ok h
    rw [ih hnext hrest, hstore, Std.TreeMap.getElem?_insert, if_neg]
    exact fun heq => hp (Std.LawfulEqCmp.eq_of_compare heq)

/-- **Scoring leaves a stop with its list**, unless a later one has its key. -/
theorem score_listed {front back : List (PendingStop α)} {b b' : Build α}
    (hnet : b.network.Reachable) (hset : ∀ ix ∈ p.set.links, ix < b.network.links.size)
    (h : b.score (front ++ p :: back) = (b', none))
    (hback : ∀ q ∈ back, q.occurrence.key ≠ p.occurrence.key) :
    b'.store[p.occurrence.key]? = some (p.listing b'.network) := by
  obtain ⟨mid, hfront, h⟩ := score_append_ok h
  obtain ⟨next, hrest, links, events, hlinks, hstore⟩ := score_cons_ok h
  have hmid := (score_looped hnet hfront).1
  obtain ⟨hlooped, hsupplied, rfl⟩ := looped_servingLinks hmid.reachable hlinks
  have hlater := (score_looped hlooped.reachable hrest).1
  have hset' : ∀ ix ∈ p.set.links, ix < next.network.links.size := fun ix hix =>
    Nat.lt_of_lt_of_le (hset ix hix) (hmid.kept.trans hlooped.kept).links_size
  rw [score_store_of_ne hrest hback, hstore, Std.TreeMap.getElem?_insert_self,
    hlater.listing hlooped.reachable.consistent hset' hsupplied]
  rfl

end Build

/-! ## Manual entries -/

/-- An entry that is not meant for the stops with a key leaves their list. -/
theorem ManualLinks.apply_of_not_meant {net : Network α} {pending : List (PendingStop α)}
    {store : CandidateStore α} {m : ManualLinks} {key : String}
    (h : ∀ q ∈ pending, q.occurrence.key = key → m.appliesTo q.occurrence.facility.id q.mode = false) :
    (m.apply net pending store)[key]? = store[key]? := by
  unfold apply
  refine List.foldlRecOn (m.served pending) (m.applyTo net)
    (motive := fun changed => changed[key]? = store[key]?) rfl ?_
  intro changed hchanged q hq
  obtain ⟨hq, hserved⟩ := List.mem_filter.1 hq
  unfold applyTo
  dsimp only
  split
  · exact hchanged
  · rw [Std.TreeMap.getElem?_insert, if_neg, hchanged]
    intro heq
    cases (h q hq (Std.LawfulEqCmp.eq_of_compare heq)).symm.trans hserved

namespace Settings

variable {s : Settings α} {net grown : Network α} {schedule : Schedule α}
  {pending : List (PendingStop α)} {store : CandidateStore α}

theorem applyManual_of_not_meant {key : String} (h : ∀ m ∈ s.manual, ∀ q ∈ pending,
    q.occurrence.key = key → m.appliesTo q.occurrence.facility.id q.mode = false) :
    (s.applyManual net pending store)[key]? = store[key]? := by
  unfold applyManual
  refine List.foldlRecOn s.manual _ (motive := fun changed => changed[key]? = store[key]?) rfl ?_
  intro changed hchanged m hm
  exact (ManualLinks.apply_of_not_meant (h m hm)).trans hchanged

/-! ## The whole run -/

/-- The store that a build gives, with the stops it was made for and the network after it. -/
structure Listed (s : Settings α) (net : Network α) (schedule : Schedule α)
    (pending : List (PendingStop α)) (grown : Network α) (store : CandidateStore α) : Prop where
  refined : s.refineRoutes net schedule.routes = .ok pending
  looped : Build.Looped net pending grown
  supplied : ∀ p ∈ pending, p.Supplied grown
  /-- Each stop has its list, unless a later one has its key or a manual entry is meant for it. -/
  list : ∀ front p back, pending = front ++ p :: back →
    (∀ q ∈ back, q.occurrence.key ≠ p.occurrence.key) →
    (∀ m ∈ s.manual, ∀ q ∈ pending, q.occurrence.key = p.occurrence.key →
      m.appliesTo q.occurrence.facility.id q.mode = false) →
    store[p.occurrence.key]? = some (p.listing grown)

/-- **A build leaves each stop with its list**, as far as no later stop has its key and no manual
entry is meant for it. -/
theorem build_listed (hnet : net.Reachable) {diagnostics : Diagnostics}
    {workers : s.Refinement net schedule.routes}
    (h : (s.build net schedule diagnostics workers).outcome = .ok store) :
    ∃ pending,
      s.Listed net schedule pending (s.build net schedule diagnostics workers).network store := by
  obtain ⟨pending, b, hrefine, hscore, hgrown, rfl⟩ := build_ok h
  have hset := lt_of_mem_refineRoutes hnet.consistent hrefine
  obtain ⟨hlooped, hsupplied⟩ := Build.score_looped hnet hscore
  rw [hgrown]
  refine ⟨pending, hrefine, hlooped, hsupplied, ?_⟩
  rintro front p back rfl hback hmanual
  rw [applyManual_of_not_meant hmanual]
  exact Build.score_listed hnet (hset p (by simp)) hscore hback

omit [DecimalText α] in
/-- Every occurrence of a route comes out of refinement. -/
theorem exists_mem_refineRoutes {routes : List (Line α × Route α)}
    (h : s.refineRoutes net routes = .ok pending) {line : Line α} {route : Route α}
    (hroute : (line, route) ∈ routes) {o : Occurrence α} (ho : o ∈ route.occurrences line.id) :
    ∃ p ∈ pending, s.Refines net route.mode o p := by
  obtain ⟨parts, hparts, rfl⟩ := refineRoutes_eq_ok_iff.1 h
  obtain ⟨part, hpart, hrefine⟩ := exists_of_forall₂_right hparts.flip hroute
  obtain ⟨p, hp, hrefines⟩ := exists_of_forall₂_right (refineRoute_ok hrefine).flip ho
  exact ⟨p, List.mem_flatten_of_mem hpart hp, hrefines⟩

/-- Where all keys differ, an occurrence has the list of its stop. -/
theorem Listed.of_nodup (h : s.Listed net schedule pending grown store)
    (hkeys : (schedule.occurrences.map Occurrence.key).Nodup) {p : PendingStop α} (hp : p ∈ pending)
    (hmanual : ∀ m ∈ s.manual, m.appliesTo p.occurrence.facility.id p.mode = false) :
    store[p.occurrence.key]? = some (p.listing grown) := by
  have hoccurrences : pending.map PendingStop.occurrence = schedule.occurrences :=
    map_occurrence_refineRoutes h.refined
  rw [← hoccurrences, List.map_map] at hkeys
  obtain ⟨front, back, rfl⟩ := List.append_of_mem hp
  refine h.list front p back rfl ?_ ?_
  · rw [List.map_append, List.map_cons] at hkeys
    have hp := (List.nodup_cons.1 (List.nodup_append.1 hkeys).2.1).1
    intro q hq heq
    exact hp (List.mem_map.2 ⟨q, hq, heq⟩)
  · intro m hm q hq heq
    rw [List.inj_on_of_nodup_map hkeys hq hp heq]
    exact hmanual m hm

end Settings

end TransitMatching
