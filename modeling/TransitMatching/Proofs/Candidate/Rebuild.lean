import TransitMatching.Proofs.Candidate.Regained
import TransitMatching.Proofs.Candidate.Uniqueness

/-!
# Building twice

A build leaves loop links in the network, at nodes that lie where stops do and open to the
modes of those stops. A second build finds them like any other link. If it finds the old
links again and is left with the new ones only where they have served before, it repeats the
first: nothing is made up, and the store is the same.

* `PendingStop.KeepsOwn`: a stop with no new link left but its own, and that in place of
  nothing.
* `Settings.Repeats`: a build that gives what the one before gave.
* `Settings.build_again`: **where the old links are found again, a build repeats the one
  before if every stop keeps to its own loop link**, and only then, as far as the store
  tells the stops apart.
-/

namespace TransitMatching

variable {α : Type} [Scalar α]

/-! ## The links that serve a stop again -/

namespace PendingStop

/-- Of the loop links that were made up, a stop is left with its own at most, and that only if it was
left with no link before. -/
def KeepsOwn (net grown : Network α) (p p' : PendingStop α) : Prop :=
  ∀ ix ∈ p'.set.links, net.links.size ≤ ix →
    grown.existingLoopLink? p.facilityId = some ix ∧ p.set.links = []

instance {net grown : Network α} {p p' : PendingStop α} : Decidable (p.KeepsOwn net grown p') :=
  inferInstanceAs (Decidable (∀ ix ∈ _, _ → _ ∧ _))

variable {net grown : Network α} {p p' : PendingStop α}

theorem needsLoopLink_congr (hsettings : p'.settings = p.settings)
    (hlinks : p'.set.links = p.set.links) : p'.needsLoopLink = p.needsLoopLink := by
  rw [Bool.eq_iff_iff, needsLoopLink_iff, needsLoopLink_iff, hsettings, hlinks]

/-- What is left for a stop serves it, unless the stop needs a loop link. -/
theorem mem_servedBy_of_mem {ix : LinkIx} (hneeds : ¬ p.needsLoopLink = true)
    (h : ix ∈ p.set.links) : ix ∈ p.servedBy net := by
  unfold servedBy
  rwa [if_neg hneeds]

/-- A link that serves a stop and was not there to be found is the loop link of the stop. -/
theorem ownLink_of_mem_servedBy {ix : LinkIx} (hset : ∀ jx ∈ p.set.links, jx < net.links.size)
    (h : ix ∈ p.servedBy grown) (hle : net.links.size ≤ ix) :
    p.needsLoopLink = true ∧ grown.existingLoopLink? p.facilityId = some ix := by
  unfold servedBy at h
  split at h
  next hneeds => exact ⟨hneeds, Option.mem_toList.1 h⟩
  next => exact absurd (hset ix h) (Nat.not_lt.2 hle)

/-- A stop that keeps to its own loop link is served by the links that served it before. -/
theorem Regains.servedBy_eq (h : p.Regains net.links.size p') (hnodup : p'.set.links.Nodup)
    (hown : p.KeepsOwn net grown p') (hp : p.Supplied grown) :
    p'.servedBy grown = p.servedBy grown ∧ p'.Supplied grown := by
  obtain ⟨hoccurrence, -, -, hsettings⟩ := h.same
  have hfacility : p'.facilityId = p.facilityId := by rw [facilityId, hoccurrence, facilityId]
  by_cases hnew : ∃ ix ∈ p'.set.links, net.links.size ≤ ix
  · obtain ⟨ix, hix, hle⟩ := hnew
    obtain ⟨hloop, hnil⟩ := hown ix hix hle
    -- The stop was served by its loop link, and now it has found that link and no other.
    have hall : ∀ jx ∈ p'.set.links, jx = ix := by
      intro jx hjx
      by_cases hlt : jx < net.links.size
      · have hmem : jx ∈ p.set.links := by
          rw [← h.set.links]
          exact List.mem_filter.2 ⟨hjx, decide_eq_true hlt⟩
        rw [hnil] at hmem
        exact absurd hmem List.not_mem_nil
      · have hown' := (hown jx hjx (Nat.not_lt.1 hlt)).1
        exact Option.some.inj (hown'.symm.trans hloop)
    have hsingle : p'.set.links = [ix] := by
      refine List.perm_singleton.1 ((List.perm_ext_iff_of_nodup hnodup (List.nodup_singleton ix)).2 ?_)
      intro jx
      rw [List.mem_singleton]
      refine ⟨hall jx, ?_⟩
      rintro rfl
      exact hix
    have hneeds : p.needsLoopLink = true := needsLoopLink_iff.2 (.inr hnil)
    refine ⟨?_, fun _ => ⟨ix, by rw [hfacility, hloop]⟩⟩
    unfold servedBy
    rw [hneeds, hfacility, hloop, hsingle]
    cases p'.needsLoopLink <;> rfl
  · have hold : p'.set.links = p.set.links := by
      rw [← h.set.links, List.filter_eq_self.2]
      intro ix hix
      exact decide_eq_true (Nat.not_le.1 fun hle => hnew ⟨ix, hix, hle⟩)
    have hneeds := needsLoopLink_congr hsettings hold
    refine ⟨?_, ?_⟩
    · unfold servedBy
      rw [hneeds, hfacility, hold]
    · intro hneeds'
      rw [hfacility]
      exact hp (hneeds ▸ hneeds')

end PendingStop

/-! ## Scoring again -/

namespace Build

variable {net net' : Network α} {p : PendingStop α}

theorem growsByLoops_servingLinks {links : List LinkIx} {events : List Event}
    (h : servingLinks net p = .ok (net', links, events)) : net.GrowsByLoops net' := by
  unfold servingLinks at h
  split at h
  · obtain ⟨⟨grown, ix⟩, hloop, heq⟩ := map_eq_ok_iff.1 h
    cases heq
    exact Network.growsByLoops_loopLink hloop
  · cases h
    exact .refl _

variable [DecimalText α]

/-- Scoring makes a network grow by loop links and by nothing else. -/
theorem score_growsByLoops {b b' : Build α} {pending : List (PendingStop α)}
    (h : b.score pending = (b', none)) : b.network.GrowsByLoops b'.network := by
  induction pending generalizing b with
  | nil =>
    cases h
    exact .refl _
  | cons p rest ih =>
    obtain ⟨next, hrest, links, events, hlinks, -⟩ := score_cons_ok h
    exact (growsByLoops_servingLinks hlinks).trans (ih hrest)

/-- A store with the lists of stops put in, one after the other. -/
def fill (net : Network α) (pending : List (PendingStop α)) (store : CandidateStore α) :
    CandidateStore α :=
  pending.foldl (fun store p => store.insert p.occurrence.key (p.listing net)) store

/-- **Scoring puts in the list that each stop has in the end.** -/
theorem score_store {b b' : Build α} {pending : List (PendingStop α)}
    (hnet : b.network.Reachable)
    (hset : ∀ p ∈ pending, ∀ ix ∈ p.set.links, ix < b.network.links.size)
    (h : b.score pending = (b', none)) : b'.store = fill b'.network pending b.store := by
  induction pending generalizing b with
  | nil =>
    cases h
    rfl
  | cons p rest ih =>
    obtain ⟨hp, hrest⟩ := List.forall_mem_cons.1 hset
    obtain ⟨next, hscore, links, events, hlinks, hstore⟩ := score_cons_ok h
    obtain ⟨hlooped, hsupplied, rfl⟩ := looped_servingLinks hnet hlinks
    have hkept : ∀ ix, ix < b.network.links.size → ix < next.network.links.size := fun ix hix =>
      Nat.lt_of_lt_of_le hix hlooped.kept.links_size
    -- What is listed here is listed in the end.
    have hlisting : p.listing b'.network = candidates next.network p (p.servedBy next.network) :=
      (score_looped hlooped.reachable hscore).1.listing hlooped.reachable.consistent
        (fun ix hix => hkept ix (hp ix hix)) hsupplied
    rw [ih hlooped.reachable (fun q hq ix hix => hkept ix (hrest q hq ix hix)) hscore, hstore,
      ← hlisting]
    rfl

omit [DecimalText α] in
theorem not_lacks_of_supplied (h : p.Supplied net) : p.lacksLoopLink net = false := by
  rw [Bool.eq_false_iff]
  intro hlacks
  obtain ⟨hneeds, hnone⟩ := PendingStop.lacksLoopLink_iff.1 hlacks
  obtain ⟨ix, hix⟩ := h hneeds
  cases hix.symm.trans hnone

/-- Scoring stops that have their loop links leaves the network as it is. -/
theorem exists_score_supplied {pending : List (PendingStop α)} (b : Build α)
    (h : ∀ p ∈ pending, p.Supplied b.network) :
    ∃ b' : Build α, b.score pending = (b', none) ∧ b'.network = b.network := by
  induction pending generalizing b with
  | nil => exact ⟨b, rfl, rfl⟩
  | cons p rest ih =>
    obtain ⟨hp, hrest⟩ := List.forall_mem_cons.1 h
    obtain ⟨links, hlinks⟩ := servingLinks_of_not_lacks (not_lacks_of_supplied hp)
    obtain ⟨next, hscore, hnetwork, -⟩ := exists_score_cons b rest hlinks
    obtain ⟨b', hb', hsame⟩ := ih next (hnetwork ▸ hrest)
    exact ⟨b', hscore.trans hb', hsame.trans hnetwork⟩

/-- Stops that are served by the same links fill a store in the same way. -/
theorem fill_regains {n : Nat} {pending pending' : List (PendingStop α)}
    (h : List.Forall₂ (fun p p' => p.Regains n p' ∧ p'.servedBy net = p.servedBy net)
      pending pending') (store : CandidateStore α) :
    fill net pending' store = fill net pending store := by
  unfold fill
  induction h generalizing store with
  | nil => rfl
  | @cons p p' _ _ hp _ ih =>
    obtain ⟨hregains, hserved⟩ := hp
    have hlisting : p'.listing net = p.listing net := by
      unfold PendingStop.listing
      rw [hserved, hregains.frame]
      rfl
    rw [List.foldl_cons, List.foldl_cons, hlisting, hregains.same.1, ih]

end Build

/-! ## Manual entries again -/

variable [DecimalText α]

/-- A manual entry does not look at the links that were found for a stop. -/
theorem ManualLinks.apply_regains {n : Nat} {net : Network α} {pending pending' : List (PendingStop α)}
    (h : List.Forall₂ (PendingStop.Regains n) pending pending') (m : ManualLinks)
    (store : CandidateStore α) : m.apply net pending' store = m.apply net pending store := by
  unfold apply served
  rw [List.foldl_filter, List.foldl_filter]
  induction h generalizing store with
  | nil => rfl
  | cons hp _ ih =>
    rw [List.foldl_cons, List.foldl_cons, ih, hp.frame]
    rfl

namespace Settings

variable {s : Settings α} {net : Network α} {schedule : Schedule α} {store : CandidateStore α}

theorem applyManual_regains {n : Nat} {pending pending' : List (PendingStop α)}
    (h : List.Forall₂ (PendingStop.Regains n) pending pending') (store : CandidateStore α) :
    s.applyManual net pending' store = s.applyManual net pending store := by
  unfold applyManual
  congr 1
  funext store m
  exact m.apply_regains h store

/-! ## The whole run -/

/-- A build on the network that another one left gives what that one gave, and leaves the network as
it is. -/
structure Repeats (s : Settings α) (schedule : Schedule α) (first : BuildResult α)
    (diagnostics : Diagnostics) (workers : s.Refinement first.network schedule.routes) : Prop where
  outcome : (s.build first.network schedule diagnostics workers).outcome = first.outcome
  network : (s.build first.network schedule diagnostics workers).network = first.network

omit [DecimalText α] in
/-- Stops that can be refined on one network can be refined on every other. -/
theorem exists_refineRoutes {routes : List (Line α × Route α)} {pending : List (PendingStop α)}
    (h : s.refineRoutes net routes = .ok pending) (net' : Network α) :
    ∃ pending', s.refineRoutes net' routes = .ok pending' := by
  obtain ⟨parts, hparts, -⟩ := refineRoutes_eq_ok_iff.1 h
  clear h
  induction hparts with
  | nil => exact ⟨[], refineRoutes_eq_ok_iff.2 ⟨[], .nil, rfl⟩⟩
  | @cons e _ _ _ hpart _ ih =>
    obtain ⟨others, hothers⟩ := ih
    obtain ⟨parts', hparts', -⟩ := refineRoutes_eq_ok_iff.1 hothers
    have hplaced : ∀ stop ∈ e.2.stops, stop.facility.position.isSome = true := fun stop hstop =>
      placed_of_refineRoute hpart _ (List.mem_map_of_mem hstop)
    obtain ⟨raw, hraw, -⟩ := exists_pend s net' e.1.id hplaced
    obtain ⟨out, -, hpart'⟩ := refineRoute_of_pend hraw
    exact ⟨_, refineRoutes_eq_ok_iff.2 ⟨_, .cons hpart' hparts', rfl⟩⟩

omit [DecimalText α] in
/-- A stop needs a loop link just where it is left with nothing: nothing is searched for where the mode
takes no links that are there. -/
theorem needsLoopLink_iff_of_mem_refineRoutes {pending : List (PendingStop α)} {p : PendingStop α}
    (h : s.refineRoutes net schedule.routes = .ok pending) (hp : p ∈ pending) :
    p.needsLoopLink = true ↔ p.set.links = [] := by
  refine PendingStop.needsLoopLink_iff.trans (or_iff_right_of_imp ?_)
  intro hartificial
  obtain ⟨v, -, hrefines⟩ := exists_of_forall₂_right (refineRoutes_visits h) hp
  obtain ⟨position, set, -, rfl, hnarrows⟩ := hrefines
  have hraw : s.rawSet net (s.modeOrDefault v.1) v.2.facility position = RawSet.empty :=
    if_pos hartificial
  rw [hraw] at hnarrows
  exact List.subset_nil.1 hnarrows.links_subset

omit [DecimalText α] in
/-- Stops that keep to their own loop links are served as before. -/
theorem forall₂_served {grown : Network α} (hgrown : grown.Consistent)
    {pending pending' : List (PendingStop α)}
    (hrefine : s.refineRoutes grown schedule.routes = .ok pending')
    (hregains : List.Forall₂ (PendingStop.Regains net.links.size) pending pending')
    (hown : List.Forall₂ (PendingStop.KeepsOwn net grown) pending pending')
    (hsupplied : ∀ p ∈ pending, p.Supplied grown) :
    List.Forall₂ (fun p p' => p.Regains net.links.size p' ∧ p'.servedBy grown = p.servedBy grown ∧
      p'.Supplied grown) pending pending' := by
  refine List.forall₂_iff_zip.2 ⟨hregains.length_eq, ?_⟩
  intro p p' hpair
  obtain ⟨hp, hp'⟩ := List.of_mem_zip hpair
  have hregain := (List.forall₂_iff_zip.1 hregains).2 hpair
  exact ⟨hregain, hregain.servedBy_eq (nodup_of_mem_refineRoutes hgrown hrefine hp')
    ((List.forall₂_iff_zip.1 hown).2 hpair) (hsupplied p hp)⟩

/-- Where all keys differ and no manual entry interferes, a build that repeats the one before has
left every stop with its own loop link at most. -/
theorem Repeats.forall₂_keepsOwn {first : BuildResult α} {diagnostics : Diagnostics}
    {workers : s.Refinement first.network schedule.routes} {pending pending' : List (PendingStop α)}
    (h : s.Repeats schedule first diagnostics workers)
    (hmanual : s.manual = []) (hkeys : (schedule.occurrences.map Occurrence.key).Nodup)
    (hnet : net.Consistent) (hfirst : first.outcome = .ok store)
    (hlisted : s.Listed net schedule pending first.network store)
    (hrefine : s.refineRoutes first.network schedule.routes = .ok pending')
    (hregains : List.Forall₂ (PendingStop.Regains net.links.size) pending pending') :
    List.Forall₂ (PendingStop.KeepsOwn net first.network) pending pending' := by
  have hunmeant : ∀ p : PendingStop α, ∀ m ∈ s.manual,
      m.appliesTo p.occurrence.facility.id p.mode = false := by
    intro p m hm
    rw [hmanual] at hm
    exact absurd hm List.not_mem_nil
  have hgrown := hlisted.looped.reachable
  obtain ⟨pending'', hlisted'⟩ := build_listed hgrown (h.outcome.trans hfirst)
  obtain rfl : pending' = pending'' := Except.ok.inj (hrefine.symm.trans hlisted'.refined)
  rw [h.network] at hlisted'
  refine List.forall₂_iff_zip.2 ⟨hregains.length_eq, ?_⟩
  intro p p' hpair ix hix hle
  obtain ⟨hp, hp'⟩ := List.of_mem_zip hpair
  obtain ⟨hoccurrence, -⟩ := ((List.forall₂_iff_zip.1 hregains).2 hpair).same
  -- The one list under the key of the stop holds the links of both times.
  have hlist := hlisted.of_nodup hkeys hp (hunmeant p)
  have hlist' := hlisted'.of_nodup hkeys hp' (hunmeant p')
  rw [hoccurrence] at hlist'
  have hsame : p.listing first.network = p'.listing first.network :=
    Option.some.inj (hlist.symm.trans hlist')
  have hserved : (p'.servedBy first.network).Perm (p.servedBy first.network) := by
    refine (p'.links_listing first.network).symm.trans ?_
    rw [← hsame]
    exact p.links_listing first.network
  -- A stop that is left with a link is served by what it is left with, and so is served by it before.
  have hmem : ix ∈ p.servedBy first.network := by
    refine hserved.subset (PendingStop.mem_servedBy_of_mem ?_ hix)
    rw [needsLoopLink_iff_of_mem_refineRoutes hrefine hp']
    exact List.ne_nil_of_mem hix
  obtain ⟨hneeds, hloop⟩ := PendingStop.ownLink_of_mem_servedBy
    (lt_of_mem_refineRoutes hnet hlisted.refined p hp) hmem hle
  exact ⟨hloop, (needsLoopLink_iff_of_mem_refineRoutes hlisted.refined hp).1 hneeds⟩

/-- **After a build the stops can be refined again. Where the old links are found again, another
build repeats it if every stop keeps to its own loop link**, and where all keys differ and nothing
is given by hand, only then. -/
theorem build_again (hnet : net.Reachable) {diagnostics : Diagnostics}
    {workers : s.Refinement net schedule.routes}
    (hbuild : (s.build net schedule diagnostics workers).outcome = .ok store)
    (diagnostics' : Diagnostics) (workers' : s.Refinement
      (s.build net schedule diagnostics workers).network schedule.routes) :
    ∃ pending pending', s.refineRoutes net schedule.routes = .ok pending ∧
      s.refineRoutes (s.build net schedule diagnostics workers).network schedule.routes =
        .ok pending' ∧
      ((∀ v ∈ schedule.visits,
        s.FindsAgain net (s.build net schedule diagnostics workers).network v.1 v.2) →
        (List.Forall₂ (PendingStop.KeepsOwn net (s.build net schedule diagnostics workers).network)
            pending pending' →
          s.Repeats schedule (s.build net schedule diagnostics workers) diagnostics' workers') ∧
        (s.manual = [] → (schedule.occurrences.map Occurrence.key).Nodup →
          s.Repeats schedule (s.build net schedule diagnostics workers) diagnostics' workers' →
            List.Forall₂
              (PendingStop.KeepsOwn net (s.build net schedule diagnostics workers).network)
              pending pending')) := by
  obtain ⟨pending, hlisted⟩ := build_listed hnet hbuild
  obtain ⟨stops, b, hrefine, hscore, hgrown, hstore⟩ := build_ok hbuild
  obtain rfl : pending = stops := Except.ok.inj (hlisted.refined.symm.trans hrefine)
  have hvalid := validate_of_build hbuild
  generalize s.build net schedule diagnostics workers = first at workers' hbuild hlisted hgrown ⊢
  obtain ⟨pending', hrefine'⟩ := exists_refineRoutes hrefine first.network
  refine ⟨pending, pending', hrefine, hrefine', fun hfound => ?_⟩
  have hgrows : net.GrowsByLoops first.network := hgrown ▸ Build.score_growsByLoops hscore
  have hreach := hlisted.looped.reachable
  have hfoundAgain : ∀ line route, (line, route) ∈ schedule.routes →
      ∀ o ∈ route.occurrences line.id, s.FindsAgain net first.network route.mode o := by
    intro line route hroute o ho
    exact hfound (route.mode, o)
      (List.mem_flatMap.2 ⟨(line, route), hroute, List.mem_map_of_mem ho⟩)
  obtain ⟨again, hagain, hregains⟩ :=
    refineRoutes_regains hgrows hnet.consistent hreach.consistent hfoundAgain hrefine
  obtain rfl : pending' = again := Except.ok.inj (hrefine'.symm.trans hagain)
  refine ⟨fun hown => ?_, fun hmanual hkeys hrepeats => ?_⟩
  · have hserved := forall₂_served hreach.consistent hrefine' hregains hown hlisted.supplied
    have hsupplied : ∀ p' ∈ pending', p'.Supplied first.network := by
      intro p' hp'
      obtain ⟨p, -, -, -, hp'⟩ := exists_of_forall₂_right hserved hp'
      exact hp'
    obtain ⟨b', hscore', hgrown'⟩ :=
      Build.exists_score_supplied ⟨first.network, diagnostics', ∅⟩ hsupplied
    have hfilled := Build.score_store hnet (lt_of_mem_refineRoutes hnet.consistent hrefine) hscore
    have hfilled' :=
      Build.score_store hreach (lt_of_mem_refineRoutes hreach.consistent hrefine') hscore'
    obtain ⟨houtcome, hnetwork⟩ := build_done hvalid hrefine' hscore' diagnostics' workers'
    refine ⟨?_, hnetwork.trans hgrown'⟩
    rw [houtcome, hbuild, hstore, hfilled, hfilled', hgrown', ← hgrown,
      Build.fill_regains (hserved.imp fun _ _ h => ⟨h.1, h.2.1⟩), applyManual_regains hregains]
  · exact hrepeats.forall₂_keepsOwn hmanual hkeys hnet.consistent hbuild hlisted hrefine' hregains

/-! ## Two stops beside a road -/

/-- The ends of a road. -/
def roadNodes : List (Node Double) := [⟨"a", ⟨0, 0⟩⟩, ⟨"b", ⟨60, 0⟩⟩]

/-- The one link of the road. -/
def roadLink : LinkSpec Double :=
  { id := "ab", source := "a", target := "b", modes := .ofList ["car"] }

/-- The network of the road. -/
def road : Network Double := (Network.ofParts roadNodes [roadLink]).toOption.getD .empty

theorem ofParts_road : Network.ofParts roadNodes [roadLink] = .ok road := rfl

/-- A bus route with one stop. -/
def soloRoute (id facility : String) (position : Point Double) : Route Double where
  id
  mode := "bus"
  stops := [{ facility := { id := facility, position := some position } }]

/-- A route that stops within reach of the road, and one that stops out of reach. -/
def roadsideSchedule (outer : Point Double) : Schedule Double :=
  .ofLines [{ id := "line", routes := [soloRoute "in" "t" ⟨0, 80⟩, soloRoute "out" "s" outer] }]

/-- What a build gives for that schedule. -/
def roadsideBuild (outer : Point Double) : BuildResult Double :=
  triangleSettings.build road (roadsideSchedule outer) .empty

/-- Far out, a loop link is found again by the stop that it was made up for and by no other. -/
theorem build_again_far :
    road.Reachable ∧ (∃ store, (roadsideBuild ⟨0, 9000⟩).outcome = .ok store) ∧
      (∀ v ∈ (roadsideSchedule ⟨0, 9000⟩).visits,
        triangleSettings.FindsAgain road (roadsideBuild ⟨0, 9000⟩).network v.1 v.2) ∧
      (roadsideBuild ⟨0, 9000⟩).network.links.size = 2 ∧
      triangleSettings.Repeats (roadsideSchedule ⟨0, 9000⟩) (roadsideBuild ⟨0, 9000⟩) .empty
        (.inOrder _ _ _) := by
  have hdone : (roadsideBuild ⟨0, 9000⟩).outcome.toOption.isSome = true ∧
      (roadsideBuild ⟨0, 9000⟩).network.links.size = 2 := by decide +kernel
  have hfound : ∀ v ∈ (roadsideSchedule ⟨0, 9000⟩).visits,
      triangleSettings.FindsAgain road (roadsideBuild ⟨0, 9000⟩).network v.1 v.2 := by
    decide +kernel
  have hown : ((triangleSettings.refineRoutes road
      (roadsideSchedule ⟨0, 9000⟩).routes).toOption.bind fun pending =>
        (triangleSettings.refineRoutes (roadsideBuild ⟨0, 9000⟩).network
          (roadsideSchedule ⟨0, 9000⟩).routes).toOption.map fun pending' =>
            decide (List.Forall₂ (PendingStop.KeepsOwn road (roadsideBuild ⟨0, 9000⟩).network)
              pending pending')) = some true := by
    decide +kernel
  obtain ⟨store, hstore⟩ := Option.isSome_iff_exists.1 hdone.1
  have hbuild := toOption_eq_some_iff.1 hstore
  have hreach : road.Reachable := .ofParts ofParts_road
  obtain ⟨pending, pending', hrefine, hrefine', hagain⟩ :=
    build_again hreach hbuild .empty (.inOrder _ _ _)
  change triangleSettings.refineRoutes (roadsideBuild ⟨0, 9000⟩).network _ = _ at hrefine'
  rw [hrefine, hrefine'] at hown
  exact ⟨hreach, ⟨store, hbuild⟩, hfound, hdone.2,
    (hagain hfound).1 (of_decide_eq_true (Option.some.inj hown))⟩

/-- Less far out, the loop link is nearer to the other stop than the link that was there, and a second
build lists it first. -/
theorem not_repeats_near :
    road.Reachable ∧ (∃ store, (roadsideBuild ⟨0, 120⟩).outcome = .ok store) ∧
      ¬ triangleSettings.Repeats (roadsideSchedule ⟨0, 120⟩) (roadsideBuild ⟨0, 120⟩) .empty
        (.inOrder _ _ _) := by
  have hfirst : ((roadsideBuild ⟨0, 120⟩).outcome.toOption.map fun store =>
      store.toList.map fun e => (e.1, e.2.links)) =
        some [("line.in.t.-.-", [0]), ("line.out.s.-.-", [1])] := by decide +kernel
  have hagain : ((triangleSettings.build (roadsideBuild ⟨0, 120⟩).network
      (roadsideSchedule ⟨0, 120⟩) .empty).outcome.toOption.map fun store =>
        store.toList.map fun e => (e.1, e.2.links)) =
          some [("line.in.t.-.-", [1, 0]), ("line.out.s.-.-", [1])] := by decide +kernel
  obtain ⟨store, hstore, -⟩ := Option.map_eq_some_iff.1 hfirst
  refine ⟨.ofParts ofParts_road, ⟨store, toOption_eq_some_iff.1 hstore⟩, ?_⟩
  intro hrepeats
  rw [hrepeats.outcome, hfirst] at hagain
  exact absurd hagain (by decide)

end Settings

end TransitMatching
