import Mathlib.Data.List.Chain
import TransitMatching.Candidate.Workers
import TransitMatching.Proofs.Candidate.Reduction
import TransitMatching.Proofs.Network.Nearby

/-!
# What is left of the links found for a route

Refinement finds a set of links for every stop, separates neighbours and reduces
each set. It fails only for want of a position: sets that are found in one network
agree on where a link starts, so separation meets no mismatch (`rawSet_drawn`).

* `refineRoute_of_pend`: refinement taken apart into its three phases.
* `refineRoute_ok`: every stop keeps its place, and some of its links.
* `refineRoute_refined`: **what is left are sublists of what was found, apart from
  one another, and of every chain that was found at some stop a link is left.**
* `map_occurrence_refineRoutes`, `lt_of_mem_refineRoutes`: the stops of all routes.
* `Settings.Refinement.outcome_eq`: what the workers give does not depend on their ways, where
  no route fails.
-/

namespace TransitMatching

variable {α : Type} [Scalar α]

/-- The stop with other links. -/
def PendingStop.withSet (p : PendingStop α) (set : RawSet α) : PendingStop α := { p with set }

/-- What the sets of the stops of a route are after refinement. -/
structure Refined (net : Network α) (raw left : List (RawSet α)) : Prop where
  /-- A set holds some of the entries found, in their order, or all of them if it is
  pre-assigned. -/
  narrows : List.Forall₂ RawSet.Narrows raw left
  single : ∀ r ∈ raw, r.preassigned = true → ∃ e, r.entries = [e]
  apart : left.IsChain RawSet.Apart
  kept : ∀ r ∈ raw, ∀ ix ∈ r.links, ∃ t ∈ left, ∃ kept ∈ t.links, kept ∈ net.chain ix

namespace Settings

variable {s : Settings α} {net : Network α} {m : ModeSettings α} {facility : Facility α}
  {position : Point α}

/-! ## The links found for a stop -/

/-- A stop has no links without a search, the link that its facility names, or those of a
search. -/
theorem rawSet_cases (s : Settings α) (net : Network α) (m : ModeSettings α)
    (facility : Facility α) (position : Point α) :
    s.rawSet net m facility position = RawSet.empty ∨
      (∃ id ix, facility.linkRef = some id ∧ net.linkIx? id = some ix ∧
        s.rawSet net m facility position = RawSet.ofLink net ix position) ∨
      s.rawSet net m facility position = RawSet.searched net
        (net.boundedLinks position (m.bounds s.searchRadius) (some m.networkModes)) := by
  unfold rawSet
  split
  · exact .inl rfl
  · split
    · next ix href =>
      obtain ⟨id, hid, hix⟩ := Option.bind_eq_some_iff.1 href
      exact .inr (.inl ⟨id, ix, hid, hix, rfl⟩)
    · exact .inr (.inr rfl)

/-- Links are found with their sources, and none twice. -/
theorem rawSet_drawn : RawSet.Drawn net (s.rawSet net m facility position) := by
  rcases s.rawSet_cases net m facility position with h | ⟨_, ix, -, -, h⟩ | h
  · rw [h]
    exact ⟨fun e he => absurd he List.not_mem_nil, List.Pairwise.nil⟩
  · rw [h]
    refine ⟨fun e he => ?_, List.pairwise_singleton _ _⟩
    rw [List.mem_singleton.1 he]
  · rw [h]
    refine ⟨fun e he => ?_, ?_⟩
    · obtain ⟨hit, -, rfl⟩ := List.mem_map.1 he
      rfl
    · have hlinks : ∀ hits : List (LinkIx × α),
          (RawSet.searched net hits).links = hits.map Prod.fst := by
        intro hits
        simp [RawSet.searched, RawSet.links]
      rw [hlinks]
      exact Network.boundedLinks_nodup

theorem rawSet_single (hpre : (s.rawSet net m facility position).preassigned = true) :
    ∃ e, (s.rawSet net m facility position).entries = [e] := by
  rcases s.rawSet_cases net m facility position with h | ⟨_, ix, -, -, h⟩ | h
  · rw [h] at hpre
    cases hpre
  · rw [h]
    exact ⟨_, rfl⟩
  · rw [h] at hpre
    cases hpre

theorem rawSet_lt (hnet : net.Consistent) {ix : LinkIx}
    (hix : ix ∈ (s.rawSet net m facility position).links) : ix < net.links.size := by
  rcases s.rawSet_cases net m facility position with h | ⟨id, ix', -, hid, h⟩ | h
  · rw [h] at hix
    exact absurd hix List.not_mem_nil
  · rw [h] at hix
    obtain rfl := List.mem_singleton.1 hix
    exact (hnet.of_linkIx? hid).1
  · rw [h] at hix
    obtain ⟨e, he, rfl⟩ := RawSet.mem_links.1 hix
    obtain ⟨⟨ix, d⟩, hhit, rfl⟩ := List.mem_map.1 he
    exact hnet.lt_of_mem_linksAround (Network.mem_boundedLinks hhit).1

/-- An occurrence at a position with the links found for it. -/
def pendingAt (s : Settings α) (net : Network α) (mode : Mode) (o : Occurrence α)
    (position : Point α) : PendingStop α where
  occurrence := o
  position
  mode
  settings := s.modeOrDefault mode
  set := s.rawSet net (s.modeOrDefault mode) o.facility position

theorem pend_eq_ok_iff {mode : Mode} {o : Occurrence α} {p : PendingStop α} :
    s.pend net mode o = .ok p ↔
      ∃ position, o.position = some position ∧ s.pendingAt net mode o position = p := by
  unfold pend
  cases o.position with
  | none => simp
  | some position => simp [pendingAt]

/-! ## The three phases -/

/-- What holds of all sets that are found holds of those of a route. -/
theorem forall_mem_pend {P : RawSet α → Prop} {mode : Mode} {os : List (Occurrence α)}
    {raw : List (PendingStop α)} (h : os.mapM (s.pend net mode) = .ok raw)
    (hP : ∀ facility position, P (s.rawSet net (s.modeOrDefault mode) facility position)) :
    ∀ set ∈ raw.map PendingStop.set, P set := by
  intro set hset
  obtain ⟨p, hp, rfl⟩ := List.mem_map.1 hset
  obtain ⟨o, -, hpend⟩ := exists_of_forall₂_right (mapM_eq_ok_iff.1 h) hp
  obtain ⟨position, -, rfl⟩ := pend_eq_ok_iff.1 hpend
  exact hP _ _

/-- Refining the stops of a route does not fail once their links are found. -/
theorem refineRoute_of_pend {line : String} {route : Route α} {raw : List (PendingStop α)}
    (h : (route.occurrences line).mapM (s.pend net route.mode) = .ok raw) :
    ∃ out, RawSet.RunSeparated (raw.map PendingStop.set) out ∧
      s.refineRoute net line route =
        .ok (raw.zipWith (fun p set => p.withSet (set.reduce net)) out) := by
  have hdrawn : ∀ set ∈ raw.map PendingStop.set, RawSet.Drawn net set :=
    forall_mem_pend h fun _ _ => rawSet_drawn
  obtain ⟨out, hout, hrun⟩ := RawSet.separateRun_separated _ hdrawn
  refine ⟨out, hrun, ?_⟩
  unfold refineRoute
  rw [h]
  exact map_eq_ok_iff.2 ⟨out, hout, rfl⟩

/-- A stop that went through refinement: the occurrence it was found for, with some of the links
found. -/
def Refines (s : Settings α) (net : Network α) (mode : Mode) (o : Occurrence α)
    (p : PendingStop α) : Prop :=
  ∃ position set, o.position = some position ∧ p = (s.pendingAt net mode o position).withSet set ∧
    RawSet.Narrows (s.rawSet net (s.modeOrDefault mode) o.facility position) set

theorem refines_zipWith {mode : Mode} {os : List (Occurrence α)} {raw : List (PendingStop α)}
    {out : List (RawSet α)}
    (hpend : List.Forall₂ (fun o p => s.pend net mode o = .ok p) os raw)
    (hnarrows : List.Forall₂ (fun p set => RawSet.Narrows p.set set) raw out) :
    List.Forall₂ (s.Refines net mode) os
      (raw.zipWith (fun p set => p.withSet (set.reduce net)) out) := by
  induction hpend generalizing out with
  | nil => exact .nil
  | cons hp _ ih =>
    obtain ⟨set, sets, hset, hsets, rfl⟩ := List.forall₂_cons_left_iff.1 hnarrows
    obtain ⟨position, hposition, rfl⟩ := pend_eq_ok_iff.1 hp
    exact .cons ⟨position, _, hposition, rfl, hset.trans (RawSet.narrows_reduce net set)⟩
      (ih hsets)

/-- **Refinement keeps the stops of a route in their order, each with some of its links.** -/
theorem refineRoute_ok {line : String} {route : Route α} {pending : List (PendingStop α)}
    (h : s.refineRoute net line route = .ok pending) :
    List.Forall₂ (s.Refines net route.mode) (route.occurrences line) pending := by
  obtain ⟨raw, hraw, -⟩ := bind_eq_ok_iff.1 h
  obtain ⟨out, hrun, hout⟩ := refineRoute_of_pend hraw
  rw [hout] at h
  obtain rfl := Except.ok.inj h
  exact refines_zipWith (mapM_eq_ok_iff.1 hraw) (List.forall₂_map_left_iff.1 hrun.narrows)

/-- Refinement leaves all of a stop but its links. -/
theorem Refines.frame {mode : Mode} {o : Occurrence α} {p : PendingStop α}
    (h : s.Refines net mode o p) :
    p.occurrence = o ∧ o.position = some p.position ∧ p.mode = mode ∧
      p.settings = s.modeOrDefault mode := by
  obtain ⟨position, set, hposition, rfl, -⟩ := h
  exact ⟨rfl, hposition, rfl, rfl⟩

/-- A link left for a stop whose facility names none was admitted by the search around the stop. -/
theorem Refines.mem_boundedLinks {mode : Mode} {o : Occurrence α} {p : PendingStop α}
    (h : s.Refines net mode o p) (href : o.facility.linkRef.bind net.linkIx? = none) {ix : LinkIx}
    (hix : ix ∈ p.set.links) :
    (ix, net.linkDistance ix p.position) ∈ net.boundedLinks p.position
      ((s.modeOrDefault mode).bounds s.searchRadius) (some (s.modeOrDefault mode).networkModes) := by
  obtain ⟨position, set, -, rfl, hnarrows⟩ := h
  have hraw := hnarrows.links_subset hix
  rcases s.rawSet_cases net (s.modeOrDefault mode) o.facility position with
    hset | ⟨id, ref, hid, hrefers, -⟩ | hset
  · rw [hset] at hraw
    exact absurd hraw List.not_mem_nil
  · rw [hid, Option.bind_some, hrefers] at href
    cases href
  · rw [hset] at hraw
    obtain ⟨e, he, rfl⟩ := RawSet.mem_links.1 hraw
    obtain ⟨⟨ix, d⟩, hhit, rfl⟩ := List.mem_map.1 he
    obtain rfl := (Network.mem_boundedLinks hhit).2
    exact hhit

theorem map_occurrence_of_refines {mode : Mode} {os : List (Occurrence α)}
    {pending : List (PendingStop α)} (h : List.Forall₂ (s.Refines net mode) os pending) :
    pending.map PendingStop.occurrence = os := by
  induction h with
  | nil => rfl
  | cons hp _ ih =>
    obtain ⟨position, set, -, rfl, -⟩ := hp
    rw [List.map_cons, ih]
    rfl

/-! ## The sets of a route -/

theorem map_set_zipWith {raw : List (PendingStop α)} {out : List (RawSet α)}
    (h : List.Forall₂ (fun p set => RawSet.Narrows p.set set) raw out) :
    (raw.zipWith (fun p set => p.withSet (set.reduce net)) out).map PendingStop.set =
      out.map (RawSet.reduce net) := by
  induction h with
  | nil => rfl
  | cons _ _ ih =>
    rw [List.zipWith_cons_cons, List.map_cons, ih]
    rfl

/-- The sets found for the stops of a route that have a position, in their order. -/
def rawSets (s : Settings α) (net : Network α) (route : Route α) : List (RawSet α) :=
  route.stops.filterMap fun stop =>
    stop.facility.position.map (s.rawSet net (s.modeOrDefault route.mode) stop.facility)

/-- Sets that were separated, and then reduced, are refined. -/
theorem refined_of_separated (hnet : net.Consistent) {raw out : List (RawSet α)}
    (h : RawSet.RunSeparated raw out)
    (hsingle : ∀ r ∈ raw, r.preassigned = true → ∃ e, r.entries = [e]) :
    Refined net raw (out.map (RawSet.reduce net)) where
  narrows := List.forall₂_map_right_iff.2 <|
    h.narrows.imp fun _ set hset => hset.trans (RawSet.narrows_reduce net set)
  single := hsingle
  apart := (List.isChain_map _).2 <| h.apart.imp fun t u htu =>
    htu.narrows (RawSet.narrows_reduce net t) (RawSet.narrows_reduce net u)
  kept r hr ix hix := by
    -- Separation leaves the link itself somewhere, reduction a link of its chain.
    obtain ⟨t, ht, hixt⟩ := h.kept r hr ix hix
    obtain ⟨kept, hkept, hchain⟩ := RawSet.exists_mem_chain hnet hixt
    exact ⟨_, List.mem_map_of_mem ht, kept, hkept, hchain⟩

/-- **The links left for a stop are in different chains.** -/
theorem refineRoute_pairwise (hnet : net.Consistent) {line : String} {route : Route α}
    {pending : List (PendingStop α)} (h : s.refineRoute net line route = .ok pending) :
    ∀ p ∈ pending, p.set.links.Pairwise fun a b => b ∉ net.chain a := by
  obtain ⟨raw, hraw, -⟩ := bind_eq_ok_iff.1 h
  obtain ⟨out, hrun, hout⟩ := refineRoute_of_pend hraw
  rw [hout] at h
  obtain rfl := Except.ok.inj h
  have hnarrows := List.forall₂_map_left_iff.1 hrun.narrows
  have hsets : (raw.zipWith (fun p set => p.withSet (set.reduce net)) out).map PendingStop.set =
      out.map (RawSet.reduce net) := map_set_zipWith hnarrows
  intro p hp
  obtain ⟨set, hset, heq⟩ := List.mem_map.1 (hsets ▸ List.mem_map_of_mem hp)
  rw [← heq]
  obtain ⟨found, hfound, hnarrow⟩ := exists_of_forall₂_right hrun.narrows hset
  have hdrawn : RawSet.Drawn net found := forall_mem_pend hraw (fun _ _ => rawSet_drawn) _ hfound
  cases hpre : set.preassigned with
  | false =>
    exact RawSet.pairwise_reduce hnet hpre (hdrawn.narrows hnarrow).nodup
  | true =>
    -- A pre-assigned set holds one link.
    rw [hnarrow.preassigned] at hpre
    have hsingle : ∀ found ∈ raw.map PendingStop.set, found.preassigned = true →
        ∃ e, found.entries = [e] := forall_mem_pend hraw fun _ _ => rawSet_single
    obtain ⟨e, he⟩ := hsingle found hfound hpre
    have hone := (hnarrow.trans (RawSet.narrows_reduce net set)).kept hpre
    rw [hone, RawSet.links, he]
    exact List.pairwise_singleton _ _

/-- If all stops have positions, the links for each are found. -/
theorem exists_pend (s : Settings α) (net : Network α) (line : String) {route : Route α}
    (h : ∀ stop ∈ route.stops, stop.facility.position.isSome = true) :
    ∃ raw, (route.occurrences line).mapM (s.pend net route.mode) = .ok raw ∧
      raw.map PendingStop.set = s.rawSets net route := by
  obtain ⟨id, mode, stops, shape⟩ := route
  simp only [Route.occurrences, rawSets] at h ⊢
  induction stops with
  | nil => exact ⟨[], rfl, rfl⟩
  | cons stop rest ih =>
    obtain ⟨hstop, hrest⟩ := List.forall_mem_cons.1 h
    obtain ⟨position, hposition⟩ := Option.isSome_iff_exists.1 hstop
    obtain ⟨raw, hraw, hsets⟩ := ih hrest
    have hpend : s.pend net mode ⟨line, id, stop⟩ = .ok (s.pendingAt net mode _ position) :=
      pend_eq_ok_iff.2 ⟨position, hposition, rfl⟩
    refine ⟨_, mapM_eq_ok_iff.2 (.cons hpend (mapM_eq_ok_iff.1 hraw)), ?_⟩
    rw [List.map_cons, hsets, List.filterMap_cons, hposition]
    rfl

/-- **Of the links found for a route whose stops all have positions, refinement leaves sublists that
are apart from one another, and a link of every chain that was found.** -/
theorem refineRoute_refined (hnet : net.Reachable) {line : String} {route : Route α}
    (hposition : ∀ stop ∈ route.stops, stop.facility.position.isSome = true) :
    ∃ pending, s.refineRoute net line route = .ok pending ∧
      pending.map PendingStop.occurrence = route.occurrences line ∧
        Refined net (s.rawSets net route) (pending.map PendingStop.set) := by
  obtain ⟨raw, hraw, hsets⟩ := exists_pend s net line hposition
  obtain ⟨out, hrun, hrefine⟩ := refineRoute_of_pend hraw
  have hsingle : ∀ r ∈ raw.map PendingStop.set, r.preassigned = true → ∃ e, r.entries = [e] :=
    forall_mem_pend hraw fun _ _ => rawSet_single
  have hrefined := refined_of_separated hnet.consistent hrun hsingle
  refine ⟨_, hrefine, map_occurrence_of_refines (refineRoute_ok hrefine), ?_⟩
  rw [map_set_zipWith (List.forall₂_map_left_iff.1 hrun.narrows), ← hsets]
  exact hrefined

/-! ## All routes -/

theorem refineRoutes_eq_ok_iff {routes : List (Line α × Route α)}
    {pending : List (PendingStop α)} :
    s.refineRoutes net routes = .ok pending ↔
      ∃ parts, List.Forall₂ (fun e part => s.refineRoute net e.1.id e.2 = .ok part) routes parts ∧
        parts.flatten = pending := by
  unfold refineRoutes
  rw [map_eq_ok_iff]
  exact exists_congr fun parts => and_congr_left' mapM_eq_ok_iff

/-- **However the workers go, where all routes can be refined they give what the routes give in
order.** -/
theorem Refinement.outcome_eq {routes : List (Line α × Route α)}
    (workers : s.Refinement net routes) {pending : List (PendingStop α)}
    (h : s.refineRoutes net routes = .ok pending) : workers.outcome = .ok pending := by
  cases houtcome : workers.outcome with
  | error e =>
    obtain ⟨line, route, hbegun, hfailed⟩ := workers.failed e houtcome
    obtain ⟨parts, hparts, -⟩ := refineRoutes_eq_ok_iff.1 h
    obtain ⟨part, -, hpart⟩ :=
      exists_of_forall₂_right hparts.flip (workers.begun_sublist.subset hbegun)
    cases hfailed.symm.trans hpart
  | ok pending' =>
    obtain ⟨-, hrefine⟩ := workers.refined pending' houtcome
    exact hrefine.symm.trans h

/-- Refinement gives one stop for each occurrence of the routes, in their order. -/
theorem map_occurrence_refineRoutes {routes : List (Line α × Route α)}
    {pending : List (PendingStop α)} (h : s.refineRoutes net routes = .ok pending) :
    pending.map PendingStop.occurrence =
      routes.flatMap fun (line, route) => route.occurrences line.id := by
  obtain ⟨parts, hparts, rfl⟩ := refineRoutes_eq_ok_iff.1 h
  clear h
  induction hparts with
  | nil => rfl
  | cons hpart _ ih =>
    rw [List.flatten_cons, List.map_append, ih, map_occurrence_of_refines (refineRoute_ok hpart)]
    rfl

/-- The links left for a stop are in different chains, whichever route it belongs to. -/
theorem pairwise_refineRoutes (hnet : net.Consistent) {routes : List (Line α × Route α)}
    {pending : List (PendingStop α)} (h : s.refineRoutes net routes = .ok pending) :
    ∀ p ∈ pending, p.set.links.Pairwise fun a b => b ∉ net.chain a := by
  obtain ⟨parts, hparts, rfl⟩ := refineRoutes_eq_ok_iff.1 h
  intro p hp
  obtain ⟨part, hpart, hp⟩ := List.mem_flatten.1 hp
  obtain ⟨e, -, hrefine⟩ := exists_of_forall₂_right hparts hpart
  exact refineRoute_pairwise hnet hrefine p hp

/-- The links left for a stop belong to the network. -/
theorem lt_of_mem_refineRoutes (hnet : net.Consistent) {routes : List (Line α × Route α)}
    {pending : List (PendingStop α)} (h : s.refineRoutes net routes = .ok pending) :
    ∀ p ∈ pending, ∀ ix ∈ p.set.links, ix < net.links.size := by
  obtain ⟨parts, hparts, rfl⟩ := refineRoutes_eq_ok_iff.1 h
  intro p hp ix hix
  obtain ⟨part, hpart, hp⟩ := List.mem_flatten.1 hp
  obtain ⟨e, -, hrefine⟩ := exists_of_forall₂_right hparts hpart
  obtain ⟨o, -, position, set, -, rfl, hnarrows⟩ :=
    exists_of_forall₂_right (refineRoute_ok hrefine) hp
  exact rawSet_lt hnet (hnarrows.links_subset hix)

/-! ## A route along the triangle -/

/-- A bus route along one side of the triangle; its second stop names its link. -/
def triangleRoute : Route Double where
  id := "out"
  mode := "bus"
  stops :=
    [{ facility := { id := "s", position := some ⟨20, 5⟩ }, departure := some 0 },
      { facility := { id := "t", position := some ⟨40, 0⟩, linkRef := some "ab" }
        arrival := some 60 }]

/-- Buses travel wherever cars do. -/
def triangleSettings : Settings Double :=
  ({} : Settings Double).withMode "bus" { networkModes := .ofList ["car"] }

/-- The first stop loses its nearest link to the second, and one of the two others of its chain. -/
theorem refineRoute_refined_triangle :
    Network.triangle.Reachable ∧
      (∀ stop ∈ triangleRoute.stops, stop.facility.position.isSome = true) ∧
      (triangleSettings.rawSets .triangle triangleRoute).map RawSet.links =
        [[0, 3, 2, 1], [0]] ∧
      ∃ pending, triangleSettings.refineRoute .triangle "line" triangleRoute = .ok pending ∧
        pending.map PendingStop.occurrence = triangleRoute.occurrences "line" ∧
          Refined .triangle (triangleSettings.rawSets .triangle triangleRoute)
            (pending.map PendingStop.set) :=
  ⟨.ofParts Network.ofParts_triangle, by decide, by decide +kernel,
    refineRoute_refined (.ofParts Network.ofParts_triangle) (by decide)⟩

end Settings

end TransitMatching
