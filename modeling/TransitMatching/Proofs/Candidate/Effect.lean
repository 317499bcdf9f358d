import Mathlib.Data.List.TakeWhile
import TransitMatching.Proofs.Candidate.Faults

/-!
# What a build does to the network

Whatever a build answers, the network holds what it held before, under the same numbers,
and loop links that were made up behind it, one for each facility that needed one. They
are counted, and so are the stops for which nothing was found.

* `Network.Grown`: a network with loop links made up for some stops, one after the other.
* `Settings.Founds`: a stop for which a build makes up a loop link.
* `Settings.build_effect`: **a build only makes up loop links, and counts them.**
-/

namespace TransitMatching

variable {α : Type} [Scalar α]

/-- The loop link made up for a stop, at a node of its own. -/
structure PendingStop.LoopLinkAt (p : PendingStop α) (node : NodeIx) (l : Link α) : Prop where
  id : l.id = "pt_" ++ p.occurrence.facility.id
  source : l.source = node
  target : l.target = node
  /-- It is open to the network modes of the stop, and artificial. -/
  modes : ∀ mode, mode ∈ l.modes ↔ mode ∈ p.settings.networkModes ∨ mode = "artificial"
  osmModes : ∀ mode, mode ∉ l.osmModes
  artificial : l.artificial = true
  length : l.length = 1
  freespeed : l.freespeed = 1
  capacity : l.capacity = ((9999 : Nat) : α)

theorem PendingStop.loopLinkAt_madeUpLink (p : PendingStop α) (node : NodeIx) :
    p.LoopLinkAt node (Network.madeUpLink p.facilityId node p.settings.networkModes) where
  id := rfl
  source := rfl
  target := rfl
  modes mode := by
    unfold Network.madeUpLink ModeSet.withArtificial
    rw [Std.TreeSet.mem_insert, Std.LawfulEqCmp.compare_eq_iff_eq, or_comm, eq_comm]
    rfl
  osmModes _ := Std.TreeSet.not_mem_emptyc
  artificial := rfl
  length := rfl
  freespeed := rfl
  capacity := rfl

namespace Network

/-- A network that has grown by the loop links of some stops and by nothing else. -/
structure Grown (net : Network α) (added : List (PendingStop α)) (net' : Network α) : Prop where
  eq_foldl : net' = added.foldl withLoopLinkFor net
  kept : net.Extends net'
  nodes_size : net'.nodes.size = net.nodes.size + added.length
  links_size : net'.links.size = net.links.size + added.length
  node : ∀ (i : Nat) (p : PendingStop α), added[i]? = some p →
    net'.node (net.nodes.size + i) = ⟨"pt_" ++ p.occurrence.facility.id, p.position⟩
  /-- The loop link is at the node that was added with it. -/
  link : ∀ (i : Nat) (p : PendingStop α), added[i]? = some p →
    p.LoopLinkAt (net.nodes.size + i) (net'.link (net.links.size + i))

theorem extends_withLoopLinkFor (net : Network α) (p : PendingStop α) :
    net.Extends (net.withLoopLinkFor p) :=
  net.extends_withLoopLink _ _ _

theorem node_withLoopLinkFor (net : Network α) (p : PendingStop α) :
    (net.withLoopLinkFor p).node net.nodes.size = ⟨loopLinkPrefix ++ p.facilityId, p.position⟩ :=
  (node_withNode net _ _).trans (if_pos rfl)

theorem link_withLoopLinkFor (net : Network α) (p : PendingStop α) :
    p.LoopLinkAt net.nodes.size ((net.withLoopLinkFor p).link net.links.size) := by
  have hlink : (net.withLoopLinkFor p).link net.links.size =
      madeUpLink p.facilityId net.nodes.size p.settings.networkModes :=
    (link_withLink (net.withPlace _ p.position) _ _).trans (if_pos rfl)
  rw [hlink]
  exact p.loopLinkAt_madeUpLink _

/-- Making up loop links one after the other. -/
theorem grown_foldl (net : Network α) (added : List (PendingStop α)) :
    net.Grown added (added.foldl withLoopLinkFor net) := by
  induction added generalizing net with
  | nil => exact ⟨rfl, .refl net, rfl, rfl, by simp, by simp⟩
  | cons p rest ih =>
    have hrest := ih (net.withLoopLinkFor p)
    have hnodes := net.nodes_size_withLoopLinkFor p
    have hlinks := net.links_size_withLoopLinkFor p
    have hkept := hrest.kept
    refine
      { eq_foldl := rfl
        kept := (net.extends_withLoopLinkFor p).trans hkept
        nodes_size := ?nodes_size
        links_size := ?links_size
        node := ?node
        link := ?link }
    case nodes_size =>
      rw [List.foldl_cons, hrest.nodes_size, hnodes, List.length_cons]
      omega
    case links_size =>
      rw [List.foldl_cons, hrest.links_size, hlinks, List.length_cons]
      omega
    case node =>
      intro i q hq
      cases i with
      | zero =>
        obtain rfl : p = q := Option.some.inj hq
        exact (hkept.node _ (by omega)).trans (net.node_withLoopLinkFor p)
      | succ i =>
        have hnode := hrest.node i q hq
        rwa [hnodes, Nat.add_assoc, Nat.add_comm 1] at hnode
    case link =>
      intro i q hq
      cases i with
      | zero =>
        obtain rfl : p = q := Option.some.inj hq
        have hlink : (rest.foldl withLoopLinkFor (net.withLoopLinkFor p)).link net.links.size =
            (net.withLoopLinkFor p).link net.links.size := hkept.link _ (by omega)
        rw [List.foldl_cons, Nat.add_zero, Nat.add_zero, hlink]
        exact net.link_withLoopLinkFor p
      | succ i =>
        have hlink := hrest.link i q hq
        rwa [hlinks, hnodes, Nat.add_assoc, Nat.add_assoc, Nat.add_comm 1] at hlink

end Network

namespace Settings

variable {s : Settings α} {net : Network α} {schedule : Schedule α}

/-- A stop of the schedule for which a build makes up a loop link: of the stops that need one at its
facility, which has none, the first. -/
structure Founds (s : Settings α) (net : Network α) (schedule : Schedule α)
    (pending : List (PendingStop α)) (p : PendingStop α) : Prop where
  needs : p.needsLoopLink = true
  unregistered : net.existingLoopLink? p.occurrence.facility.id = none
  first : ∃ before after, pending = before ++ p :: after ∧ ∀ q ∈ before, q.needsLoopLink = true →
    q.occurrence.facility.id ≠ p.occurrence.facility.id
  position : p.occurrence.position = some p.position
  settings : ∃ line route, (line, route) ∈ schedule.routes ∧
    p.occurrence ∈ route.occurrences line.id ∧ p.settings = s.modeOrDefault route.mode

/-- A stop that was refined is at the position of its occurrence, and has the settings of the mode of
its route. -/
theorem placed_of_mem_refineRoutes {pending : List (PendingStop α)} {p : PendingStop α}
    (h : s.refineRoutes net schedule.routes = .ok pending) (hp : p ∈ pending) :
    p.occurrence.position = some p.position ∧
      ∃ line route, (line, route) ∈ schedule.routes ∧
        p.occurrence ∈ route.occurrences line.id ∧ p.settings = s.modeOrDefault route.mode := by
  obtain ⟨parts, hparts, rfl⟩ := refineRoutes_eq_ok_iff.1 h
  obtain ⟨part, hpart, hp⟩ := List.mem_flatten.1 hp
  obtain ⟨⟨line, route⟩, hroute, hrefine⟩ := exists_of_forall₂_right hparts hpart
  obtain ⟨o, ho, position, set, hposition, rfl, -⟩ :=
    exists_of_forall₂_right (refineRoute_ok hrefine) hp
  exact ⟨hposition, line, route, hroute, ho, rfl⟩

/-- The founders among the first stops found for all stops. -/
theorem founds_of_mem_founders {pending : List (PendingStop α)}
    (h : s.refineRoutes net schedule.routes = .ok pending) {front back : List (PendingStop α)}
    (hsplit : pending = front ++ back) {p : PendingStop α}
    (hp : p ∈ PendingStop.founders net front) : s.Founds net schedule pending p := by
  obtain ⟨hlacks, before, after, rfl, hbefore⟩ := PendingStop.exists_of_mem_founders hp
  obtain ⟨hneeds, hnone⟩ := PendingStop.lacksLoopLink_iff.1 hlacks
  have hmem : p ∈ pending := by simp [hsplit]
  obtain ⟨hposition, hsettings⟩ := placed_of_mem_refineRoutes h hmem
  refine ⟨hneeds, hnone, ⟨before, after ++ back, by simp [hsplit], ?_⟩, hposition, hsettings⟩
  intro q hq hneeds' hsame
  -- A stop of the same facility that needs a loop link lacks it too.
  have hlacks' : q.lacksLoopLink net = true :=
    PendingStop.lacksLoopLink_iff.2 ⟨hneeds', hsame ▸ hnone⟩
  exact hbefore q hq hlacks' hsame

/-! ## What is not counted -/

omit [Scalar α] in
theorem warned_of_mem_linkRefEvents {facility : Facility α} {e : Event}
    (h : e ∈ linkRefEvents net facility) : ∃ w : SearchWarning, e = w.event := by
  unfold linkRefEvents at h
  split at h
  · split at h
    · exact ⟨_, List.mem_singleton.1 h⟩
    · exact absurd h List.not_mem_nil
  · exact absurd h List.not_mem_nil

theorem warned_of_mem_routeEvents {route : Route α} {e : Event}
    (h : e ∈ s.routeEvents net route) : ∃ w : SearchWarning, e = w.event := by
  have hmode : e ∈ (if (s.mode? route.mode).isNone then
      [(SearchWarning.noModeSettings route.mode).event] else []) →
        ∃ w : SearchWarning, e = w.event := by
    intro hmem
    split at hmem
    · exact ⟨_, List.mem_singleton.1 hmem⟩
    · exact absurd hmem List.not_mem_nil
  unfold routeEvents at h
  dsimp only at h
  split at h
  · exact hmode h
  · rcases List.mem_append.1 h with h | h
    · exact hmode h
    · obtain ⟨stop, -, h⟩ := List.mem_flatMap.1 h
      exact warned_of_mem_linkRefEvents h

/-- The warnings of refinement count as nothing. -/
theorem Refinement.count_events {routes : List (Line α × Route α)}
    (workers : s.Refinement net routes) (c : Counter) : workers.events.count (.counted c) = 0 := by
  refine List.count_eq_zero.2 fun hmem => ?_
  obtain ⟨events, hevents, hmem⟩ := workers.interleaved.exists_mem hmem
  obtain ⟨⟨line, route⟩, -, rfl⟩ := List.mem_map.1 hevents
  obtain ⟨w, hw⟩ := warned_of_mem_routeEvents hmem
  cases hw

/-- Manual entries count links that do not exist or are too far away, and nothing else. -/
theorem count_manualEvents [DecimalText α] (s : Settings α) (net : Network α) (pending : List (PendingStop α))
    {c : Counter} (hskipped : c ≠ .overridesSkipped) (hfar : c ≠ .overridesOverDistance) :
    (s.manualEvents net pending).count (.counted c) = 0 := by
  refine List.count_eq_zero.2 fun hmem => ?_
  obtain ⟨m, -, hmem⟩ := List.mem_flatMap.1 hmem
  rcases List.mem_append.1 hmem with hmem | hmem
  · obtain ⟨link, -, hmem⟩ := List.mem_flatMap.1 hmem
    split at hmem
    · exact absurd hmem List.not_mem_nil
    · simp [ManualWarning.event, hskipped] at hmem
  · obtain ⟨p, -, hmem⟩ := List.mem_flatMap.1 hmem
    rcases List.mem_append.1 hmem with hmem | hmem
    · obtain ⟨d, -, hmem⟩ := List.mem_flatMap.1 hmem
      split at hmem
      · simp [ManualWarning.event, hfar] at hmem
      · exact absurd hmem List.not_mem_nil
    · split at hmem
      · simp [ManualWarning.event] at hmem
      · exact absurd hmem List.not_mem_nil

/-! ## The effect of a build -/

/-- What a build has done, with the stops for which it made up loop links. -/
structure Effect (s : Settings α) (net : Network α) (schedule : Schedule α)
    (diagnostics : Diagnostics) (added : List (PendingStop α)) (result : BuildResult α) : Prop where
  grown : net.Grown added result.network
  /-- No two of the loop links are for one facility. -/
  nodup : (added.map fun p => p.occurrence.facility.id).Nodup
  founds : ∀ p ∈ added, ∃ pending, s.refineRoutes net schedule.routes = .ok pending ∧
    s.Founds net schedule pending p
  loopLinks : result.diagnostics.count .loopLinks = diagnostics.count .loopLinks + added.length
  unchanged : ((∃ e, result.outcome = .error (.settings e)) ∨
    ∃ e, result.outcome = .error (.candidate e)) → result.network = net
  /-- A build that succeeds leaves no facility without the loop link that it needs. -/
  complete : (∃ store, result.outcome = .ok store) →
    ∀ pending, s.refineRoutes net schedule.routes = .ok pending →
      ∀ p ∈ pending, p.needsLoopLink = true →
        net.existingLoopLink? p.occurrence.facility.id = none →
          ∃ q ∈ added, q.occurrence.facility.id = p.occurrence.facility.id
  emptySearches : (∃ store, result.outcome = .ok store) →
    ∃ pending, s.refineRoutes net schedule.routes = .ok pending ∧
      pending.map PendingStop.occurrence = schedule.occurrences ∧
        result.diagnostics.count .emptySearches = diagnostics.count .emptySearches +
          pending.countP fun p => p.set.isEmpty && !p.settings.artificialOnly

/-- A build that ends before scoring does nothing to the network. -/
theorem effect_nil {diagnostics diagnostics' : Diagnostics} {e : MatchingError α}
    (hcount : diagnostics'.count .loopLinks = diagnostics.count .loopLinks) :
    s.Effect net schedule diagnostics [] ⟨.error e, net, diagnostics'⟩ where
  grown := net.grown_foldl []
  nodup := List.nodup_nil
  founds p hp := absurd hp List.not_mem_nil
  loopLinks := hcount
  unchanged _ := rfl
  complete h := by
    obtain ⟨store, hstore⟩ := h
    cases hstore
  emptySearches h := by
    obtain ⟨store, hstore⟩ := h
    cases hstore

/-- A build that scores some of its stops makes up the loop links of the founders among them. -/
theorem effect_of_scored {diagnostics : Diagnostics} {pending front back : List (PendingStop α)}
    {result : BuildResult α} (hrefine : s.refineRoutes net schedule.routes = .ok pending)
    (hsplit : pending = front ++ back)
    (hnetwork : result.network =
      (PendingStop.founders net front).foldl Network.withLoopLinkFor net)
    (hloopLinks : result.diagnostics.count .loopLinks =
      diagnostics.count .loopLinks + (PendingStop.founders net front).length)
    (hphase : ∀ e, result.outcome = .error e → ∃ e', e = .network e')
    (hdone : (∃ store, result.outcome = .ok store) →
      back = [] ∧ result.diagnostics.count .emptySearches = diagnostics.count .emptySearches +
        pending.countP fun p => p.set.isEmpty && !p.settings.artificialOnly) :
    s.Effect net schedule diagnostics (PendingStop.founders net front) result where
  grown := by
    rw [hnetwork]
    exact net.grown_foldl _
  nodup := PendingStop.nodup_founders net front
  founds p hp := ⟨pending, hrefine, founds_of_mem_founders hrefine hsplit hp⟩
  loopLinks := hloopLinks
  unchanged h := by
    rcases h with ⟨e, he⟩ | ⟨e, he⟩
    · obtain ⟨e', hne⟩ := hphase _ he
      cases hne
    · obtain ⟨e', hne⟩ := hphase _ he
      cases hne
  complete h pending' hrefine' p hp hneeds hnone := by
    obtain rfl := Except.ok.inj (hrefine.symm.trans hrefine')
    obtain ⟨rfl, -⟩ := hdone h
    rw [List.append_nil] at hsplit
    rw [← hsplit]
    exact PendingStop.exists_mem_founders hp (PendingStop.lacksLoopLink_iff.2 ⟨hneeds, hnone⟩)
  emptySearches h := ⟨pending, hrefine, map_occurrence_refineRoutes hrefine, (hdone h).2⟩

variable [DecimalText α]

/-- **Whatever a build answers, it has made up loop links for facilities that need one, and done
nothing else to the network**, and it has counted them. -/
theorem build_effect (hroom : s.HasRoom net schedule) (diagnostics : Diagnostics)
    (workers : s.Refinement net schedule.routes) :
    ∃ added, s.Effect net schedule diagnostics added
      (s.build net schedule diagnostics workers) := by
  have hrun := s.run_build net schedule diagnostics workers
  generalize s.build net schedule diagnostics workers = result at hrun
  cases hrun with
  | invalid _ => exact ⟨[], effect_nil rfl⟩
  | unrefined _ _ =>
    refine ⟨[], effect_nil ?_⟩
    rw [Diagnostics.count_recordAll, workers.count_events, Nat.add_zero]
  | @unscored pending b e _ hrefine hscore =>
    obtain ⟨-, hnetwork, hloopLinks, -⟩ := hroom.scored hrefine hscore
    rw [Diagnostics.count_recordAll, workers.count_events, Nat.add_zero] at hloopLinks
    refine ⟨_, effect_of_scored hrefine List.takeWhile_append_dropWhile.symm hnetwork hloopLinks
      (fun e' he' => ⟨e, (Except.error.inj he').symm⟩) ?_⟩
    rintro ⟨store, hstore⟩
    cases hstore
  | @done pending b _ hrefine hscore =>
    obtain ⟨herror, hnetwork, hloopLinks, hsearches⟩ := hroom.scored hrefine hscore
    rw [Diagnostics.count_recordAll, workers.count_events, Nat.add_zero] at hloopLinks hsearches
    -- No stop is blocked, so all of them have been scored.
    have hall : pending.takeWhile (fun p => !p.blocked net) = pending := by
      have hnone := Option.map_eq_none_iff.1 herror.symm
      refine List.takeWhile_eq_self_iff.2 fun p hp => ?_
      simpa using List.find?_eq_none.1 hnone p hp
    rw [hall] at hnetwork hloopLinks
    refine ⟨_, effect_of_scored hrefine (List.append_nil pending).symm hnetwork ?_
      (fun e' he' => by cases he') fun _ => ⟨rfl, ?_⟩⟩
    · rw [Diagnostics.count_recordAll, count_manualEvents s b.network pending (by decide) (by decide)]
      exact hloopLinks
    · rw [Diagnostics.count_recordAll, count_manualEvents s b.network pending (by decide) (by decide)]
      exact hsearches rfl

/-- For two stops at a facility out of reach one loop link is made up, after two empty searches. It
is open to cars, as the other links, and artificial. -/
theorem build_effect_far :
    triangleSettings.HasRoom .triangle farSchedule ∧
      (∃ added, triangleSettings.Effect .triangle farSchedule .empty added
        (triangleSettings.build .triangle farSchedule .empty)) ∧
      (triangleSettings.build .triangle farSchedule .empty).network.links.size = 5 ∧
      ((triangleSettings.build .triangle farSchedule .empty).network.link 4).modes.toList =
        ["artificial", "car"] ∧
      (triangleSettings.build .triangle farSchedule .empty).diagnostics.count .loopLinks = 1 ∧
      (triangleSettings.build .triangle farSchedule .empty).diagnostics.count .emptySearches = 2 := by
  have hroom : triangleSettings.HasRoom .triangle farSchedule :=
    hasRoom_of_room ⟨by decide +kernel, by decide +kernel⟩
  exact ⟨hroom, build_effect hroom .empty (.inOrder _ _ _), by decide +kernel, by decide +kernel,
    by decide +kernel, by decide +kernel⟩

end Settings

end TransitMatching
