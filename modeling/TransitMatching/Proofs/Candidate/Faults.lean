import TransitMatching.Proofs.Candidate.Build
import TransitMatching.Proofs.Candidate.LoopLinks
import TransitMatching.Proofs.Network.Insertions

/-!
# Why a build fails

A build checks its settings, refines the stops of all routes, and scores them. The
first of these to fail decides the error, and scoring fails for the first stop for which
it does. Refinement fails for the first stop without a position of some route: a single
worker takes the routes in order, but several may come upon any such route first.
Nothing else goes wrong: sets of neighbours never disagree on where a link starts, and a
network with room refuses only a name that is taken.

* `Settings.refineRoute_error`, `Settings.refineRoutes_error`: refinement fails for want of
  a position.
* `Settings.build_first_fault`: **when a build succeeds, and else with which error.**
* `Settings.no_stop_decides_lost`: with two workers, no stop need be the one that decides.
-/

namespace TransitMatching

variable {α : Type} [Scalar α]

omit [Scalar α] in
/-- The first occurrence of a route that has no position. -/
def Route.unplaced? (route : Route α) (line : String) : Option (Occurrence α) :=
  (route.occurrences line).find? fun o => o.position.isNone

/-- The first occurrence of the schedule that has no position. -/
def Schedule.unplaced? (schedule : Schedule α) : Option (Occurrence α) :=
  schedule.occurrences.find? fun o => o.position.isNone

namespace Settings

variable {s : Settings α} {net : Network α}

/-! ## Refinement -/

theorem pend_error {mode : Mode} {o : Occurrence α} {e : CandidateError}
    (h : s.pend net mode o = .error e) :
    o.position = none ∧ e = .missingCoordinate o.facility.id o.route := by
  unfold pend at h
  cases hposition : o.position with
  | none =>
    rw [hposition] at h
    exact ⟨rfl, (Except.error.inj h).symm⟩
  | some position =>
    rw [hposition] at h
    cases h

omit [Scalar α] in
theorem find?_unplaced_eq_none {occurrences : List (Occurrence α)}
    (h : ∀ o ∈ occurrences, o.position.isSome = true) :
    occurrences.find? (fun o => o.position.isNone) = none := by
  refine List.find?_eq_none.2 fun o ho => ?_
  rw [Option.isNone_iff_eq_none]
  exact Option.isSome_iff_ne_none.1 (h o ho)

omit [Scalar α] in
theorem unplaced_of_find? {occurrences : List (Occurrence α)} {o : Occurrence α}
    (h : occurrences.find? (fun o => o.position.isNone) = some o) :
    o ∈ occurrences ∧ o.position = none := by
  obtain ⟨hnone, -⟩ := List.find?_eq_some_iff_append.1 h
  exact ⟨List.mem_of_find?_eq_some h, Option.isNone_iff_eq_none.1 hnone⟩

/-- The stops of a route that was refined all have positions. -/
theorem placed_of_refineRoute {line : String} {route : Route α} {pending : List (PendingStop α)}
    (h : s.refineRoute net line route = .ok pending) :
    ∀ o ∈ route.occurrences line, o.position.isSome = true := by
  intro o ho
  have hbeside : List.Forall₂ (flip (s.Refines net route.mode)) pending (route.occurrences line) :=
    (refineRoute_ok h).flip
  obtain ⟨p, -, position, set, hposition, -⟩ := exists_of_forall₂_right hbeside ho
  rw [hposition]
  rfl

/-- Refining a route fails for the first stop without a position. -/
theorem refineRoute_error {line : String} {route : Route α} {e : CandidateError}
    (h : s.refineRoute net line route = .error e) :
    ∃ o, route.unplaced? line = some o ∧ e = .missingCoordinate o.facility.id o.route := by
  cases hpend : (route.occurrences line).mapM (s.pend net route.mode) with
  | ok raw =>
    -- Sets that are found in one network can always be separated.
    obtain ⟨out, -, hout⟩ := refineRoute_of_pend hpend
    rw [hout] at h
    cases h
  | error e' =>
    have hsame : s.refineRoute net line route = .error e' := by
      unfold refineRoute
      rw [hpend]
      rfl
    obtain rfl := Except.error.inj (hsame.symm.trans h)
    obtain ⟨before, o, after, hsplit, hbefore, ho⟩ := exists_of_mapM_eq_error hpend
    obtain ⟨hposition, he⟩ := pend_error ho
    refine ⟨o, ?_, he⟩
    unfold Route.unplaced?
    rw [hsplit, List.find?_eq_some_iff_append]
    refine ⟨by rw [hposition]; rfl, before, after, rfl, fun a ha => ?_⟩
    obtain ⟨p, hp⟩ := hbefore a ha
    obtain ⟨position, hposition, -⟩ := pend_eq_ok_iff.1 hp
    rw [hposition]
    rfl

/-- The stops of all routes of a schedule that was refined have positions. -/
theorem refineRoutes_placed {schedule : Schedule α} {pending : List (PendingStop α)}
    (h : s.refineRoutes net schedule.routes = .ok pending) :
    ∀ o ∈ schedule.occurrences, o.position.isSome = true := by
  obtain ⟨parts, hparts, -⟩ := refineRoutes_eq_ok_iff.1 h
  intro o ho
  obtain ⟨e, he, ho⟩ := List.mem_flatMap.1 ho
  obtain ⟨part, -, hpart⟩ := exists_of_forall₂_right hparts.flip he
  exact placed_of_refineRoute hpart o ho

/-- **With the routes in order, refinement fails for the first stop without a position**, which is
the first of its route. -/
theorem refineRoutes_error {schedule : Schedule α} {e : CandidateError}
    (h : s.refineRoutes net schedule.routes = .error e) :
    ∃ line route o, (line, route) ∈ schedule.routes ∧ route.unplaced? line.id = some o ∧
      schedule.unplaced? = some o ∧ e = .missingCoordinate o.facility.id o.route := by
  unfold refineRoutes at h
  obtain ⟨before, ⟨line, route⟩, after, hsplit, hbefore, hroute⟩ :=
    exists_of_mapM_eq_error (map_eq_error_iff.1 h)
  obtain ⟨o, ho, he⟩ := refineRoute_error hroute
  -- All stops of the routes in front have positions.
  have hplaced : ∀ r ∈ before, r.2.unplaced? r.1.id = none := by
    intro r hr
    obtain ⟨part, hpart⟩ := hbefore r hr
    exact find?_unplaced_eq_none (placed_of_refineRoute hpart)
  have hmem : (line, route) ∈ schedule.routes := by simp [hsplit]
  refine ⟨line, route, o, hmem, ho, ?_, he⟩
  unfold Schedule.unplaced? Schedule.occurrences
  rw [List.find?_flatMap, List.findSome?_eq_some_iff]
  exact ⟨before, (line, route), after, hsplit, ho, hplaced⟩

end Settings

/-! ## Stops without a loop link -/

/-- A stop for which a loop link is needed and cannot be made up. -/
structure PendingStop.Blocked (net : Network α) (p : PendingStop α) : Prop where
  needs : p.settings.artificialOnly = true ∨ p.set.entries = []
  unregistered : net.existingLoopLink? p.occurrence.facility.id = none
  /-- Some node has the name that the node of the loop link would get. -/
  taken : ∃ ix < net.nodes.size, (net.node ix).id = "pt_" ++ p.occurrence.facility.id

theorem PendingStop.blocked_eq_true_iff {net : Network α} (hnet : net.Consistent)
    {p : PendingStop α} : p.blocked net = true ↔ p.Blocked net := by
  have hneeds : p.needsLoopLink = true ↔ p.settings.artificialOnly = true ∨ p.set.entries = [] := by
    simp [needsLoopLink, RawSet.isEmpty]
  have htaken : (net.nodeIx? (Network.loopLinkPrefix ++ p.facilityId)).isSome = true ↔
      ∃ ix < net.nodes.size, (net.node ix).id = "pt_" ++ p.occurrence.facility.id := by
    rw [Option.isSome_iff_exists]
    exact exists_congr fun ix => hnet.nodeIx? _ ix
  unfold blocked
  rw [Bool.and_eq_true, lacksLoopLink_iff, hneeds, htaken]
  constructor
  · rintro ⟨⟨hneeds, hnone⟩, htaken⟩
    exact ⟨hneeds, hnone, htaken⟩
  · rintro ⟨hneeds, hnone, htaken⟩
    exact ⟨⟨hneeds, hnone⟩, htaken⟩

namespace Settings

variable {s : Settings α} {net : Network α} {schedule : Schedule α}

/-! ## The first fault -/

/-- There is room for a node and a link for each facility that needs a loop link and has none. -/
def HasRoom (s : Settings α) (net : Network α) (schedule : Schedule α) : Prop :=
  ∀ pending, s.refineRoutes net schedule.routes = .ok pending →
    net.Room (PendingStop.founders net pending).length

/-- There is room if there is for a loop link at every occurrence. -/
theorem hasRoom_of_room (h : net.Room schedule.occurrences.length) : s.HasRoom net schedule := by
  intro pending hrefine
  have hlength : pending.length = schedule.occurrences.length := by
    have hmap : pending.map PendingStop.occurrence = schedule.occurrences :=
      map_occurrence_refineRoutes hrefine
    rw [← hmap, List.length_map]
  refine h.mono ?_
  rw [← hlength]
  exact (PendingStop.founders_sublist net pending).length_le

/-- The outcome of a build, by the first thing that goes wrong. -/
inductive Decided (s : Settings α) (net : Network α) (schedule : Schedule α) :
    Except (MatchingError α) (CandidateStore α) → Prop where
  | invalid {e : SettingsError α} : s.validate = .error e →
    Decided s net schedule (.error (.settings e))
  | unplaced {line : Line α} {route : Route α} {o : Occurrence α} : s.validate = .ok () →
    (line, route) ∈ schedule.routes → route.unplaced? line.id = some o →
      (s.threads = 1 → schedule.unplaced? = some o) →
        Decided s net schedule (.error (.candidate (.missingCoordinate o.facility.id o.route)))
  | blocked {pending : List (PendingStop α)} {p : PendingStop α} : s.validate = .ok () →
    s.refineRoutes net schedule.routes = .ok pending →
      pending.find? (PendingStop.blocked net) = some p →
        Decided s net schedule
          (.error (.network (.duplicateNode (Network.loopLinkPrefix ++ p.facilityId))))
  | done {pending : List (PendingStop α)} {store : CandidateStore α} : s.validate = .ok () →
    s.refineRoutes net schedule.routes = .ok pending →
      pending.find? (PendingStop.blocked net) = none → Decided s net schedule (.ok store)

omit [Scalar α] in
theorem unplaced_of_route {line : Line α} {route : Route α} {o : Occurrence α}
    (hroute : (line, route) ∈ schedule.routes) (ho : route.unplaced? line.id = some o) :
    o ∈ schedule.occurrences ∧ o.position = none := by
  obtain ⟨hmem, hnone⟩ := unplaced_of_find? ho
  exact ⟨List.mem_flatMap.2 ⟨(line, route), hroute, hmem⟩, hnone⟩

/-- Where a position is missing, not all routes can be refined. -/
theorem refineRoutes_ne_ok {o : Occurrence α} (ho : o ∈ schedule.occurrences ∧ o.position = none)
    {pending : List (PendingStop α)} : s.refineRoutes net schedule.routes ≠ .ok pending := by
  intro hrefine
  have hsome := refineRoutes_placed hrefine o ho.1
  rw [ho.2] at hsome
  cases hsome

theorem find?_blocked_eq_none_iff (hnet : net.Consistent) {pending : List (PendingStop α)} :
    pending.find? (PendingStop.blocked net) = none ↔ ∀ p ∈ pending, ¬ p.Blocked net := by
  simp only [List.find?_eq_none, PendingStop.blocked_eq_true_iff hnet]

variable {outcome : Except (MatchingError α) (CandidateStore α)}

theorem Decided.of_invalid (h : s.Decided net schedule outcome) {e : SettingsError α}
    (hinvalid : s.validate = .error e) : outcome = .error (.settings e) := by
  cases h with
  | invalid hvalid =>
    obtain rfl := Except.error.inj (hvalid.symm.trans hinvalid)
    rfl
  | unplaced hvalid => cases hvalid.symm.trans hinvalid
  | blocked hvalid => cases hvalid.symm.trans hinvalid
  | done hvalid => cases hvalid.symm.trans hinvalid

theorem Decided.of_unplaced (h : s.Decided net schedule outcome) (hvalid : s.validate = .ok ())
    (hlacks : ∃ o ∈ schedule.occurrences, o.position = none) :
    ∃ line route o, (line, route) ∈ schedule.routes ∧ route.unplaced? line.id = some o ∧
      (s.threads = 1 → schedule.unplaced? = some o) ∧
        outcome = .error (.candidate (.missingCoordinate o.facility.id o.route)) := by
  obtain ⟨missing, hmissing⟩ := hlacks
  cases h with
  | invalid hinvalid => cases hvalid.symm.trans hinvalid
  | unplaced _ hroute ho hfirst => exact ⟨_, _, _, hroute, ho, hfirst, rfl⟩
  | blocked _ hrefine => exact (refineRoutes_ne_ok hmissing hrefine).elim
  | done _ hrefine => exact (refineRoutes_ne_ok hmissing hrefine).elim

theorem Decided.of_blocked (h : s.Decided net schedule outcome) (hvalid : s.validate = .ok ())
    {pending : List (PendingStop α)} (hrefine : s.refineRoutes net schedule.routes = .ok pending)
    {p : PendingStop α} (hp : pending.find? (PendingStop.blocked net) = some p) :
    outcome =
      .error (.network (.duplicateNode (Network.loopLinkPrefix ++ p.facilityId))) := by
  cases h with
  | invalid hinvalid => cases hvalid.symm.trans hinvalid
  | unplaced _ hroute ho => exact (refineRoutes_ne_ok (unplaced_of_route hroute ho) hrefine).elim
  | blocked _ hrefine' hp' =>
    obtain rfl := Except.ok.inj (hrefine'.symm.trans hrefine)
    obtain rfl := Option.some.inj (hp'.symm.trans hp)
    rfl
  | done _ hrefine' hnone =>
    obtain rfl := Except.ok.inj (hrefine'.symm.trans hrefine)
    cases hnone.symm.trans hp

theorem Decided.of_none_blocked (h : s.Decided net schedule outcome) (hvalid : s.validate = .ok ())
    {pending : List (PendingStop α)} (hrefine : s.refineRoutes net schedule.routes = .ok pending)
    (hnone : pending.find? (PendingStop.blocked net) = none) : ∃ store, outcome = .ok store := by
  cases h with
  | invalid hinvalid => cases hvalid.symm.trans hinvalid
  | unplaced _ hroute ho => exact (refineRoutes_ne_ok (unplaced_of_route hroute ho) hrefine).elim
  | blocked _ hrefine' hp =>
    obtain rfl := Except.ok.inj (hrefine'.symm.trans hrefine)
    cases hnone.symm.trans hp
  | done => exact ⟨_, rfl⟩

variable [DecimalText α]

/-- Where there is room, scoring after refinement makes up the loop links of the founders. -/
theorem HasRoom.scored {schedule : Schedule α} {diagnostics : Diagnostics}
    {pending : List (PendingStop α)} {out : Build α × Option (NetworkError α)}
    (hroom : s.HasRoom net schedule) (hrefine : s.refineRoutes net schedule.routes = .ok pending)
    (hscore : (⟨net, diagnostics, ∅⟩ : Build α).score pending = out) :
    Build.Scored net diagnostics pending out := by
  rw [← hscore]
  exact Build.score_scored ⟨net, diagnostics, ∅⟩ pending (hroom pending hrefine)

/-- The first fault decides, however the workers go. -/
theorem build_decided {schedule : Schedule α} (hroom : s.HasRoom net schedule)
    (diagnostics : Diagnostics) (workers : s.Refinement net schedule.routes) :
    s.Decided net schedule (s.build net schedule diagnostics workers).outcome := by
  have hrun := s.run_build net schedule diagnostics workers
  generalize s.build net schedule diagnostics workers = result at hrun
  cases hrun with
  | invalid hvalid => exact .invalid hvalid
  | @unrefined e hvalid herror =>
    by_cases hone : s.threads = 1
    · -- A single worker gives the error of the routes in order.
      obtain ⟨-, hsame, -⟩ := workers.alone hone
      obtain ⟨line, route, o, hroute, ho, hfirst, rfl⟩ :=
        refineRoutes_error (hsame.symm.trans herror)
      exact .unplaced hvalid hroute ho fun _ => hfirst
    · obtain ⟨line, route, hbegun, hfailed⟩ := workers.failed e herror
      obtain ⟨o, ho, rfl⟩ := refineRoute_error hfailed
      exact .unplaced hvalid (workers.begun_sublist.subset hbegun) ho fun h => absurd h hone
  | @unscored pending b e hvalid hrefine hscore =>
    have herror := (hroom.scored hrefine hscore).error
    obtain ⟨p, hp, rfl⟩ := Option.map_eq_some_iff.1 herror.symm
    exact .blocked hvalid hrefine hp
  | @done pending b hvalid hrefine hscore =>
    have herror := (hroom.scored hrefine hscore).error
    exact .done hvalid hrefine (Option.map_eq_none_iff.1 herror.symm)

/-- What an outcome says about settings, a network and a schedule. -/
structure FirstFault (s : Settings α) (net : Network α) (schedule : Schedule α)
    (outcome : Except (MatchingError α) (CandidateStore α)) : Prop where
  succeeds_iff : (∃ store, outcome = .ok store) ↔
    s.validate = .ok () ∧ (∀ o ∈ schedule.occurrences, o.position.isSome = true) ∧
      ∃ pending, s.refineRoutes net schedule.routes = .ok pending ∧
        ∀ p ∈ pending, ¬ p.Blocked net
  invalid : ∀ e, s.validate = .error e → outcome = .error (.settings e)
  /-- In valid settings the first occurrence without a position of some route decides. -/
  unplaced : s.validate = .ok () → (∃ o ∈ schedule.occurrences, o.position = none) →
    ∃ line route o, (line, route) ∈ schedule.routes ∧ route.unplaced? line.id = some o ∧
      outcome = .error (.candidate (.missingCoordinate o.facility.id o.route))
  /-- It is the first of all occurrences if there is a single worker, or if no other route has
  one. -/
  unplaced_first : s.validate = .ok () → ∀ o, schedule.unplaced? = some o →
    (s.threads = 1 ∨ ∀ line route o', (line, route) ∈ schedule.routes →
      route.unplaced? line.id = some o' → o' = o) →
        outcome = .error (.candidate (.missingCoordinate o.facility.id o.route))
  /-- If settings and positions are as they should be, the first stop that is blocked decides. -/
  blocked : s.validate = .ok () → ∀ pending, s.refineRoutes net schedule.routes = .ok pending →
    ∀ before p after, pending = before ++ p :: after → (∀ q ∈ before, ¬ q.Blocked net) →
      p.Blocked net → outcome = .error (.network (.duplicateNode ("pt_" ++ p.occurrence.facility.id)))
  no_mismatch : ∀ link previous current,
    outcome ≠ .error (.candidate (.separationMismatch link previous current))
  no_duplicate_link : ∀ id, outcome ≠ .error (.network (.duplicateLink id))
  no_unknown_node : ∀ link node, outcome ≠ .error (.network (.unknownNode link node))

/-- **The first fault of a build decides its outcome**, in whatever way the workers go; only of
several routes that lack a position it may be any. -/
theorem build_first_fault (hnet : net.Reachable) (hroom : s.HasRoom net schedule)
    (diagnostics : Diagnostics) (workers : s.Refinement net schedule.routes) :
    s.FirstFault net schedule (s.build net schedule diagnostics workers).outcome := by
  have hdecided := build_decided hroom diagnostics workers
  generalize (s.build net schedule diagnostics workers).outcome = outcome at hdecided
  refine
    { succeeds_iff := ⟨?succeeds, ?faultless⟩
      invalid := fun _ hinvalid => hdecided.of_invalid hinvalid
      unplaced := ?unplaced
      unplaced_first := ?unplaced_first
      blocked := ?blocked
      no_mismatch := ?no_mismatch
      no_duplicate_link := ?no_duplicate_link
      no_unknown_node := ?no_unknown_node }
  case succeeds =>
    rintro ⟨store, rfl⟩
    cases hdecided with
    | done hvalid hrefine hnone =>
      exact ⟨hvalid, refineRoutes_placed hrefine, _, hrefine,
        (find?_blocked_eq_none_iff hnet.consistent).1 hnone⟩
  case faultless =>
    rintro ⟨hvalid, -, pending, hrefine, hfree⟩
    exact hdecided.of_none_blocked hvalid hrefine
      ((find?_blocked_eq_none_iff hnet.consistent).2 hfree)
  case unplaced =>
    intro hvalid hlacks
    obtain ⟨line, route, o, hroute, ho, -, houtcome⟩ := hdecided.of_unplaced hvalid hlacks
    exact ⟨line, route, o, hroute, ho, houtcome⟩
  case unplaced_first =>
    intro hvalid o ho hsole
    obtain ⟨line, route, o', hroute, ho', hfirst, houtcome⟩ :=
      hdecided.of_unplaced hvalid ⟨o, unplaced_of_find? ho⟩
    have hsame : o' = o := by
      rcases hsole with hone | hsole
      · exact Option.some.inj ((hfirst hone).symm.trans ho)
      · exact hsole line route o' hroute ho'
    rwa [← hsame]
  case blocked =>
    rintro hvalid pending hrefine before p after rfl hbefore hp
    refine hdecided.of_blocked hvalid hrefine ?_
    rw [List.find?_append, (find?_blocked_eq_none_iff hnet.consistent).2 hbefore,
      List.find?_cons, (PendingStop.blocked_eq_true_iff hnet.consistent).2 hp]
    rfl
  case no_mismatch =>
    rintro link previous current rfl
    cases hdecided
  case no_duplicate_link =>
    rintro id rfl
    cases hdecided
  case no_unknown_node =>
    rintro link node rfl
    cases hdecided

/-! ## A stop out of reach -/

/-- The triangle with a node that has the name of a made-up one. -/
def takenTriangle : Network Double := Network.triangle.after [.node "pt_far" ⟨1, 1⟩]

/-- A route that stops twice at a facility far from all links. -/
def farRoute : Route Double where
  id := "far"
  mode := "bus"
  stops :=
    [{ facility := { id := "far", position := some ⟨9000, 9000⟩ }, departure := some 0 },
      { facility := { id := "far", position := some ⟨9000, 9000⟩ }, arrival := some 60 }]

/-- A line with a route along the triangle and one far from it. -/
def farSchedule : Schedule Double :=
  .ofLines [{ id := "line", routes := [triangleRoute, farRoute] }]

/-- The stop out of reach makes a build fail where the name of its loop link is taken. -/
theorem build_first_fault_far :
    takenTriangle.Reachable ∧ triangleSettings.HasRoom takenTriangle farSchedule ∧
      triangleSettings.FirstFault takenTriangle farSchedule
        (triangleSettings.build takenTriangle farSchedule .empty).outcome ∧
      (triangleSettings.build takenTriangle farSchedule .empty).outcome =
        .error (.network (.duplicateNode "pt_far")) := by
  have hreach : takenTriangle.Reachable :=
    (Network.Reachable.ofParts Network.ofParts_triangle).after _
  have hroom : triangleSettings.HasRoom takenTriangle farSchedule :=
    hasRoom_of_room ⟨by decide +kernel, by decide +kernel⟩
  have herror : (match (triangleSettings.build takenTriangle farSchedule .empty).outcome with
      | .ok _ => none
      | .error e => some e) = some (.network (.duplicateNode "pt_far")) := by decide +kernel
  have hfault := build_first_fault hreach hroom .empty (.inOrder _ _ _)
  refine ⟨hreach, hroom, hfault, ?_⟩
  cases houtcome : (triangleSettings.build takenTriangle farSchedule .empty).outcome with
  | ok store =>
    rw [houtcome] at herror
    cases herror
  | error e =>
    rw [houtcome] at herror
    exact congrArg Except.error (Option.some.inj herror)

/-! ## Two routes without positions -/

/-- A bus route with one stop, which has no position. -/
def lostRoute (id facility : String) : Route Double where
  id
  mode := "bus"
  stops := [{ facility := { id := facility } }]

/-- A line with two such routes; the one of the greater id comes first. -/
def lostLine : Line Double := { id := "line", routes := [lostRoute "r2" "f2", lostRoute "r1" "f1"] }

/-- The settings of the triangle for two workers. -/
def twoWorkers : Settings Double := { triangleSettings with threads := 2 }

theorem routes_lostLine :
    (Schedule.ofLines [lostLine]).routes =
      [(lostLine, lostRoute "r2" "f2"), (lostLine, lostRoute "r1" "f1")] := rfl

/-- Both routes are begun at once, and the second one is the first to fail. -/
def overtaken : twoWorkers.Refinement .triangle (Schedule.ofLines [lostLine]).routes where
  begun := (Schedule.ofLines [lostLine]).routes
  outcome := .error (.missingCoordinate "f1" "r1")
  events := []
  begun_sublist := .refl _
  refined _ h := by cases h
  failed e h := by
    obtain rfl := Except.error.inj h
    exact ⟨lostLine, lostRoute "r1" "f1", by simp [routes_lostLine], rfl⟩
  interleaved := .done (by decide +kernel)
  alone h := absurd h (by decide)

/-- Two routes lack a position, and two workers may come upon either of them first: there is no stop
whose error all builds give. A single worker always gives that of the route which its line lists
first, here the one of the greater id. -/
theorem no_stop_decides_lost :
    Network.triangle.Reachable ∧ twoWorkers.HasRoom .triangle (.ofLines [lostLine]) ∧
      (¬ ∃ o : Occurrence Double, ∀ workers,
        (twoWorkers.build .triangle (.ofLines [lostLine]) .empty workers).outcome =
          .error (.candidate (.missingCoordinate o.facility.id o.route))) ∧
      ∀ workers, (triangleSettings.build .triangle (.ofLines [lostLine]) .empty workers).outcome =
        .error (.candidate (.missingCoordinate "f2" "r2")) := by
  have hroom (s : Settings Double) : s.HasRoom .triangle (.ofLines [lostLine]) :=
    hasRoom_of_room ⟨by decide +kernel, by decide +kernel⟩
  refine ⟨.ofParts Network.ofParts_triangle, hroom twoWorkers, ?_, fun workers => ?_⟩
  · rintro ⟨o, hall⟩
    have hfirst : (twoWorkers.build .triangle (.ofLines [lostLine]) .empty).outcome =
        .error (.candidate (.missingCoordinate "f2" "r2")) := rfl
    have hsecond : (twoWorkers.build .triangle (.ofLines [lostLine]) .empty overtaken).outcome =
        .error (.candidate (.missingCoordinate "f1" "r1")) := rfl
    have hsame := Except.error.inj ((hall _).symm.trans hfirst)
    have hsame' := Except.error.inj ((hall _).symm.trans hsecond)
    exact absurd (hsame.symm.trans hsame') (by decide)
  · have hvalid : triangleSettings.validate = .ok () := rfl
    have hdecided := build_decided (hroom triangleSettings) .empty workers
    have hlost : (Schedule.ofLines [lostLine]).unplaced?.map (fun o => (o.facility.id, o.route)) =
        some ("f2", "r2") := rfl
    obtain ⟨o, ho, hid⟩ := Option.map_eq_some_iff.1 hlost
    obtain ⟨-, -, o', -, -, hfirst, houtcome⟩ :=
      hdecided.of_unplaced hvalid ⟨o, unplaced_of_find? ho⟩
    obtain rfl : o' = o := Option.some.inj ((hfirst rfl).symm.trans ho)
    obtain ⟨hfacility, hroute⟩ := Prod.mk.inj hid
    rw [houtcome, hfacility, hroute]

end Settings

end TransitMatching
