import TransitMatching.Proofs.Candidate.Effect
import TransitMatching.Proofs.Candidate.Listing

/-!
# Routes do not interfere

Routes are searched and refined in the network as it was given, so what is left for the
stops of a route is the same whichever routes stand beside it. Only then are loop links
made up. The one of a facility may be made up for a stop of another route, and get another
number, but it lies where the facility does.

* `LinkCandidate.Agrees`: candidates that say the same of a link, whatever its number.
* `Build.agrees_listing`: what is listed for a stop in two networks that have grown from one.
* `Settings.build_alone_agrees`: **a route gets the candidates that it would get alone.**
-/

namespace TransitMatching

variable {α : Type}

/-- The schedule of one route. -/
def Schedule.alone (line : String) (route : Route α) : Schedule α :=
  .ofLines [{ id := line, routes := [route] }]

theorem Schedule.routes_alone (line : String) (route : Route α) :
    (Schedule.alone line route).routes = [({ id := line, routes := [route] }, route)] := rfl

/-- Of the elements of a list that have a property there is a last one. -/
theorem exists_last {β : Type} {P : β → Prop} {l : List β} (h : ∃ b ∈ l, P b) :
    ∃ front last back, l = front ++ last :: back ∧ P last ∧ ∀ c ∈ back, ¬ P c := by
  induction l with
  | nil =>
    obtain ⟨b, hb, -⟩ := h
    exact absurd hb List.not_mem_nil
  | cons a rest ih =>
    by_cases hlater : ∃ c ∈ rest, P c
    · obtain ⟨front, last, back, rfl, hlast, hback⟩ := ih hlater
      exact ⟨a :: front, last, back, rfl, hlast, hback⟩
    · obtain ⟨b, hb, hP⟩ := h
      rcases List.mem_cons.1 hb with rfl | hb
      · exact ⟨[], b, rest, rfl, hP, fun c hc hPc => hlater ⟨c, hc, hPc⟩⟩
      · exact absurd ⟨b, hb, hP⟩ hlater

variable [Scalar α]

/-! ## What is said of a link -/

namespace LinkCandidate

/-- Candidates that say the same of links of one id, each in its own network. -/
structure Agrees (net net' : Network α) (a b : LinkCandidate α) : Prop where
  id : (net.link a.link).id = (net'.link b.link).id
  distance : a.distance = b.distance
  priority : a.priority = b.priority
  onRight : a.onRight = b.onRight
  isLoop : a.isLoop = b.isLoop

/-- The score of a candidate without others depends on its distance only. -/
theorem exists_assignPriorities_singleton :
    ∃ sole : α → α, ∀ c : LinkCandidate α,
      assignPriorities [c] = [c.withPriority (sole c.distance)] := by
  refine ⟨fun d => (Scalar.least? [d]).elim 1 fun near =>
    (Scalar.greatest? [d]).elim 1 fun far => score near far d, fun c => ?_⟩
  have hdistances : [c].map distance = [c.distance] := rfl
  unfold assignPriorities
  dsimp only
  rw [hdistances]
  cases Scalar.least? [c.distance] <;> cases Scalar.greatest? [c.distance] <;> rfl

/-- Loop links of one id on one spot agree as candidates of a stop. -/
theorem agrees_make {net net' : Network α} {facility : String} {i j : LinkIx}
    (hi : net.MadeUpFor facility i) (hj : net'.MadeUpFor facility j)
    (hline : net.linkLine i = net'.linkLine j) (key : String) (p : Point α) :
    Agrees net net' (make net i key p) (make net' j key p) := by
  have hloop : (net.link i).source = (net.link i).target := by
    simpa [Link.isLoop] using hi.isLoop
  have hloop' : (net'.link j).source = (net'.link j).target := by
    simpa [Link.isLoop] using hj.isLoop
  have hdistance : net.linkDistance i p = net'.linkDistance j p := by
    rw [Network.linkDistance_eq, Network.linkDistance_eq, if_pos (Nat.le_of_eq hloop),
      if_pos (Nat.le_of_eq hloop'), hline]
  refine
    { id := hi.link_id.trans hj.link_id.symm
      distance := hdistance
      priority := rfl
      onRight := ?_
      isLoop := hi.isLoop.trans hj.isLoop.symm }
  unfold make
  rw [hline]

end LinkCandidate

/-! ## What is listed for a stop -/

namespace Build

variable [DecimalText α] {net grown grown' : Network α} {p : PendingStop α}

/-- The list of a single link. -/
theorem candidates_singleton (net : Network α) (p : PendingStop α) (ix : LinkIx) :
    (candidates net p [ix]).toList =
      LinkCandidate.assignPriorities [LinkCandidate.ofOccurrence net ix p.occurrence p.position] := by
  obtain ⟨sole, hsole⟩ := LinkCandidate.exists_assignPriorities_singleton (α := α)
  unfold candidates
  rw [List.map_singleton, hsole]
  rfl

omit [DecimalText α] in
/-- The loop link of a stop lies on one spot, in whichever network it was made up for a stop at the
position of the facility. -/
theorem Looped.linkLine_eq {stops stops' : List (PendingStop α)} (hnet : net.Consistent)
    (h : Looped net stops grown) (h' : Looped net stops' grown')
    (hplace : ∀ q ∈ stops, q.facilityId = p.facilityId → q.position = p.position)
    (hplace' : ∀ q ∈ stops', q.facilityId = p.facilityId → q.position = p.position)
    {i j : LinkIx} (hi : grown.existingLoopLink? p.facilityId = some i)
    (hj : grown'.existingLoopLink? p.facilityId = some j) :
    grown.linkLine i = grown'.linkLine j := by
  cases hold : net.existingLoopLink? p.facilityId with
  | some k =>
    -- The link was registered before, so it is the same in both.
    obtain rfl : k = i := Option.some.inj ((h.registered _ _ hold).symm.trans hi)
    obtain rfl : k = j := Option.some.inj ((h'.registered _ _ hold).symm.trans hj)
    have hlt := (hnet.loopLinks _ _ hold).lt
    rw [h.kept.linkLine hnet hlt, h'.kept.linkLine hnet hlt]
  | none =>
    obtain ⟨q, hq, hfacility, hline⟩ := h.made _ _ hold hi
    obtain ⟨q', hq', hfacility', hline'⟩ := h'.made _ _ hold hj
    rw [hline, hline', hplace q hq hfacility, hplace' q' hq' hfacility']

/-- **What is listed for a stop does not depend on the other stops**, as long as all stops of its
facility are at one position. -/
theorem agrees_listing {stops stops' : List (PendingStop α)} (hnet : net.Consistent)
    (h : Looped net stops grown) (h' : Looped net stops' grown')
    (hset : ∀ ix ∈ p.set.links, ix < net.links.size)
    (hplace : ∀ q ∈ stops, q.facilityId = p.facilityId → q.position = p.position)
    (hplace' : ∀ q ∈ stops', q.facilityId = p.facilityId → q.position = p.position)
    (hp : p.Supplied grown) (hp' : p.Supplied grown') :
    List.Forall₂ (LinkCandidate.Agrees grown grown') (p.listing grown).toList
      (p.listing grown').toList := by
  unfold PendingStop.listing PendingStop.servedBy
  cases hneeds : p.needsLoopLink with
  | false =>
    rw [if_neg Bool.false_ne_true, if_neg Bool.false_ne_true, candidates_extends h.kept hnet hset,
      candidates_extends h'.kept hnet hset]
    refine List.forall₂_same.2 fun c hc => ⟨?_, rfl, rfl, rfl, rfl⟩
    obtain ⟨ix, hix, priority, rfl⟩ := exists_of_mem_candidates hc
    change (grown.link ix).id = (grown'.link ix).id
    rw [h.kept.link ix (hset ix hix), h'.kept.link ix (hset ix hix)]
  | true =>
    obtain ⟨i, hi⟩ := hp hneeds
    obtain ⟨j, hj⟩ := hp' hneeds
    have hagrees := LinkCandidate.agrees_make (h.reachable.consistent.loopLinks _ _ hi)
      (h'.reachable.consistent.loopLinks _ _ hj) (h.linkLine_eq hnet h' hplace hplace' hi hj)
      p.occurrence.key p.position
    -- A candidate without others scores by its distance, which is the same.
    obtain ⟨sole, hsole⟩ := LinkCandidate.exists_assignPriorities_singleton (α := α)
    rw [if_pos rfl, if_pos rfl, hi, hj, Option.toList_some, Option.toList_some,
      candidates_singleton, candidates_singleton, hsole, hsole]
    refine .cons ⟨hagrees.id, hagrees.distance, ?_, hagrees.onRight, hagrees.isLoop⟩ .nil
    exact congrArg sole hagrees.distance

end Build

/-! ## A route beside others -/

namespace Settings

variable {s : Settings α} {net : Network α} {schedule : Schedule α}

/-- Routes are refined one by one: each gives its part of the stops. -/
theorem refineRoutes_split {before after : List (Line α × Route α)} {line : Line α}
    {route : Route α} {pending : List (PendingStop α)}
    (h : s.refineRoutes net (before ++ (line, route) :: after) = .ok pending) :
    ∃ front part back, s.refineRoutes net before = .ok front ∧
      s.refineRoute net line.id route = .ok part ∧ s.refineRoutes net after = .ok back ∧
        pending = front ++ (part ++ back) := by
  obtain ⟨parts, hparts, rfl⟩ := refineRoutes_eq_ok_iff.1 h
  clear h
  induction before generalizing parts with
  | nil =>
    obtain ⟨part, back, hpart, hback, rfl⟩ := List.forall₂_cons_left_iff.1 hparts
    exact ⟨[], part, back.flatten, refineRoutes_eq_ok_iff.2 ⟨[], .nil, rfl⟩, hpart,
      refineRoutes_eq_ok_iff.2 ⟨back, hback, rfl⟩, rfl⟩
  | cons e before ih =>
    obtain ⟨first, rest, hfirst, hrest, rfl⟩ := List.forall₂_cons_left_iff.1 hparts
    obtain ⟨front, part, back, hfront, hpart, hback, hflat⟩ := ih rest hrest
    obtain ⟨fronts, hfronts, rfl⟩ := refineRoutes_eq_ok_iff.1 hfront
    refine ⟨first ++ fronts.flatten, part, back,
      refineRoutes_eq_ok_iff.2 ⟨first :: fronts, .cons hfirst hfronts, rfl⟩, hpart, hback, ?_⟩
    rw [List.flatten_cons, hflat, List.append_assoc]

/-- The stops of the schedule lie where the stops of their facility do. -/
theorem position_eq_of_facility {pending : List (PendingStop α)}
    (h : s.refineRoutes net schedule.routes = .ok pending)
    (hplaces : ∀ o ∈ schedule.occurrences, ∀ o' ∈ schedule.occurrences,
      o.facility.id = o'.facility.id → o.position = o'.position)
    {p q : PendingStop α} (hp : p ∈ pending) (hq : q ∈ pending)
    (hfacility : q.facilityId = p.facilityId) : q.position = p.position := by
  have hoccurrences : pending.map PendingStop.occurrence = schedule.occurrences :=
    map_occurrence_refineRoutes h
  have hmem : ∀ r ∈ pending, r.occurrence ∈ schedule.occurrences := fun r hr =>
    hoccurrences ▸ List.mem_map_of_mem hr
  have hsame := hplaces _ (hmem q hq) _ (hmem p hp) hfacility
  rw [(placed_of_mem_refineRoutes h hq).1, (placed_of_mem_refineRoutes h hp).1] at hsame
  exact Option.some.inj hsame

/-- Alone, a route gives the stops that it gives beside others. -/
theorem refineRoute_of_alone {line : String} {route : Route α} {pending : List (PendingStop α)}
    (h : s.refineRoutes net (Schedule.alone line route).routes = .ok pending) :
    s.refineRoute net line route = .ok pending := by
  rw [Schedule.routes_alone] at h
  obtain ⟨parts, hparts, rfl⟩ := refineRoutes_eq_ok_iff.1 h
  obtain ⟨part, rest, hpart, hrest, rfl⟩ := List.forall₂_cons_left_iff.1 hparts
  obtain rfl := List.forall₂_nil_left_iff.1 hrest
  rw [List.flatten_cons, List.flatten_nil, List.append_nil]
  exact hpart

variable [DecimalText α]

/-- **A route gets the candidates that it would get alone**, up to the numbers of loop links, where no
other route has one of its keys and each facility has one position. -/
theorem build_alone_agrees (hnet : net.Reachable) (hmanual : s.manual = [])
    {before after : List (Line α × Route α)} {line : Line α} {route : Route α}
    (hroutes : schedule.routes = before ++ (line, route) :: after)
    (hplaces : ∀ o ∈ schedule.occurrences, ∀ o' ∈ schedule.occurrences,
      o.facility.id = o'.facility.id → o.position = o'.position)
    (hkeys : ∀ e ∈ before ++ after, ∀ o ∈ e.2.occurrences e.1.id,
      ∀ o' ∈ route.occurrences line.id, o.key ≠ o'.key)
    {diagnostics diagnostics' : Diagnostics} {workers : s.Refinement net schedule.routes}
    {workers' : s.Refinement net (Schedule.alone line.id route).routes}
    {store store' : CandidateStore α}
    (hwhole : (s.build net schedule diagnostics workers).outcome = .ok store)
    (halone : (s.build net (.alone line.id route) diagnostics' workers').outcome = .ok store') :
    ∀ o ∈ route.occurrences line.id, ∃ c c', store[o.key]? = some c ∧ store'[o.key]? = some c' ∧
      List.Forall₂ (LinkCandidate.Agrees (s.build net schedule diagnostics workers).network
        (s.build net (.alone line.id route) diagnostics' workers').network) c.toList c'.toList := by
  obtain ⟨pending, hlisted⟩ := build_listed hnet hwhole
  obtain ⟨part, hlisted'⟩ := build_listed hnet halone
  have hrefined := hlisted.refined
  rw [hroutes] at hrefined
  obtain ⟨front, part', back, -, hpart, hback, rfl⟩ := refineRoutes_split hrefined
  obtain rfl : part = part' :=
    Except.ok.inj ((refineRoute_of_alone hlisted'.refined).symm.trans hpart)
  intro o ho
  have hoccurrences : part.map PendingStop.occurrence = route.occurrences line.id :=
    map_occurrence_of_refines (refineRoute_ok hpart)
  -- Of several stops with the key the last one decides, in both builds.
  obtain ⟨p, hp, hpo⟩ := List.mem_map.1 (hoccurrences ▸ ho)
  obtain ⟨earlier, q, later, rfl, hq, hlater⟩ :=
    exists_last (P := fun q => q.occurrence.key = o.key) ⟨p, hp, congrArg Occurrence.key hpo⟩
  have hother : ∀ r ∈ back, r.occurrence.key ≠ o.key := by
    intro r hr
    have hstops : back.map PendingStop.occurrence =
        after.flatMap fun e => e.2.occurrences e.1.id := map_occurrence_refineRoutes hback
    obtain ⟨e, he, hr⟩ := List.mem_flatMap.1 (hstops ▸ List.mem_map_of_mem hr)
    exact hkeys e (List.mem_append_right _ he) _ hr o ho
  have hlast : ∀ r ∈ later ++ back, r.occurrence.key ≠ q.occurrence.key := by
    intro r hr
    rw [hq]
    exact (List.mem_append.1 hr).elim (hlater r) (hother r)
  have hnone : ∀ stops : List (PendingStop α), ∀ m ∈ s.manual, ∀ r ∈ stops,
      r.occurrence.key = q.occurrence.key →
        m.appliesTo r.occurrence.facility.id r.mode = false := by
    intro stops m hm
    rw [hmanual] at hm
    exact absurd hm List.not_mem_nil
  have hlist := hlisted.list (front ++ earlier) q (later ++ back)
    (by rw [List.append_assoc, List.append_assoc, List.cons_append]) hlast (hnone _)
  have hlist' := hlisted'.list earlier q later rfl
    (fun r hr => hlast r (List.mem_append_left _ hr)) (hnone _)
  have hmem : q ∈ earlier ++ q :: later := List.mem_append_right _ List.mem_cons_self
  have hwithin : ∀ r ∈ earlier ++ q :: later, r ∈ front ++ (earlier ++ q :: later ++ back) :=
    fun r hr => List.mem_append_right _ (List.mem_append_left _ hr)
  have hplace : ∀ r ∈ front ++ (earlier ++ q :: later ++ back), r.facilityId = q.facilityId →
      r.position = q.position := fun r hr hfacility =>
    position_eq_of_facility hlisted.refined hplaces (hwithin q hmem) hr hfacility
  have hset := lt_of_mem_refineRoutes hnet.consistent hlisted'.refined q hmem
  rw [← hq]
  exact ⟨_, _, hlist, hlist', Build.agrees_listing hnet.consistent hlisted.looped hlisted'.looped
    hset hplace (fun r hr => hplace r (hwithin r hr)) (hlisted.supplied q (hwithin q hmem))
    (hlisted'.supplied q hmem)⟩

/-- A route of ferries, for which there are no settings; it ends at the facility out of reach. -/
def ferryRoute : Route Double where
  id := "ferry"
  mode := "ferry"
  stops :=
    [{ facility := { id := "isle", position := some ⟨5000, 0⟩ }, departure := some 0 },
      { facility := { id := "far", position := some ⟨9000, 9000⟩ }, arrival := some 60 }]

/-- A bus route that starts at the triangle, and ends where the ferry does. -/
def feederRoute : Route Double where
  id := "feeder"
  mode := "bus"
  stops :=
    [{ facility := { id := "s", position := some ⟨20, 5⟩ }, departure := some 0 },
      { facility := { id := "far", position := some ⟨9000, 9000⟩ }, arrival := some 60 }]

/-- A line with the ferry and then the bus. -/
def ferryLine : Line Double := { id := "line", routes := [ferryRoute, feederRoute] }

/-- The links that a build along the triangle lists under each key. -/
def triangleLists (schedule : Schedule Double) : Option (List (String × List LinkIx)) :=
  (triangleSettings.build .triangle schedule .empty).outcome.toOption.map fun store =>
    store.toList.map fun e => (e.1, e.2.links)

/-- Beside the ferry, the loop link at the last stop of the bus is made up for the ferry and has
another number; still the bus gets the candidates that it gets alone. -/
theorem build_alone_agrees_ferry :
    Network.triangle.Reachable ∧ triangleSettings.manual = [] ∧
      (Schedule.ofLines [ferryLine]).routes = [(ferryLine, ferryRoute)] ++ [(ferryLine, feederRoute)] ∧
      (∀ o ∈ (Schedule.ofLines [ferryLine]).occurrences,
        ∀ o' ∈ (Schedule.ofLines [ferryLine]).occurrences,
          o.facility.id = o'.facility.id → o.position = o'.position) ∧
      (∀ e ∈ [(ferryLine, ferryRoute)] ++ [], ∀ o ∈ e.2.occurrences e.1.id,
        ∀ o' ∈ feederRoute.occurrences "line", o.key ≠ o'.key) ∧
      triangleLists (.ofLines [ferryLine]) =
        some [("line.feeder.far.60.-", [5]), ("line.feeder.s.-.0", [3, 0]),
          ("line.ferry.far.60.-", [5]), ("line.ferry.isle.-.0", [4])] ∧
      triangleLists (.alone "line" feederRoute) =
        some [("line.feeder.far.60.-", [4]), ("line.feeder.s.-.0", [3, 0])] ∧
      ∃ store store',
        (triangleSettings.build .triangle (.ofLines [ferryLine]) .empty).outcome = .ok store ∧
        (triangleSettings.build .triangle (.alone "line" feederRoute) .empty).outcome = .ok store' ∧
        ∀ o ∈ feederRoute.occurrences "line", ∃ c c', store[o.key]? = some c ∧
          store'[o.key]? = some c' ∧ List.Forall₂ (LinkCandidate.Agrees
            (triangleSettings.build .triangle (.ofLines [ferryLine]) .empty).network
            (triangleSettings.build .triangle (.alone "line" feederRoute) .empty).network)
            c.toList c'.toList := by
  have hroutes : (Schedule.ofLines [ferryLine]).routes =
      [(ferryLine, ferryRoute)] ++ [(ferryLine, feederRoute)] := rfl
  have hplaces : ∀ o ∈ (Schedule.ofLines [ferryLine]).occurrences,
      ∀ o' ∈ (Schedule.ofLines [ferryLine]).occurrences,
        o.facility.id = o'.facility.id → o.position = o'.position := by decide +kernel
  have hkeys : ∀ e ∈ [(ferryLine, ferryRoute)] ++ [], ∀ o ∈ e.2.occurrences e.1.id,
      ∀ o' ∈ feederRoute.occurrences "line", o.key ≠ o'.key := by decide +kernel
  have hwhole : triangleLists (.ofLines [ferryLine]) =
      some [("line.feeder.far.60.-", [5]), ("line.feeder.s.-.0", [3, 0]),
        ("line.ferry.far.60.-", [5]), ("line.ferry.isle.-.0", [4])] := by decide +kernel
  have halone : triangleLists (.alone "line" feederRoute) =
      some [("line.feeder.far.60.-", [4]), ("line.feeder.s.-.0", [3, 0])] := by decide +kernel
  have hreach : Network.triangle.Reachable := .ofParts Network.ofParts_triangle
  obtain ⟨store, hstore, -⟩ := Option.map_eq_some_iff.1 hwhole
  obtain ⟨store', hstore', -⟩ := Option.map_eq_some_iff.1 halone
  have hbuild := toOption_eq_some_iff.1 hstore
  have hbuild' := toOption_eq_some_iff.1 hstore'
  exact ⟨hreach, rfl, hroutes, hplaces, hkeys, hwhole, halone, store, store', hbuild, hbuild',
    build_alone_agrees hreach rfl hroutes hplaces hkeys hbuild hbuild'⟩

end Settings

end TransitMatching
