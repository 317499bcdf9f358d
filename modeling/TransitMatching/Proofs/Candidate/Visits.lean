import TransitMatching.Proofs.Candidate.Independence
import TransitMatching.Proofs.Candidate.Provenance

/-!
# Visits that share a key

A route may visit a facility more than once. Only the offsets tell the visits apart: where
they are the same, or there are none, both visits have one key, and the list of the later
one takes the place of the other.

* `Schedule.visits`: the stops of all routes in order, each with the mode of its route.
* `PendingStop.Own`: the links that were left for a visit, or its loop link.
* `Settings.build_visits`: **under the key of a visit is the list of the last visit with that
  key.**
-/

namespace TransitMatching

variable {α : Type} [Scalar α]

/-- The stops of all routes in order, each with the mode of its route. -/
def Schedule.visits (schedule : Schedule α) : List (Mode × Occurrence α) :=
  schedule.routes.flatMap fun (line, route) =>
    (route.occurrences line.id).map fun o => (route.mode, o)

/-- Refinement gives one stop for each visit, in their order. -/
theorem Settings.refineRoutes_visits {s : Settings α} {net : Network α} {schedule : Schedule α}
    {pending : List (PendingStop α)} (h : s.refineRoutes net schedule.routes = .ok pending) :
    List.Forall₂ (fun v p => s.Refines net v.1 v.2 p) schedule.visits pending := by
  obtain ⟨parts, hparts, rfl⟩ := refineRoutes_eq_ok_iff.1 h
  refine List.rel_flatten (List.forall₂_map_left_iff.2 (hparts.imp ?_))
  intro e part hrefine
  exact List.forall₂_map_left_iff.2 (refineRoute_ok hrefine)

namespace PendingStop

variable {net : Network α} {p q : PendingStop α} {c : LinkCandidates α}

/-- A list made of the links that were left for a stop, or of the loop link of its facility where
nothing was left or its mode takes no others. -/
structure Own (net : Network α) (p : PendingStop α) (c : LinkCandidates α) : Prop where
  found : p.settings.artificialOnly = false → p.set.links ≠ [] → c.links.Perm p.set.links
  loop : p.settings.artificialOnly = true ∨ p.set.links = [] → c.OwnLoop net p.facilityId

theorem needsLoopLink_iff :
    p.needsLoopLink = true ↔ p.settings.artificialOnly = true ∨ p.set.links = [] := by
  unfold needsLoopLink RawSet.isEmpty RawSet.links
  rw [Bool.or_eq_true, List.isEmpty_iff, List.map_eq_nil_iff]

/-- The list of a stop that is supplied is its own if it holds the links that serve the stop. -/
theorem own_iff (hnet : net.Consistent) (hp : p.Supplied net) :
    p.Own net c ↔ c.links.Perm (p.servedBy net) := by
  unfold servedBy
  cases hneeds : p.needsLoopLink with
  | true =>
    obtain ⟨ix, hix⟩ := hp hneeds
    have hloop := needsLoopLink_iff.1 hneeds
    rw [if_pos rfl, hix, Option.toList_some, List.perm_singleton]
    constructor
    · intro hown
      obtain ⟨jx, hjx, -, hlinks⟩ := hown.loop hloop
      rw [hlinks, Option.some.inj (hjx.symm.trans hix)]
    · intro hlinks
      refine ⟨fun hsearched hne => ?_, fun _ => ⟨ix, hix, hnet.loopLinks _ _ hix, hlinks⟩⟩
      rw [hsearched] at hloop
      exact absurd hloop (not_or_intro Bool.false_ne_true hne)
  | false =>
    have hfound : ¬ (p.settings.artificialOnly = true ∨ p.set.links = []) := by
      rw [← needsLoopLink_iff, hneeds]
      exact Bool.false_ne_true
    rw [if_neg Bool.false_ne_true]
    constructor
    · intro hown
      obtain ⟨hsearched, hne⟩ := not_or.1 hfound
      exact hown.found (Bool.eq_false_iff.2 hsearched) hne
    · exact fun hlinks => ⟨fun _ _ => hlinks, fun h => absurd h hfound⟩

variable [DecimalText α]

/-- The last of some stops that have a key. -/
def LastAt (stops : List (PendingStop α)) (key : String) (q : PendingStop α) : Prop :=
  ∃ front back, stops = front ++ q :: back ∧ q.occurrence.key = key ∧
    ∀ r ∈ back, r.occurrence.key ≠ key

/-- A stop whose key no later one has is the last with its key. -/
theorem LastAt.eq_of_forall_ne {back : List (PendingStop α)}
    (h : LastAt (p :: back) p.occurrence.key q)
    (hback : ∀ r ∈ back, r.occurrence.key ≠ p.occurrence.key) : q = p := by
  obtain ⟨front, after, hsplit, hkey, -⟩ := h
  cases front with
  | nil => exact (List.cons.inj hsplit).1.symm
  | cons r front =>
    have hq : q ∈ back := by
      rw [(List.cons.inj hsplit).2]
      exact List.mem_append_right _ List.mem_cons_self
    exact absurd hkey (hback q hq)

/-- What a store has for a stop that others come behind: the list of the last of all with its key. -/
structure LastListed (net : Network α) (store : CandidateStore α) (p : PendingStop α)
    (back : List (PendingStop α)) (q : PendingStop α) (c : LinkCandidates α) : Prop where
  last : LastAt (p :: back) p.occurrence.key q
  list : store[p.occurrence.key]? = some c
  own : q.Own net c
  /-- The list is also that of the stop itself exactly if both are served by the same links. -/
  own_iff : p.Own net c ↔ (p.servedBy net).Perm (q.servedBy net)
  kept : (∀ r ∈ back, r.occurrence.key ≠ p.occurrence.key) → p.Own net c

end PendingStop

namespace Settings

variable [DecimalText α] {s : Settings α} {net grown : Network α} {schedule : Schedule α}
  {pending : List (PendingStop α)} {store : CandidateStore α}

/-- The list under the key of a stop is that of the last stop with the key. -/
theorem Listed.lastListed (h : s.Listed net schedule pending grown store)
    (hmanual : s.manual = []) {front back : List (PendingStop α)} {p : PendingStop α}
    (hsplit : pending = front ++ p :: back) : ∃ q c, PendingStop.LastListed grown store p back q c := by
  obtain ⟨earlier, q, later, hlater, hkey, hnone⟩ :=
    exists_last (P := fun q => q.occurrence.key = p.occurrence.key)
      ⟨p, List.mem_cons_self (l := back), rfl⟩
  have hlast : PendingStop.LastAt (p :: back) p.occurrence.key q :=
    ⟨earlier, later, hlater, hkey, hnone⟩
  have hp : p ∈ pending := by simp [hsplit]
  have hq : q ∈ pending := by simp [hsplit, hlater]
  have hlist : store[q.occurrence.key]? = some (q.listing grown) := by
    refine h.list (front ++ earlier) q later ?_ ?_ ?_
    · rw [hsplit, hlater, List.append_assoc]
    · rwa [hkey]
    · rw [hmanual]
      exact fun m hm => absurd hm List.not_mem_nil
  rw [hkey] at hlist
  have hgrown := h.looped.reachable.consistent
  have hlinks := q.links_listing grown
  have hown : q.Own grown (q.listing grown) :=
    (PendingStop.own_iff hgrown (h.supplied q hq)).2 hlinks
  refine ⟨q, q.listing grown,
    { last := hlast
      list := hlist
      own := hown
      own_iff := ?own_iff
      kept := ?kept }⟩
  case own_iff =>
    rw [PendingStop.own_iff hgrown (h.supplied p hp)]
    exact ⟨fun h => h.symm.trans hlinks, fun h => hlinks.trans h.symm⟩
  case kept =>
    intro hback
    rw [hlast.eq_of_forall_ne hback] at hown ⊢
    exact hown

/-- **Under the key of a visit is the list of the last visit with that key**, so a visit has its own
list exactly if the last one with its key is served by the same links. -/
theorem build_visits (hnet : net.Reachable) (hmanual : s.manual = []) {diagnostics : Diagnostics}
    {workers : s.Refinement net schedule.routes}
    (hbuild : (s.build net schedule diagnostics workers).outcome = .ok store) :
    ∃ pending, s.refineRoutes net schedule.routes = .ok pending ∧
      List.Forall₂ (fun v p => s.Refines net v.1 v.2 p) schedule.visits pending ∧
      ∀ front p back, pending = front ++ p :: back → ∃ q c,
        PendingStop.LastListed (s.build net schedule diagnostics workers).network store p back q
          c := by
  obtain ⟨pending, hlisted⟩ := build_listed hnet hbuild
  exact ⟨pending, hlisted.refined, refineRoutes_visits hlisted.refined,
    fun _ _ _ => hlisted.lastListed hmanual⟩

/-! ## Two visits under one key -/

/-- A bus route that stops twice in a row at one facility, without offsets. -/
def revisitRoute : Route Double where
  id := "back"
  mode := "bus"
  stops := .replicate 2 { facility := { id := "s", position := some ⟨20, 5⟩ } }

/-- A line with that route. -/
def revisitSchedule : Schedule Double := .ofLines [{ id := "line", routes := [revisitRoute] }]

/-- Two links are left for the first visit and none for the second, and both have one key. -/
theorem refineRoutes_revisit :
    ((triangleSettings.refineRoutes .triangle revisitSchedule.routes).toOption.map fun pending =>
      pending.map fun p => (p.occurrence.key, p.set.links, p.settings.artificialOnly)) =
        some [("line.back.s.-.-", [0, 3], false), ("line.back.s.-.-", [], false)] := by
  decide +kernel

/-- Only the loop link of the second visit is listed. -/
theorem links_revisit :
    ((triangleSettings.build .triangle revisitSchedule .empty).outcome.toOption.bind fun store =>
      store["line.back.s.-.-"]?.map LinkCandidates.links) = some [4] := by
  decide +kernel

/-- Along the triangle, the list of the second visit is what is stored for both. -/
theorem build_visits_revisit :
    Network.triangle.Reachable ∧ triangleSettings.manual = [] ∧
      ∃ store, (triangleSettings.build .triangle revisitSchedule .empty).outcome = .ok store ∧
      ∃ pending, triangleSettings.refineRoutes .triangle revisitSchedule.routes = .ok pending ∧
        List.Forall₂ (fun v p => triangleSettings.Refines .triangle v.1 v.2 p)
          revisitSchedule.visits pending ∧
        ∀ front p back, pending = front ++ p :: back → ∃ q c, PendingStop.LastListed
          (triangleSettings.build .triangle revisitSchedule .empty).network store p back q c := by
  have hreach : Network.triangle.Reachable := .ofParts Network.ofParts_triangle
  obtain ⟨store, hstore, -⟩ := Option.bind_eq_some_iff.1 links_revisit
  have hbuild := toOption_eq_some_iff.1 hstore
  exact ⟨hreach, rfl, store, hbuild, build_visits hreach rfl hbuild⟩

/-- The first visit has no list of its own: two links were left for it, and stored for it is the one
loop link made up for the second. -/
theorem not_own_revisit :
    ∃ first second store c,
      triangleSettings.refineRoutes .triangle revisitSchedule.routes = .ok [first, second] ∧
      first.set.links = [0, 3] ∧
      (triangleSettings.build .triangle revisitSchedule .empty).outcome = .ok store ∧
      store[first.occurrence.key]? = some c ∧ c.links = [4] ∧
      ¬ first.Own (triangleSettings.build .triangle revisitSchedule .empty).network c := by
  obtain ⟨pending, hpending, hstops⟩ := Option.map_eq_some_iff.1 refineRoutes_revisit
  obtain ⟨first, rest, rfl, hfirst, hrest⟩ := List.map_eq_cons_iff.1 hstops
  obtain ⟨second, none, rfl, -, hnone⟩ := List.map_eq_cons_iff.1 hrest
  obtain rfl := List.map_eq_nil_iff.1 hnone
  simp only [Prod.mk.injEq] at hfirst
  obtain ⟨hkey, hset, hsearched⟩ := hfirst
  obtain ⟨store, hstore, hlinks⟩ := Option.bind_eq_some_iff.1 links_revisit
  obtain ⟨c, hc, hlinks⟩ := Option.map_eq_some_iff.1 hlinks
  refine ⟨first, second, store, c, toOption_eq_some_iff.1 hpending, hset,
    toOption_eq_some_iff.1 hstore, hkey ▸ hc, hlinks, fun hown => ?_⟩
  have hfound := hown.found hsearched (by rw [hset]; exact List.cons_ne_nil _ _)
  rw [hlinks, hset] at hfound
  exact absurd hfound.length_eq (by decide)

end Settings

end TransitMatching
