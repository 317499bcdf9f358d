import TransitMatching.Proofs.Network.Chains
import TransitMatching.Proofs.Number.Sum
import TransitMatching.Proofs.Routing.Memory
import TransitMatching.Proofs.Routing.Router
import TransitMatching.Proofs.Routing.Thread

/-!
# The answers of routers

An answer names nodes and links that belong together: the links are the cheapest ones
between its nodes for the departure of the query, and its cost and time are theirs.

* `Router.Fits`: what a path says about a query that it answers.
* `Router.search_fits`: every search finds a path that does.
* `Router.answer_after_fits`: **every answer does, whatever has been asked before.**
-/

namespace TransitMatching.Router

variable {α : Type} [Scalar α]

/-- A link of the graph that leads from one node to another. -/
structure Joins (r : Router α) (n m : NodeIx) (ix : LinkIx) : Prop where
  mem : ix ∈ r.graph.links
  source : (r.network.link ix).source = n
  target : (r.network.link ix).target = m

/-- Of the links of the graph from one node to another the one of least cost for a departure, and
among equals the one of lowest number. -/
structure Cheapest (r : Router α) (departure : Option LinkIx) (n m : NodeIx) (ix : LinkIx) :
    Prop where
  joins : r.Joins n m ix
  least : ∀ other, r.Joins n m other →
    Scalar.order (r.linkCost departure ix) (r.linkCost departure other) = .lt ∨
      Scalar.order (r.linkCost departure ix) (r.linkCost departure other) = .eq ∧ ix ≤ other

/-- The time to travel along links in free flow, added up from zero in their order. -/
def freeFlowTime (r : Router α) (links : List LinkIx) : α :=
  links.foldl
    (fun sum ix => sum + (r.network.link ix).length / (r.network.link ix).freespeed) 0

/-- A path from one node to another, with what it says about its nodes and links. -/
structure Fits (r : Router α) (start goal : NodeIx) (departure : Option LinkIx)
    (p : LeastCostPath α) : Prop where
  origin : p.nodes.head? = some start
  destination : p.nodes.getLast? = some goal
  nodup : p.nodes.Nodup
  length : p.nodes.length = p.links.length + 1
  /-- The links lead from each node to the one after it. -/
  link : ∀ (i : Nat) (n m : NodeIx) (ix : LinkIx), p.nodes[i]? = some n → p.nodes[i + 1]? = some m →
    p.links[i]? = some ix → r.Cheapest departure n m ix
  cost : p.cost = r.totalCost departure p.links
  time : p.time = r.freeFlowTime p.links

variable {r : Router α} {departure : Option LinkIx}

theorem mem_arcs_iff {a : Arc α} :
    a ∈ r.arcs departure ↔ ∃ ix ∈ r.graph.links, r.arc departure ix = a := by
  unfold arcs
  rw [List.mem_map]
  rfl

/-- The links of arcs of a search give back the arcs. -/
theorem map_arc_link {path : List (Arc α)} (h : ∀ a ∈ path, a ∈ r.arcs departure) :
    (path.map Arc.link).map (r.arc departure) = path := by
  have hback : ∀ a ∈ path, r.arc departure a.link = a := by
    intro a ha
    obtain ⟨ix, -, rfl⟩ := mem_arcs_iff.1 (h a ha)
    rfl
  rw [List.map_map]
  exact (List.map_congr_left hback).trans (List.map_id path)

/-- The link of the cheapest arc between two nodes is the cheapest link between them. -/
theorem cheapest_of_arc {n m : NodeIx} {c : Arc α} (h : Arc.Cheapest (r.arcs departure) n m c) :
    r.Cheapest departure n m c.link := by
  obtain ⟨hmem, hsource, htarget, hleast⟩ := h
  obtain ⟨ix, hix, rfl⟩ := mem_arcs_iff.1 hmem
  refine ⟨⟨hix, hsource, htarget⟩, fun other hother => ?_⟩
  have hle := hleast (r.arc departure other) (mem_arcs_iff.2 ⟨other, hother.mem, rfl⟩)
    hother.source hother.target
  change ((Scalar.order (r.linkCost departure ix) (r.linkCost departure other)).then
    (Ord.compare ix other)).isLE = true at hle
  cases horder : Scalar.order (r.linkCost departure ix) (r.linkCost departure other) with
  | lt => exact .inl horder
  | eq =>
    rw [horder] at hle
    exact .inr ⟨horder, Nat.isLE_compare.1 hle⟩
  | gt =>
    rw [horder] at hle
    cases hle

/-- **A path that a search finds fits the search**, where no link of the graph costs less than
zero. -/
theorem search_fits (hsum : Scalar.SteadySum α) (hzero : (0 : α) ≤ 0)
    (hcost : ∀ ix ∈ r.graph.links, 0 ≤ r.linkCost departure ix) {start goal : NodeIx}
    {p : LeastCostPath α} (hp : r.search start goal departure = some p) :
    r.Fits start goal departure p := by
  unfold search at hp
  split at hp
  · obtain ⟨⟨nodes, cost⟩, hsome, rfl⟩ := Option.map_eq_some_iff.1 hp
    have harcs : ∀ a ∈ r.arcs departure, (0 : α) ≤ a.cost := by
      intro a ha
      obtain ⟨ix, hix, rfl⟩ := mem_arcs_iff.1 ha
      exact hcost ix hix
    obtain ⟨⟨s, hthread⟩, hnodup, rfl⟩ := search?_thread hsum harcs hzero hsome
    refine
      { origin := hthread.head?
        destination := hthread.getLast?
        nodup := hnodup
        length := ?length
        link := ?link
        cost := ?cost
        time := rfl }
    case length =>
      have hlength := hthread.length_eq
      simpa [pathThrough] using hlength
    case link =>
      intro i n m ix hn hm hix
      obtain ⟨c, hc, rfl⟩ : ∃ c, (Arc.between (r.arcs departure) nodes)[i]? = some c ∧
          c.link = ix := by simpa [pathThrough] using hix
      exact cheapest_of_arc (hthread.cheapest i hn hm hc)
    case cost =>
      dsimp only [pathThrough]
      rw [← totalCost_map_arc, map_arc_link fun a ha => Arc.mem_of_mem_between ha]
  · cases hp

/-- **Every answer of a router fits its query**, whatever the router has been asked before. -/
theorem answer_after_fits (settings : Settings Double) (net : Network Double) (key : RouterKey)
    (modes : ModeSet) (shape : Option (Shape Double)) (queries : List (Query Double))
    (q : Query Double)
    (hcost : ∀ ix ∈ (build settings net key modes shape).graph.links,
      0 ≤ (build settings net key modes shape).linkCost q.departure ix)
    {p : LeastCostPath Double}
    (hp : (((build settings net key modes shape).after queries).answer q).path = some p) :
    (build settings net key modes shape).Fits (q.origin net) (q.destination net) q.departure p := by
  have hzero : (0 : Double) ≤ 0 := by decide +kernel
  rw [path_answer_after (recalls_build settings net key modes shape)] at hp
  exact search_fits Double.steadySum hzero hcost hp

/-! ## Turning back on one of two parallel links -/

/-- Two parallel links, one that leads back, and one that is closed to cars. -/
def twinLinks : List (LinkSpec Double) :=
  [{ id := "ab", source := "a", target := "b", length := some 60, modes := .ofList ["car"],
     osmModes := .ofList ["bus"] },
    { id := "twin", source := "a", target := "b", length := some 70, modes := .ofList ["car"],
      osmModes := .ofList ["bus"] },
    { id := "bc", source := "b", target := "c", modes := .ofList ["rail"] },
    { id := "ba", source := "b", target := "a", modes := .ofList ["car"] }]

/-- The network of these links, between the corners of the triangle. -/
def twins : Network Double := (Network.ofParts Network.triangleNodes twinLinks).toOption.getD .empty

/-- A router for buses along the parallel links. Turning back costs more than the longer link. -/
def twinRouter : Router Double :=
  build { costs := { uTurnPenalty := 40, osmFactor := 0.5 } } twins (.shape "along" "bus")
    (.ofList ["car"]) (some { id := "along", points := [⟨0, 0⟩, ⟨60, 0⟩] })

/-- The query that departs from the link that leads back. -/
def turnBack : Query Double := .candidates (.make twins 3 "s" ⟨30, 0⟩) (.make twins 2 "t" ⟨60, 0⟩)

/-- To turn back, the longer link is taken, also when the shorter has been found without a
departure before. -/
theorem answer_after_fits_twins :
    (∀ ix ∈ twinRouter.graph.links, 0 ≤ twinRouter.linkCost turnBack.departure ix) ∧
      ∃ p, ((twinRouter.after [.nodes 0 1, turnBack]).answer turnBack).path = some p ∧
        p.nodes = [0, 1] ∧ p.links = [1] ∧
          twinRouter.Fits (turnBack.origin twins) (turnBack.destination twins) turnBack.departure p := by
  have hcost : ∀ ix ∈ twinRouter.graph.links, 0 ≤ twinRouter.linkCost turnBack.departure ix := by
    decide +kernel
  have hfound : ((twinRouter.after [.nodes 0 1, turnBack]).answer turnBack).path.map
      (fun p => (p.nodes, p.links)) = some ([0, 1], [1]) := by decide +kernel
  obtain ⟨p, hp, hlists⟩ := Option.map_eq_some_iff.1 hfound
  obtain ⟨hnodes, hlinks⟩ := Prod.mk.inj hlists
  exact ⟨hcost, p, hp, hnodes, hlinks, answer_after_fits _ _ _ _ _ _ _ hcost hp⟩

end TransitMatching.Router
