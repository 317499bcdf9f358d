import TransitMatching.Proofs.Network.Growth
import TransitMatching.Proofs.Number.Real
import TransitMatching.Proofs.Routing.LeastCost
import TransitMatching.Routing.Router

/-!
# Routers find least-cost walks

The graph of a router holds the links that it keeps and nothing else
(`mem_links_ofNetwork`, `contains_ofNetwork`), so walks along arcs of a search are
walks along kept links of the network, at the same cost (`walk_iff`).

* `Router.search_least`: **a router finds a path exactly if kept links lead from one
  node to the other, and the cost of the path is the least of all walks.**
-/

namespace TransitMatching

variable {α : Type} [Scalar α]

namespace Network

/-- A link that is open to one of a set of modes and has both ends in a box, if one is given. -/
structure Kept (net : Network α) (modes : ModeSet) (box : Option (Box α)) (ix : LinkIx) : Prop where
  lt : ix < net.links.size
  mode : ∃ mode, mode ∈ (net.link ix).modes ∧ mode ∈ modes
  within : ∀ b, box = some b → b.Contains (net.position (net.link ix).source) ∧
    b.Contains (net.position (net.link ix).target)

/-- A node at an end of a kept link. -/
def KeptEnd (net : Network α) (modes : ModeSet) (box : Option (Box α)) (n : NodeIx) : Prop :=
  ∃ ix, net.Kept modes box ix ∧ ((net.link ix).source = n ∨ (net.link ix).target = n)

/-- A walk along kept links from one node to another. -/
inductive LinkWalk (net : Network α) (modes : ModeSet) (box : Option (Box α)) :
    NodeIx → NodeIx → List LinkIx → Prop where
  | nil (n : NodeIx) : LinkWalk net modes box n n []
  | snoc {n : NodeIx} {ix : LinkIx} {links : List LinkIx} :
    LinkWalk net modes box n (net.link ix).source links → net.Kept modes box ix →
      LinkWalk net modes box n (net.link ix).target (links ++ [ix])

end Network

namespace RoutingGraph

variable {net : Network α} {modes : ModeSet} {box : Option (Box α)}

theorem mem_links_ofNetwork {ix : LinkIx} :
    ix ∈ (ofNetwork net modes box).links ↔ net.Kept modes box ix := by
  simp only [ofNetwork, keeps, List.mem_filter, List.mem_range, Bool.and_eq_true]
  constructor
  · rintro ⟨hlt, hmode, hbox⟩
    refine ⟨hlt, ModeSet.meets_iff.1 hmode, ?_⟩
    rintro b rfl
    simpa using hbox
  · rintro ⟨hlt, hmode, hbox⟩
    refine ⟨hlt, ModeSet.meets_iff.2 hmode, ?_⟩
    cases box with
    | none => rfl
    | some b => simpa using hbox b rfl

theorem contains_ofNetwork {n : NodeIx} :
    (ofNetwork net modes box).contains n = true ↔ net.KeptEnd modes box n := by
  have hnodes : (ofNetwork net modes box).nodes =
      ((ofNetwork net modes box).links.flatMap fun ix =>
        [(net.link ix).source, (net.link ix).target]).eraseDups := rfl
  rw [contains, List.contains_iff_mem, hnodes, List.mem_eraseDups, List.mem_flatMap]
  refine exists_congr fun ix => and_congr mem_links_ofNetwork ?_
  rw [List.mem_cons, List.mem_singleton, eq_comm, @eq_comm _ n]

end RoutingGraph

namespace Router

variable {r : Router α} {modes : ModeSet} {box : Option (Box α)} {departure : Option LinkIx}

/-- A link with its cost for a query. -/
def arc (r : Router α) (departure : Option LinkIx) (ix : LinkIx) : Arc α where
  link := ix
  source := (r.network.link ix).source
  target := (r.network.link ix).target
  cost := r.linkCost departure ix

/-- The costs of links for a query, added up from zero in their order. -/
def totalCost (r : Router α) (departure : Option LinkIx) (links : List LinkIx) : α :=
  links.foldl (fun sum ix => sum + r.linkCost departure ix) 0

theorem totalCost_map_arc (r : Router α) (departure : Option LinkIx) (links : List LinkIx) :
    Arc.totalCost (links.map (r.arc departure)) = r.totalCost departure links := by
  simp [Arc.totalCost, totalCost, arc, List.foldl_map]

theorem mem_arcs (hgraph : r.graph = .ofNetwork r.network modes box) {a : Arc α} :
    a ∈ r.arcs departure ↔ ∃ ix, r.network.Kept modes box ix ∧ r.arc departure ix = a := by
  unfold arcs
  rw [hgraph, List.mem_map]
  exact exists_congr fun ix => and_congr_left' RoutingGraph.mem_links_ofNetwork

/-- **Walks along the arcs of a search are walks along kept links.** -/
theorem walk_iff (hgraph : r.graph = .ofNetwork r.network modes box) {n m : NodeIx}
    {path : List (Arc α)} :
    Walk (r.arcs departure) n m path ↔
      ∃ links, r.network.LinkWalk modes box n m links ∧ links.map (r.arc departure) = path := by
  constructor
  · intro h
    induction h with
    | nil => exact ⟨[], .nil _, rfl⟩
    | snoc _ ha ih =>
      obtain ⟨links, hlinks, rfl⟩ := ih
      obtain ⟨ix, hix, rfl⟩ := (mem_arcs hgraph).1 ha
      exact ⟨links ++ [ix], .snoc hlinks hix, by rw [List.map_append]; rfl⟩
  · rintro ⟨links, hlinks, rfl⟩
    induction hlinks with
    | nil => exact .nil _
    | @snoc ix links _ hix ih =>
      rw [List.map_append]
      exact Walk.snoc (a := r.arc departure ix) ih ((mem_arcs hgraph).2 ⟨ix, hix, rfl⟩)

theorem contains_iff (hgraph : r.graph = .ofNetwork r.network modes box) {n : NodeIx} :
    r.contains n = true ↔ r.network.KeptEnd modes box n := by
  rw [contains, hgraph, RoutingGraph.contains_ofNetwork]

/-- The least cost along arcs of a search is the least cost along kept links. -/
theorem leastCost_iff (hgraph : r.graph = .ofNetwork r.network modes box) {start goal : NodeIx}
    {cost : α} :
    LeastCost (r.arcs departure) start goal cost ↔
      (∃ links, r.network.LinkWalk modes box start goal links ∧
        r.totalCost departure links = cost) ∧
      ∀ links, r.network.LinkWalk modes box start goal links →
        cost ≤ r.totalCost departure links := by
  constructor
  · rintro ⟨⟨path, hpath, htotal⟩, hleast⟩
    obtain ⟨links, hlinks, rfl⟩ := (walk_iff hgraph).1 hpath
    rw [totalCost_map_arc] at htotal
    refine ⟨⟨links, hlinks, htotal⟩, fun other hother => ?_⟩
    rw [← totalCost_map_arc]
    exact hleast _ ((walk_iff hgraph).2 ⟨other, hother, rfl⟩)
  · rintro ⟨⟨links, hlinks, htotal⟩, hleast⟩
    refine ⟨⟨_, (walk_iff hgraph).2 ⟨links, hlinks, rfl⟩, ?_⟩, fun path hpath => ?_⟩
    · rw [totalCost_map_arc, htotal]
    · obtain ⟨other, hother, rfl⟩ := (walk_iff hgraph).1 hpath
      rw [totalCost_map_arc]
      exact hleast other hother

/-- **A router finds a path exactly if kept links lead from one node to the other**, and then its
cost is the least of all walks along such links. -/
theorem search_least (hsum : Scalar.MonotoneSum α)
    (hgraph : r.graph = .ofNetwork r.network modes box)
    (hcost : ∀ ix, r.network.Kept modes box ix → 0 ≤ r.linkCost departure ix)
    (start goal : NodeIx) :
    ((r.search start goal departure).isSome = true ↔
      r.network.KeptEnd modes box start ∧ r.network.KeptEnd modes box goal ∧
        ∃ links, r.network.LinkWalk modes box start goal links) ∧
    ∀ p, r.search start goal departure = some p →
      (∃ links, r.network.LinkWalk modes box start goal links ∧
        r.totalCost departure links = p.cost) ∧
      (∀ links, r.network.LinkWalk modes box start goal links →
        p.cost ≤ r.totalCost departure links) ∧
      (start = goal → p.nodes = [start] ∧ p.links = [] ∧ p.cost = 0) := by
  unfold search
  by_cases hends : (r.contains start && r.contains goal) = true
  · rw [if_pos hends]
    rw [Bool.and_eq_true, contains_iff hgraph, contains_iff hgraph] at hends
    obtain ⟨hstart, hgoal⟩ := hends
    have harcs : ∀ a ∈ r.arcs departure, (0 : α) ≤ a.cost := by
      intro a ha
      obtain ⟨ix, hix, rfl⟩ := (mem_arcs hgraph).1 ha
      exact hcost ix hix
    -- A node of the graph is at the end of a link, whose cost compares with zero.
    have hzero : (0 : α) ≤ 0 := by
      obtain ⟨ix, hix, -⟩ := hstart
      exact (Scalar.number_of_le (hcost ix hix)).1
    dsimp only
    rcases search?_least hsum harcs hzero start goal with ⟨hnone, hno⟩ | ⟨nodes, cost, hsome, hleast⟩
    · rw [hnone]
      refine ⟨iff_of_false Bool.false_ne_true ?_, fun p hp => by cases hp⟩
      rintro ⟨-, -, links, hlinks⟩
      exact hno _ ((walk_iff hgraph).2 ⟨links, hlinks, rfl⟩)
    · rw [hsome, Option.map_some]
      obtain ⟨⟨links, hlinks, htotal⟩, hbound⟩ := (leastCost_iff hgraph).1 hleast
      refine ⟨iff_of_true rfl ⟨hstart, hgoal, links, hlinks⟩, fun p hp => ?_⟩
      obtain rfl := Option.some.inj hp
      refine ⟨⟨links, hlinks, htotal⟩, hbound, ?_⟩
      rintro rfl
      rw [search?_self] at hsome
      cases hsome
      exact ⟨rfl, rfl, rfl⟩
  · rw [if_neg hends]
    rw [Bool.and_eq_true, contains_iff hgraph, contains_iff hgraph] at hends
    refine ⟨iff_of_false Bool.false_ne_true ?_, fun p hp => by cases hp⟩
    rintro ⟨hstart, hgoal, -⟩
    exact hends ⟨hstart, hgoal⟩

/-! ## Two ways along a street -/

/-- A link along the street. -/
def streetLink (id : String) (length : ℝ) : Link ℝ where
  id
  source := 0
  target := 1
  length
  freespeed := 1
  capacity := 1
  modes := .ofList ["car"]
  osmModes := ∅
  artificial := false

/-- A street with two parallel links. -/
noncomputable def street : Network ℝ :=
  (((Network.empty.withPlace "a" ⟨0, 0⟩).withPlace "b" ⟨1, 0⟩).withLink
    (streetLink "detour" 3)).withLink (streetLink "direct" 2)

/-- A router for buses along the street. -/
noncomputable def streetRouter : Router ℝ where
  key := .mode "bus"
  network := street
  model := { costType := .length }
  graph := .ofNetwork street (.ofList ["car"]) none

theorem linkCost_streetRouter (ix : LinkIx) :
    streetRouter.linkCost none ix = (street.link ix).length := by
  have h : streetRouter.linkCost none ix = (street.link ix).length * 1 + 0 := rfl
  rw [h]
  exact (add_zero _).trans (mul_one _)

theorem length_street {ix : LinkIx} (hix : ix < street.links.size) :
    0 ≤ (street.link ix).length := by
  have hsize : street.links.size = 2 := rfl
  rw [hsize] at hix
  match ix, hix with
  | 0, _ => exact (by norm_num : (0 : ℝ) ≤ 3)
  | 1, _ => exact (by norm_num : (0 : ℝ) ≤ 2)

/-- The router finds a way along the street that is no longer than the shorter link. -/
theorem search_least_street :
    (∀ ix, street.Kept (.ofList ["car"]) none ix → 0 ≤ streetRouter.linkCost none ix) ∧
      ∃ p, streetRouter.search 0 1 none = some p ∧ p.cost ≤ 2 := by
  have hcost : ∀ ix, street.Kept (.ofList ["car"]) none ix →
      0 ≤ streetRouter.linkCost none ix := by
    intro ix hix
    rw [linkCost_streetRouter]
    exact length_street hix.lt
  have hdirect : street.Kept (.ofList ["car"]) none 1 :=
    ⟨by decide, ⟨"car", by decide, by decide⟩, fun b hb => by cases hb⟩
  have hwalk : street.LinkWalk (.ofList ["car"]) none 0 1 [1] := .snoc (.nil 0) hdirect
  obtain ⟨hfound, hleast⟩ := search_least monotoneSum_real (r := streetRouter) rfl hcost 0 1
  obtain ⟨p, hp⟩ := Option.isSome_iff_exists.1 <|
    hfound.2 ⟨⟨1, hdirect, .inl rfl⟩, ⟨1, hdirect, .inr rfl⟩, [1], hwalk⟩
  refine ⟨hcost, p, hp, ?_⟩
  have hbound := (hleast p hp).2.1 [1] hwalk
  have htotal : streetRouter.totalCost none [1] = 0 + streetRouter.linkCost none 1 := rfl
  rw [htotal, linkCost_streetRouter] at hbound
  exact hbound.trans (zero_add (2 : ℝ)).le

end Router

end TransitMatching
