import TransitMatching.Proofs.Candidate.Independence
import TransitMatching.Proofs.Routing.Recollection
import TransitMatching.Proofs.Routing.Router
import TransitMatching.Routing.Cache

/-!
# Routers cover the candidates

The links found for a stop are open to one of the network modes of its schedule mode,
and loop links are open to the mode of what is made up. The router of the schedule mode
keeps both, so it has the ends of every candidate that was computed for its routes, and
it goes on having them whatever it is asked.

* `Network.Reachable.marksArtificial`: what is made up is open to its mode.
* `RouterCache.after`: a cache after requests for routers and queries to them.
* `RouterCache.Holds`: such a cache holds routers that are alike new ones.
* `Settings.Listed.kept`: the links of candidates, by the modes they are open to.
* `Settings.routerFor_covers`: **the router of a route's mode has both ends of its candidates.**
-/

namespace TransitMatching

variable {α : Type} [Scalar α]

/-! ## The mode of made-up links -/

namespace Network

/-- All links that were made up are open to the artificial mode. -/
def MarksArtificial (net : Network α) : Prop :=
  ∀ ix < net.links.size, (net.link ix).artificial = true → Mode.artificial ∈ (net.link ix).modes

/-- **In a reachable network all links that were made up are open to the artificial mode.** -/
theorem Reachable.marksArtificial {net : Network α} (h : net.Reachable) : net.MarksArtificial :=
  h.forall_link (P := fun l => l.artificial = true → Mode.artificial ∈ l.modes)
    (fun _ _ _ _ _ hfalse => absurd hfalse Bool.false_ne_true)
    fun _ _ _ _ => Std.TreeSet.mem_insert_self

end Network

/-! ## Caches in use -/

namespace RouterCache

variable {c c₀ : RouterCache α}

/-- What is done with a cache. -/
inductive Use (α : Type) where
  /-- The router of a key is asked for. -/
  | request (key : RouterKey)
  /-- The router of a key is asked for and then answers a query. -/
  | query (key : RouterKey) (q : Router.Query α)

/-- The cache after it has been used. -/
def afterUse (c : RouterCache α) : Use α → RouterCache α
  | .request key => (c.routerFor key).2.1
  | .query key q => (c.routerFor key).2.1.store ((c.routerFor key).1.answer q).router

/-- The cache after it has been used several times. -/
def after (c : RouterCache α) (uses : List (Use α)) : RouterCache α := uses.foldl afterUse c

/-- A cache that was made like another one, and whose routers are alike those that the other one
builds. -/
structure Holds (c₀ c : RouterCache α) : Prop where
  network : c.network = c₀.network
  settings : c.settings = c₀.settings
  shapes : c.shapes = c₀.shapes
  routers : ∀ key r, c.routers.get? key = some r →
    r.key = key ∧ Router.Recalls (c₀.build key).1 r

theorem build_key (c : RouterCache α) (key : RouterKey) : (c.build key).1.key = key := by
  unfold build
  cases key with
  | mode m => rfl
  | shape id m =>
    dsimp only
    cases c.shape? id with
    | some shape => rfl
    | none => rfl

theorem recalls_build (c : RouterCache α) (key : RouterKey) :
    Router.Recalls (c.build key).1 (c.build key).1 := by
  unfold build
  cases key with
  | mode m => exact Router.recalls_build _ _ _ _ _
  | shape id m =>
    dsimp only
    cases c.shape? id with
    | some shape => exact Router.recalls_build _ _ _ _ _
    | none => exact Router.recalls_build _ _ _ _ _

theorem Holds.build (h : Holds c₀ c) (key : RouterKey) : c.build key = c₀.build key := by
  unfold RouterCache.build shape?
  rw [h.network, h.settings, h.shapes]

theorem Holds.store (h : Holds c₀ c) {r : Router α} (hr : Router.Recalls (c₀.build r.key).1 r) :
    Holds c₀ (c.store r) where
  network := h.network
  settings := h.settings
  shapes := h.shapes
  routers key r' hr' := by
    unfold RouterCache.store at hr'
    rw [Table.get?_put] at hr'
    split at hr'
    · next heq =>
      obtain rfl := Option.some.inj hr'
      exact ⟨heq, heq ▸ hr⟩
    · exact h.routers key r' hr'

/-- The router that is handed out for a key is alike a new one, and the cache stays what it is. -/
theorem Holds.routerFor (h : Holds c₀ c) (key : RouterKey) :
    (c.routerFor key).1.key = key ∧ Router.Recalls (c₀.build key).1 (c.routerFor key).1 ∧
      Holds c₀ (c.routerFor key).2.1 := by
  unfold RouterCache.routerFor
  cases hget : c.routers.get? key with
  | some r =>
    obtain ⟨hkey, hr⟩ := h.routers key r hget
    exact ⟨hkey, hr, h⟩
  | none =>
    have hkey := c.build_key key
    have hrecalls := c.recalls_build key
    rw [h.build] at hkey hrecalls
    refine ⟨(h.build key).symm ▸ hkey, (h.build key).symm ▸ hrecalls, ?_⟩
    dsimp only
    rw [h.build]
    exact h.store (by rwa [hkey])

theorem Holds.afterUse (h : Holds c₀ c) (use : Use α) : Holds c₀ (c.afterUse use) := by
  cases use with
  | request key => exact (h.routerFor key).2.2
  | query key q =>
    obtain ⟨hkey, hrecalls, hnext⟩ := h.routerFor key
    refine hnext.store ?_
    rw [(Router.asked_answer _ q).key, hkey]
    exact (hrecalls.answer q).2

theorem Holds.after (h : Holds c₀ c) (uses : List (Use α)) : Holds c₀ (c.after uses) := by
  induction uses generalizing c with
  | nil => exact h
  | cons use uses ih => exact ih (h.afterUse use)

theorem holds_make (network : Network α) (settings : Settings α) (shapes : List (Shape α)) :
    Holds (make network settings shapes) (make network settings shapes) where
  network := rfl
  settings := rfl
  shapes := rfl
  routers key r hr := by cases (Table.get?_empty key).symm.trans hr

end RouterCache

/-! ## Candidates that were computed -/

namespace PendingStop

/-- What serves a stop: its loop link if it needs one, and else links that were found for it. -/
theorem mem_servedBy {net : Network α} {p : PendingStop α} {ix : LinkIx}
    (h : ix ∈ p.servedBy net) :
    p.needsLoopLink = true ∧ net.existingLoopLink? p.facilityId = some ix ∨
      p.needsLoopLink = false ∧ ix ∈ p.set.links := by
  unfold servedBy at h
  cases hneeds : p.needsLoopLink with
  | true =>
    rw [hneeds] at h
    exact .inl ⟨rfl, Option.mem_toList.1 h⟩
  | false =>
    rw [hneeds] at h
    exact .inr ⟨rfl, h⟩

end PendingStop

namespace Settings

variable {s : Settings α} {net : Network α} {schedule : Schedule α}

variable [DecimalText α]

/-- A candidate of a stop of a route that was computed: the facility of the stop names no link of the
network, and no manual entry is meant for it. -/
def Computed (s : Settings α) (net : Network α) (store : CandidateStore α) (line : String)
    (route : Route α) (a : LinkCandidate α) : Prop :=
  ∃ o ∈ route.occurrences line, o.facility.linkRef.bind net.linkIx? = none ∧
    (∀ m ∈ s.manual, m.appliesTo o.facility.id route.mode = false) ∧
      ∃ c, store[o.key]? = some c ∧ a ∈ c.toList

/-- The link of a candidate that was computed is open to a mode that the router of its route travels
on. -/
theorem Listed.kept (hnet : net.Reachable) {pending : List (PendingStop α)} {grown : Network α}
    {store : CandidateStore α} (h : s.Listed net schedule pending grown store)
    (hkeys : (schedule.occurrences.map Occurrence.key).Nodup) {line : Line α} {route : Route α}
    (hroute : (line, route) ∈ schedule.routes) {a : LinkCandidate α}
    (ha : s.Computed net store line.id route a) :
    grown.Kept (s.modeOrDefault route.mode).networkModes.withArtificial none a.link := by
  obtain ⟨o, ho, href, hmanual, c, hc, ha⟩ := ha
  obtain ⟨p, hp, hrefines⟩ := exists_mem_refineRoutes h.refined hroute ho
  obtain ⟨hoccurrence, -, hmode, -⟩ := hrefines.frame
  rw [← hoccurrence] at hc hmanual
  rw [← hmode] at hmanual
  rw [h.of_nodup hkeys hp hmanual] at hc
  obtain rfl := Option.some.inj hc
  obtain ⟨ix, hix, priority, rfl⟩ := Build.exists_of_mem_candidates ha
  have hgrown := h.looped.reachable
  rcases PendingStop.mem_servedBy hix with ⟨-, hloop⟩ | ⟨-, hset⟩
  · -- Whichever modes it was made up for, a loop link is open to the artificial mode.
    have hmade := hgrown.consistent.loopLinks _ _ hloop
    exact ⟨hmade.lt, ⟨Mode.artificial, hgrown.marksArtificial ix hmade.lt hmade.artificial,
      Std.TreeSet.mem_insert_self⟩, fun b hb => by cases hb⟩
  · have haround := (Network.mem_boundedLinks (hrefines.mem_boundedLinks href hset)).1
    have hlt := hnet.consistent.lt_of_mem_linksAround haround
    have hopen : (net.link ix).allowsAny (s.modeOrDefault route.mode).networkModes = true :=
      (hnet.of_mem_linksAround haround).2
    obtain ⟨mode, hlink, hnetwork⟩ := ModeSet.meets_iff.1 hopen
    rw [← h.looped.kept.link ix hlt] at hlink
    exact ⟨Nat.lt_of_lt_of_le hlt h.looped.kept.links_size,
      ⟨mode, hlink, Std.TreeSet.mem_insert.2 (.inr hnetwork)⟩, fun b hb => by cases hb⟩

/-- The router of a key that has both ends of the candidates of its routes. Between two of them it
answers as the search does, so never that there is no path because an end is missing. -/
structure Covers (r : Router α) (net : Network α) (computed : LinkCandidate α → Prop) : Prop where
  source : ∀ a, computed a → r.contains (net.link a.link).source = true
  target : ∀ a, computed a → r.contains (net.link a.link).target = true
  path : ∀ a b, computed a → computed b → (r.answer (.candidates a b)).path =
    (search? (r.arcs (some a.link)) (net.link a.link).target (net.link b.link).source).map
      fun (nodes, cost) => r.pathThrough (r.arcs (some a.link)) nodes cost

/-- **The router of the mode of a route covers the candidates that were computed for the route**,
whichever routers were asked for and whatever they were asked before. -/
theorem routerFor_covers (hnet : net.Reachable) {diagnostics : Diagnostics}
    {workers : s.Refinement net schedule.routes} {store : CandidateStore α}
    (hbuild : (s.build net schedule diagnostics workers).outcome = .ok store)
    (hkeys : (schedule.occurrences.map Occurrence.key).Nodup) {line : Line α} {route : Route α}
    (hroute : (line, route) ∈ schedule.routes) (shapes : List (Shape α))
    (uses : List (RouterCache.Use α)) :
    Covers
      (((RouterCache.make (s.build net schedule diagnostics workers).network s shapes).after
        uses).routerFor (.mode route.mode)).1
      (s.build net schedule diagnostics workers).network (s.Computed net store line.id route) := by
  obtain ⟨pending, hlisted⟩ := build_listed hnet hbuild
  generalize (s.build net schedule diagnostics workers).network = grown at hlisted ⊢
  obtain ⟨-, hrecalls, -⟩ := ((RouterCache.holds_make grown s shapes).after uses).routerFor
    (.mode route.mode)
  generalize (((RouterCache.make grown s shapes).after uses).routerFor (.mode route.mode)).1 = r at *
  have hnetwork : r.network = grown := hrecalls.network
  have hgraph : r.graph = .ofNetwork r.network
      (s.modeOrDefault route.mode).networkModes.withArtificial none := by
    rw [hrecalls.graph, hnetwork]
    unfold modeOrDefault
    change RoutingGraph.ofNetwork grown
      ((s.mode? route.mode).elim ∅ ModeSettings.networkModes).withArtificial none = _
    cases s.mode? route.mode with
    | none => rfl
    | some m => rfl
  have hends : ∀ a, s.Computed net store line.id route a →
      r.contains (grown.link a.link).source = true ∧ r.contains (grown.link a.link).target = true := by
    intro a ha
    have hkept := hlisted.kept hnet hkeys hroute ha
    rw [Router.contains_iff hgraph, Router.contains_iff hgraph, hnetwork]
    exact ⟨⟨_, hkept, .inl rfl⟩, ⟨_, hkept, .inr rfl⟩⟩
  refine ⟨fun a ha => (hends a ha).1, fun a ha => (hends a ha).2, fun a b ha hb => ?_⟩
  rw [(hrecalls.answer (.candidates a b)).1, ← hrecalls.toAlike.search]
  change r.search (grown.link a.link).target (grown.link b.link).source (some a.link) = _
  unfold Router.search
  rw [if_pos (Bool.and_eq_true_iff.2 ⟨(hends a ha).2, (hends b hb).1⟩)]

/-- The router for buses has the loop link at the last stop of the bus route, although it was made up
for the ferry, and a candidate at the first stop. -/
theorem routerFor_covers_ferry :
    Network.triangle.Reachable ∧
      ((Schedule.ofLines [ferryLine]).occurrences.map Occurrence.key).Nodup ∧
      (ferryLine, feederRoute) ∈ (Schedule.ofLines [ferryLine]).routes ∧
      ∃ store,
        (triangleSettings.build .triangle (.ofLines [ferryLine]) .empty).outcome = .ok store ∧
        (∃ a, triangleSettings.Computed .triangle store "line" feederRoute a ∧ a.link = 5) ∧
        Covers
          (((RouterCache.make
            (triangleSettings.build .triangle (.ofLines [ferryLine]) .empty).network
            triangleSettings []).after [.query (.mode "bus") (.nodes 0 1)]).routerFor
              (.mode "bus")).1
          (triangleSettings.build .triangle (.ofLines [ferryLine]) .empty).network
          (triangleSettings.Computed .triangle store "line" feederRoute) := by
  have hreach : Network.triangle.Reachable := .ofParts Network.ofParts_triangle
  have hkeys : ((Schedule.ofLines [ferryLine]).occurrences.map Occurrence.key).Nodup := by
    decide +kernel
  have hroute : (ferryLine, feederRoute) ∈ (Schedule.ofLines [ferryLine]).routes :=
    List.mem_cons_of_mem _ (List.mem_singleton_self _)
  have hlinks : ((triangleSettings.build .triangle (.ofLines [ferryLine])
      .empty).outcome.toOption.bind fun store =>
        store["line.feeder.far.60.-"]?.map LinkCandidates.links) = some [5] := by decide +kernel
  obtain ⟨store, hstore, hlinks⟩ := Option.bind_eq_some_iff.1 hlinks
  obtain ⟨c, hc, hlist⟩ := Option.map_eq_some_iff.1 hlinks
  obtain ⟨a, ha, hlink⟩ := List.mem_map.1 (hlist ▸ List.mem_singleton_self 5)
  have hbuild := toOption_eq_some_iff.1 hstore
  have hcomputed : triangleSettings.Computed .triangle store "line" feederRoute a :=
    ⟨_, List.mem_cons_of_mem _ (List.mem_singleton_self _), rfl,
      fun m hm => absurd hm List.not_mem_nil, c, hc, ha⟩
  exact ⟨hreach, hkeys, hroute, store, hbuild, ⟨a, hcomputed, hlink⟩,
    routerFor_covers hreach hbuild hkeys hroute [] _⟩

end Settings

end TransitMatching
