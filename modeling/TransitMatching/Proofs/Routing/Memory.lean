import TransitMatching.Routing.Router

/-!
# What a router remembers

Between queries a router keeps distances to its shape and the answers that it has
given. Neither changes what it answers: a distance is kept as it would be measured
again, and an answer as it would be found again.

* `CostModel.linkCost_remember`: what is kept of a link changes no cost.
* `Router.Recalls`: a router after queries to another one.
* `Router.path_answer_after`: **whatever has been asked before, the answer to a query is that of a
  search.**
-/

namespace TransitMatching

variable {α : Type} [Scalar α]

namespace ShapeBias

@[simp]
theorem distance_remember (b : ShapeBias α) (net : Network α) (ix ix' : LinkIx) :
    (b.remember net ix).distance net ix' = b.distance net ix' := by
  unfold remember
  cases h : b.distances.get? ix with
  | some _ => rfl
  | none =>
    by_cases heq : ix = ix'
    · subst heq
      simp [distance, measure, h]
    · simp [distance, measure, heq]

theorem profile_remember (b : ShapeBias α) (net : Network α) (ix : LinkIx) :
    (b.remember net ix).profile = b.profile := by
  unfold remember
  cases b.distances.get? ix with
  | some _ => rfl
  | none => rfl

end ShapeBias

@[simp]
theorem Strategy.adjust_remember (s : Strategy α) (context : LinkContext α) (ix : LinkIx) :
    (s.remember context.network ix).adjust context = s.adjust context := by
  cases s with
  | shapeBias bias => simp [remember, adjust, ShapeBias.profile_remember]
  | osmFactor factor => rfl
  | uTurn penalty => rfl

/-- **What a model keeps of a link changes no cost.** -/
@[simp]
theorem CostModel.linkCost_remember (m : CostModel α) (context : LinkContext α) (ix : LinkIx) :
    (m.remember context.network ix).linkCost context = m.linkCost context := by
  simp only [linkCost, remember, List.filterMap_map, Function.comp_def, Strategy.adjust_remember]
  rfl

namespace Router

/-- A query to a router. -/
inductive Query (α : Type) where
  /-- The path from one node to another. -/
  | nodes (start goal : NodeIx)
  /-- The path that connects two candidates. -/
  | candidates (a b : LinkCandidate α)

namespace Query

omit [Scalar α] in
/-- The node that the path starts at. -/
def origin (net : Network α) : Query α → NodeIx
  | nodes start _ => start
  | candidates a _ => (net.link a.link).target

omit [Scalar α] in
/-- The node that the path ends at. -/
def destination (net : Network α) : Query α → NodeIx
  | nodes _ goal => goal
  | candidates _ b => (net.link b.link).source

omit [Scalar α] in
/-- The link that the path departs from. -/
def departure : Query α → Option LinkIx
  | nodes _ _ => none
  | candidates a _ => some a.link

end Query

/-- The answer to a query. -/
def answer (r : Router α) : Query α → RouterAnswer α
  | .nodes start goal => r.pathBetweenNodes start goal
  | .candidates a b => r.pathBetweenCandidates a b

/-- The router after a sequence of queries. -/
def after (r : Router α) (queries : List (Query α)) : Router α :=
  queries.foldl (fun r q => (r.answer q).router) r

/-- A router over the same links at the same costs, for every departure. -/
structure Alike (fresh r : Router α) : Prop where
  network : r.network = fresh.network
  graph : r.graph = fresh.graph
  linkCost : ∀ departure ix, r.linkCost departure ix = fresh.linkCost departure ix

/-- Alike routers find the same paths. -/
theorem Alike.search {fresh r : Router α} (h : Alike fresh r) (start goal : NodeIx)
    (departure : Option LinkIx) : r.search start goal departure = fresh.search start goal departure := by
  have harcs : r.arcs departure = fresh.arcs departure := by
    unfold arcs
    simp only [h.graph, h.network, h.linkCost]
  have hthrough : r.pathThrough = fresh.pathThrough := by
    unfold pathThrough
    simp only [h.network]
  unfold Router.search contains
  rw [h.graph, harcs, hthrough]

theorem linkCost_foldl_remember (links : List LinkIx) (m : CostModel α)
    (context : LinkContext α) :
    (links.foldl (fun m ix => m.remember context.network ix) m).linkCost context =
      m.linkCost context := by
  induction links generalizing m with
  | nil => rfl
  | cons ix links ih => rw [List.foldl_cons, ih, CostModel.linkCost_remember]

theorem Alike.prepare {fresh r : Router α} (h : Alike fresh r) (start goal : NodeIx) :
    Alike fresh (r.prepare start goal) := by
  unfold Router.prepare
  split
  · refine ⟨h.network, h.graph, fun departure ix => ?_⟩
    rw [← h.linkCost]
    exact linkCost_foldl_remember r.graph.links r.model
      { network := r.network, link := ix, departure, mode := r.key.scheduleMode }
  · exact h

/-- A router that is alike another one and remembers nothing but answers of it. -/
structure Recalls (fresh r : Router α) : Prop extends Alike fresh r where
  nodePaths : ∀ start goal path, r.nodePaths.get? (start, goal) = some path →
    path = fresh.search start goal none
  linkPaths : ∀ a b path, r.linkPaths.get? (a, b) = some path →
    path = fresh.search (fresh.network.link a).target (fresh.network.link b).source (some a)

/-- A router that has not been asked yet remembers nothing. -/
theorem recalls_build (settings : Settings α) (net : Network α) (key : RouterKey) (modes : ModeSet)
    (shape : Option (Shape α)) :
    Recalls (build settings net key modes shape) (build settings net key modes shape) where
  network := rfl
  graph := rfl
  linkCost _ _ := rfl
  nodePaths start goal path h := by cases (Table.get?_empty (start, goal)).symm.trans h
  linkPaths a b path h := by cases (Table.get?_empty (a, b)).symm.trans h

theorem Recalls.prepare {fresh r : Router α} (h : Recalls fresh r) (start goal : NodeIx) :
    Recalls fresh (r.prepare start goal) := by
  have halike := h.toAlike.prepare start goal
  unfold Router.prepare at halike ⊢
  split
  · next hends =>
    rw [if_pos hends] at halike
    exact ⟨halike, h.nodePaths, h.linkPaths⟩
  · exact h

theorem Recalls.pathBetweenNodes {fresh r : Router α} (h : Recalls fresh r) (start goal : NodeIx) :
    (r.pathBetweenNodes start goal).path = fresh.search start goal none ∧
      Recalls fresh (r.pathBetweenNodes start goal).router := by
  unfold Router.pathBetweenNodes
  cases hknown : r.nodePaths.get? (start, goal) with
  | some path => exact ⟨h.nodePaths start goal path hknown, h⟩
  | none =>
    have hnext := h.prepare start goal
    have hfound := hnext.search start goal none
    refine ⟨hfound, ⟨hnext.network, hnext.graph, hnext.linkCost⟩, ?_, hnext.linkPaths⟩
    intro start' goal' path hget
    dsimp only at hget
    rw [Table.get?_put] at hget
    split at hget
    · next heq =>
      cases heq
      cases hget
      exact hfound
    · exact hnext.nodePaths start' goal' path hget

theorem Recalls.pathBetweenLinks {fresh r : Router α} (h : Recalls fresh r) (a b : LinkIx) :
    (r.pathBetweenLinks a b).path =
        fresh.search (fresh.network.link a).target (fresh.network.link b).source (some a) ∧
      Recalls fresh (r.pathBetweenLinks a b).router := by
  unfold Router.pathBetweenLinks
  rw [h.network]
  cases hknown : r.linkPaths.get? (a, b) with
  | some path => exact ⟨h.linkPaths a b path hknown, h⟩
  | none =>
    have hnext := h.prepare (fresh.network.link a).target (fresh.network.link b).source
    have hfound := hnext.search (fresh.network.link a).target (fresh.network.link b).source (some a)
    refine ⟨hfound, ⟨hnext.network, hnext.graph, hnext.linkCost⟩, hnext.nodePaths, ?_⟩
    intro a' b' path hget
    dsimp only at hget
    rw [Table.get?_put] at hget
    split at hget
    · next heq =>
      cases heq
      cases hget
      exact hfound
    · exact hnext.linkPaths a' b' path hget

/-- **A query is answered as by a search**, and the router remembers nothing else after it. -/
theorem Recalls.answer {fresh r : Router α} (h : Recalls fresh r) (q : Query α) :
    (r.answer q).path =
        fresh.search (q.origin fresh.network) (q.destination fresh.network) q.departure ∧
      Recalls fresh (r.answer q).router := by
  cases q with
  | nodes start goal => exact h.pathBetweenNodes start goal
  | candidates a b => exact h.pathBetweenLinks a.link b.link

theorem Recalls.after {fresh r : Router α} (h : Recalls fresh r) (queries : List (Query α)) :
    Recalls fresh (r.after queries) := by
  induction queries generalizing r with
  | nil => exact h
  | cons q queries ih => exact ih (h.answer q).2

/-- **Whatever has been asked before, a query is answered as by a search.** -/
theorem path_answer_after {fresh : Router α} (h : Recalls fresh fresh) (queries : List (Query α))
    (q : Query α) :
    ((fresh.after queries).answer q).path =
      fresh.search (q.origin fresh.network) (q.destination fresh.network) q.departure :=
  ((h.after queries).answer q).1

end Router

end TransitMatching
