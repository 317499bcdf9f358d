import Mathlib.Data.Finset.Card
import TransitMatching.Proofs.Routing.Memory

/-!
# What a router remembers cannot be seen

A router keeps one answer for each key that a query came with, and it keeps distances
that it has measured. Which distances these are is a matter of how lazily it measures,
so they are left open here. A query whose key has come up before changes nothing and is
a hit. Any other adds one answer to the memory, and is a search if its ends are in the
graph.

* `Query.Key`: what an answer is kept under, and all that it depends on.
* `Router.run`: a router along queries, whichever distances it measures on the way.
* `Router.Asked`: what a query changes of a router.
* `Router.Memory`: what a router remembers after queries, and what has been counted.
* `Router.run_recollected`: **each answer is that of a new router, and the counters tell how many
  different keys there were.**
-/

namespace TransitMatching

variable {α : Type}

namespace Table

variable {κ β : Type} [DecidableEq κ] {t : Table κ β} {k k' : κ} {v : β}

theorem mem_keys_put : k' ∈ (t.put k v).keys ↔ k' = k ∨ k' ∈ t.keys := by
  rw [keys_put]
  split
  · next h =>
    refine ⟨.inr, ?_⟩
    rintro (rfl | h')
    · exact h
    · exact h'
  · rw [List.mem_append, List.mem_singleton, or_comm]

theorem size_put (h : k ∉ t.keys) : (t.put k v).size = t.size + 1 := by
  have hkeys : (t.put k v).keys.length = (t.keys ++ [k]).length := by rw [keys_put, if_neg h]
  simpa [keys, size] using hkeys

end Table

/-! ## Measured distances -/

section Measuring

variable [Scalar α]

namespace Strategy

/-- The distance of a link to the shape of the rule, if it has one. -/
def shapeDistance? (s : Strategy α) (net : Network α) (ix : LinkIx) : Option α :=
  match s with
  | shapeBias bias => some (bias.distance net ix)
  | _ => none

theorem shapeDistance?_remember (s : Strategy α) (net : Network α) (ix ix' : LinkIx) :
    (s.remember net ix).shapeDistance? net ix' = s.shapeDistance? net ix' := by
  cases s with
  | shapeBias bias => exact congrArg some (bias.distance_remember net ix ix')
  | osmFactor factor => rfl
  | uTurn penalty => rfl

end Strategy

namespace CostModel

/-- The distances of a link to the shapes of all rules. -/
def shapeDistances (m : CostModel α) (net : Network α) (ix : LinkIx) : List α :=
  m.strategies.filterMap fun s => s.shapeDistance? net ix

/-- The model with the distances of links measured and kept. -/
def measure (m : CostModel α) (net : Network α) (links : List LinkIx) : CostModel α :=
  links.foldl (fun m ix => m.remember net ix) m

theorem shapeDistances_measure (m : CostModel α) (net : Network α) (links : List LinkIx)
    (ix : LinkIx) : (m.measure net links).shapeDistances net ix = m.shapeDistances net ix := by
  unfold measure
  induction links generalizing m with
  | nil => rfl
  | cons first links ih =>
    rw [List.foldl_cons, ih]
    simp only [shapeDistances, remember, List.filterMap_map, Function.comp_def,
      Strategy.shapeDistance?_remember]

end CostModel

end Measuring

namespace Router

/-! ## Keys -/

namespace Query

/-- What an answer is kept under. -/
inductive Key where
  /-- Two nodes. -/
  | nodes (start goal : NodeIx)
  /-- The links of two candidates. -/
  | links (a b : LinkIx)
  deriving DecidableEq, Repr

/-- The key of a query. Candidates of different stops on the same links have one key. -/
def key : Query α → Key
  | nodes start goal => .nodes start goal
  | candidates a b => .links a.link b.link

/-- The number of different keys of queries. -/
def keyCount (queries : List (Query α)) : Nat := (queries.map key).toFinset.card

section KeyCount

variable {queries : List (Query α)} {q : Query α} {P : Query α → Bool}

/-- A key that came up before is not counted again. -/
theorem keyCount_filter_of_mem (hP : ∀ p q : Query α, p.key = q.key → P p = P q)
    (h : q.key ∈ queries.map key) :
    keyCount ((queries ++ [q]).filter P) = keyCount (queries.filter P) := by
  unfold keyCount
  obtain ⟨p, hp, hkey⟩ := List.mem_map.1 h
  rw [List.filter_append]
  cases hq : P q with
  | false => simp [hq]
  | true =>
    have hmem : q.key ∈ (queries.filter P).map key :=
      List.mem_map.2 ⟨p, List.mem_filter.2 ⟨hp, (hP p q hkey).trans hq⟩, hkey⟩
    rw [List.filter_cons_of_pos hq, List.filter_nil, List.map_append, List.toFinset_append,
      Finset.union_eq_left.2]
    intro k hk
    obtain rfl : k = q.key := by simpa using hk
    exact List.mem_toFinset.2 hmem

theorem keyCount_filter_of_not_mem (h : q.key ∉ queries.map key) :
    keyCount ((queries ++ [q]).filter P) =
      keyCount (queries.filter P) + if P q then 1 else 0 := by
  unfold keyCount
  rw [List.filter_append]
  cases hq : P q with
  | false => simp [hq]
  | true =>
    have hnew : q.key ∉ ((queries.filter P).map key).toFinset := by
      intro hmem
      obtain ⟨p, hp, hkey⟩ := List.mem_map.1 (List.mem_toFinset.1 hmem)
      exact h (List.mem_map.2 ⟨p, List.mem_of_mem_filter hp, hkey⟩)
    rw [List.filter_cons_of_pos hq, List.filter_nil, List.map_append, List.toFinset_append,
      Finset.union_comm, if_pos rfl, ← Finset.card_insert_of_notMem hnew]
    rfl

theorem keyCount_of_mem (h : q.key ∈ queries.map key) :
    keyCount (queries ++ [q]) = keyCount queries := by
  have hcount := keyCount_filter_of_mem (P := fun _ => true) (fun _ _ _ => rfl) h
  rwa [List.filter_true, List.filter_true] at hcount

theorem keyCount_of_not_mem (h : q.key ∉ queries.map key) :
    keyCount (queries ++ [q]) = keyCount queries + 1 := by
  have hcount := keyCount_filter_of_not_mem (P := fun _ => true) h
  rwa [List.filter_true, List.filter_true] at hcount

end KeyCount

variable [Scalar α]

/-- Queries with one key have the same ends and the same departure. -/
theorem ends_eq_of_key {p q : Query α} (h : p.key = q.key) (net : Network α) :
    p.origin net = q.origin net ∧ p.destination net = q.destination net ∧
      p.departure = q.departure := by
  cases p with
  | nodes start goal =>
    cases q with
    | nodes start' goal' =>
      obtain ⟨rfl, rfl⟩ := Key.nodes.inj h
      exact ⟨rfl, rfl, rfl⟩
    | candidates a b => cases h
  | candidates a b =>
    cases q with
    | nodes start goal => cases h
    | candidates a' b' =>
      obtain ⟨ha, hb⟩ := Key.links.inj h
      unfold origin destination departure
      dsimp only
      rw [ha, hb]
      exact ⟨rfl, rfl, rfl⟩

end Query

variable [Scalar α]

/-- Whether both ends of a query are in the graph. -/
def joins (r : Router α) (q : Query α) : Bool :=
  r.contains (q.origin r.network) && r.contains (q.destination r.network)

/-- Whether the router remembers the answer under a key. -/
def Knows (r : Router α) : Query.Key → Prop
  | .nodes start goal => (start, goal) ∈ r.nodePaths.keys
  | .links a b => (a, b) ∈ r.linkPaths.keys

/-- The router with an answer kept under a key. -/
def keep (r : Router α) (key : Query.Key) (path : Option (LeastCostPath α)) : Router α :=
  match key with
  | .nodes start goal => { r with nodePaths := r.nodePaths.put (start, goal) path }
  | .links a b => { r with linkPaths := r.linkPaths.put (a, b) path }

variable {r fresh : Router α} {q : Query α}

/-- Keeping an answer leaves all but the answers. -/
theorem keep_frame (r : Router α) (key : Query.Key) (path : Option (LeastCostPath α)) :
    (r.keep key path).key = r.key ∧ (r.keep key path).network = r.network ∧
      (r.keep key path).model = r.model ∧ (r.keep key path).stats.searches = r.stats.searches := by
  cases key with
  | nodes start goal => exact ⟨rfl, rfl, rfl, rfl⟩
  | links a b => exact ⟨rfl, rfl, rfl, rfl⟩

theorem knows_keep {key key' : Query.Key} {path : Option (LeastCostPath α)} :
    (r.keep key path).Knows key' ↔ key' = key ∨ r.Knows key' := by
  cases key <;> cases key' <;> simp [keep, Knows, Table.mem_keys_put]

theorem memoizedPaths_keep {key : Query.Key} (h : ¬ r.Knows key) (path : Option (LeastCostPath α)) :
    (r.keep key path).stats.memoizedPaths = r.stats.memoizedPaths + 1 := by
  cases key with
  | nodes start goal =>
    change (r.nodePaths.put (start, goal) path).size + r.linkPaths.size = _
    rw [Table.size_put h, Nat.add_right_comm]
    rfl
  | links a b =>
    change r.nodePaths.size + (r.linkPaths.put (a, b) path).size = _
    rw [Table.size_put h]
    rfl

/-! ## One query -/

/-- A query whose key is known is answered by what is kept, and counts as a hit. -/
theorem answer_of_knows (h : r.Knows q.key) :
    (r.answer q).router = r ∧
      (r.answer q).events = [.counted .pathQueries, .counted .pathCacheHits] := by
  cases q with
  | nodes start goal =>
    obtain ⟨path, hpath⟩ := Option.isSome_iff_exists.1 ((Table.get?_isSome_iff _ _).2 h)
    unfold answer
    dsimp only
    unfold pathBetweenNodes
    rw [hpath]
    exact ⟨rfl, rfl⟩
  | candidates a b =>
    obtain ⟨path, hpath⟩ := Option.isSome_iff_exists.1 ((Table.get?_isSome_iff _ _).2 h)
    unfold answer
    dsimp only
    unfold pathBetweenCandidates pathBetweenLinks
    rw [hpath]
    exact ⟨rfl, rfl⟩

/-- Any other query is answered by a search, whose result is kept. -/
theorem answer_of_not_knows (h : ¬ r.Knows q.key) :
    (r.answer q).router =
        (r.prepare (q.origin r.network) (q.destination r.network)).keep q.key (r.answer q).path ∧
      (r.answer q).events = searchEvents (r.answer q).path := by
  cases q with
  | nodes start goal =>
    have hnone : r.nodePaths.get? (start, goal) = none := by
      rw [← Option.not_isSome_iff_eq_none, Table.get?_isSome_iff]
      exact h
    unfold answer
    dsimp only
    unfold pathBetweenNodes
    rw [hnone]
    exact ⟨rfl, rfl⟩
  | candidates a b =>
    have hnone : r.linkPaths.get? (a.link, b.link) = none := by
      rw [← Option.not_isSome_iff_eq_none, Table.get?_isSome_iff]
      exact h
    unfold answer
    dsimp only
    unfold pathBetweenCandidates pathBetweenLinks
    rw [hnone]
    exact ⟨rfl, rfl⟩

/-- What a search does to a router: it measures, and it counts if both ends are in the graph. -/
structure Prepared (r : Router α) (q : Query α) (next : Router α) : Prop where
  key : next.key = r.key
  network : next.network = r.network
  measured : ∃ links, next.model = r.model.measure r.network links
  knows : ∀ key, next.Knows key ↔ r.Knows key
  memoizedPaths : next.stats.memoizedPaths = r.stats.memoizedPaths
  searches : next.stats.searches = r.stats.searches + if r.joins q then 1 else 0

theorem prepared_prepare (r : Router α) (q : Query α) :
    r.Prepared q (r.prepare (q.origin r.network) (q.destination r.network)) := by
  unfold prepare
  split
  · next h =>
    refine ⟨rfl, rfl, ⟨r.graph.links, rfl⟩, fun key => ?_, rfl, ?_⟩
    · cases key with
      | nodes start goal => rfl
      | links a b => rfl
    · rw [if_pos (show r.joins q = true from h)]
      rfl
  · next h =>
    refine ⟨rfl, rfl, ⟨[], rfl⟩, fun _ => .rfl, rfl, ?_⟩
    rw [if_neg (show ¬ r.joins q = true from h)]
    rfl

/-- What a query changes of a router: at most what is measured, one answer and one search. -/
structure Asked (r : Router α) (q : Query α) (answer : RouterAnswer α) : Prop where
  key : answer.router.key = r.key
  network : answer.router.network = r.network
  measured : ∃ links, answer.router.model = r.model.measure r.network links
  knows : ∀ key, answer.router.Knows key ↔ key = q.key ∨ r.Knows key
  hit : r.Knows q.key →
    answer.router.stats.memoizedPaths = r.stats.memoizedPaths ∧
      answer.router.stats.searches = r.stats.searches ∧
        answer.events = [.counted .pathQueries, .counted .pathCacheHits]
  miss : ¬ r.Knows q.key →
    answer.router.stats.memoizedPaths = r.stats.memoizedPaths + 1 ∧
      answer.router.stats.searches = r.stats.searches + (if r.joins q then 1 else 0) ∧
        answer.events = searchEvents answer.path

theorem asked_answer (r : Router α) (q : Query α) : r.Asked q (r.answer q) := by
  by_cases h : r.Knows q.key
  · obtain ⟨hrouter, hevents⟩ := answer_of_knows h
    refine
      { key := congrArg Router.key hrouter
        network := congrArg Router.network hrouter
        measured := ⟨[], congrArg Router.model hrouter⟩
        knows := ?knows
        hit := ?hit
        miss := absurd h }
    case knows =>
      intro key
      rw [hrouter]
      refine ⟨.inr, ?_⟩
      rintro (rfl | hkey)
      · exact h
      · exact hkey
    case hit =>
      intro _
      rw [hrouter]
      exact ⟨rfl, rfl, hevents⟩
  · obtain ⟨hrouter, hevents⟩ := answer_of_not_knows h
    have hready := r.prepared_prepare q
    generalize r.prepare (q.origin r.network) (q.destination r.network) = ready at hrouter hready
    rw [← hready.knows] at h
    obtain ⟨hkey, hnetwork, hmodel, hsearches⟩ := ready.keep_frame q.key (r.answer q).path
    rw [← hrouter] at hkey hnetwork hmodel hsearches
    refine
      { key := hkey.trans hready.key
        network := hnetwork.trans hready.network
        measured := ?measured
        knows := ?knows
        hit := fun hknown => absurd ((hready.knows _).2 hknown) h
        miss := ?miss }
    case measured =>
      rw [hmodel]
      exact hready.measured
    case knows =>
      intro key
      rw [hrouter, knows_keep, hready.knows]
    case miss =>
      intro _
      refine ⟨?_, hsearches.trans hready.searches, hevents⟩
      rw [hrouter, memoizedPaths_keep h, hready.memoizedPaths]

/-! ## Queries in a row -/

/-- A query, with the links whose distances are measured while it is answered. -/
structure Ask (α : Type) where
  query : Query α
  /-- None stands for all links of the graph. -/
  measured : Option (List LinkIx) := none

/-- The answer to a query, after which the router has the distances that were measured. -/
def ask (r : Router α) (a : Ask α) : RouterAnswer α :=
  let answer := r.answer a.query
  match a.measured with
  | none => answer
  | some links =>
    { answer with router := { answer.router with model := r.model.measure r.network links } }

theorem asked_ask (r : Router α) (a : Ask α) : r.Asked a.query (r.ask a) := by
  have h := r.asked_answer a.query
  unfold ask
  cases a.measured with
  | none => exact h
  | some links => exact ⟨h.key, h.network, ⟨links, rfl⟩, h.knows, h.hit, h.miss⟩

/-- What a router remembers are still answers of another one if it has measured other distances. -/
theorem Recalls.withModel (h : Recalls fresh r) {m : CostModel α}
    (hm : ∀ context : LinkContext α, context.network = r.network →
      m.linkCost context = r.model.linkCost context) :
    Recalls fresh { r with model := m } where
  network := h.network
  graph := h.graph
  linkCost departure ix := (hm _ rfl).trans (h.linkCost departure ix)
  nodePaths := h.nodePaths
  linkPaths := h.linkPaths

/-- Whichever distances are measured, a query is answered as by a router that was not asked before. -/
theorem Recalls.ask (hfresh : Recalls fresh fresh) (h : Recalls fresh r) (a : Ask α) :
    (r.ask a).path = (fresh.answer a.query).path ∧ Recalls fresh (r.ask a).router := by
  obtain ⟨hpath, hnext⟩ := h.answer a.query
  have hsame : (r.answer a.query).path = (fresh.answer a.query).path :=
    hpath.trans (hfresh.answer a.query).1.symm
  obtain ⟨known, hmodel⟩ := (r.asked_answer a.query).measured
  have hnetwork := (r.asked_answer a.query).network
  unfold Router.ask
  generalize r.answer a.query = answer at *
  cases a.measured with
  | none => exact ⟨hsame, hnext⟩
  | some links =>
    refine ⟨hsame, hnext.withModel fun context hcontext => ?_⟩
    rw [hnetwork] at hcontext
    rw [hmodel, ← hcontext]
    exact (linkCost_foldl_remember links r.model context).trans
      (linkCost_foldl_remember known r.model context).symm

/-- What comes of queries in a row. -/
structure Log (α : Type) [Scalar α] where
  paths : List (Option (LeastCostPath α))
  events : List Event
  /-- The router in the end. -/
  router : Router α

/-- Asks a router one query after the other. -/
def run (r : Router α) : List (Ask α) → Log α
  | [] => { paths := [], events := [], router := r }
  | a :: rest =>
    let first := r.ask a
    let later := first.router.run rest
    { paths := first.path :: later.paths
      events := first.events ++ later.events
      router := later.router }

/-- Where every search measures all links of the graph, a run leaves the router that the queries
leave. -/
theorem router_run (r : Router α) (queries : List (Query α)) :
    (r.run (queries.map fun q => { query := q })).router = r.after queries := by
  induction queries generalizing r with
  | nil => rfl
  | cons q queries ih => exact ih (r.answer q).router

/-! ## The history of a router -/

theorem joins_eq_of_key {p q : Query α} (h : p.key = q.key) : r.joins p = r.joins q := by
  obtain ⟨horigin, hdestination, -⟩ := Query.ends_eq_of_key h r.network
  unfold joins
  rw [horigin, hdestination]

/-- The key of a query determines its answer. -/
theorem path_eq_of_key (hfresh : Recalls fresh fresh) {p q : Query α} (h : p.key = q.key) :
    (fresh.answer p).path = (fresh.answer q).path := by
  obtain ⟨horigin, hdestination, hdeparture⟩ := Query.ends_eq_of_key h fresh.network
  rw [(hfresh.answer p).1, (hfresh.answer q).1, horigin, hdestination, hdeparture]

theorem Alike.joins (h : Alike fresh r) (q : Query α) : r.joins q = fresh.joins q := by
  unfold Router.joins contains
  rw [h.network, h.graph]

omit [Scalar α] in
theorem count_searchEvents (path : Option (LeastCostPath α)) :
    (searchEvents path).count (.counted .pathQueries) = 1 ∧
      (searchEvents path).count (.counted .pathCacheHits) = 0 ∧
        (searchEvents path).count (.counted .unreachablePaths) =
          if path.isNone then 1 else 0 := by
  cases path with
  | none => exact ⟨rfl, rfl, rfl⟩
  | some _ => exact ⟨rfl, rfl, rfl⟩

/-- A router after queries, and the events since the first. -/
structure Memory (fresh : Router α) (asked : List (Query α)) (events : List Event) (r : Router α) :
    Prop extends Recalls fresh r where
  knows : ∀ key, r.Knows key ↔ key ∈ asked.map Query.key
  distances : ∀ ix, r.model.shapeDistances fresh.network ix =
    fresh.model.shapeDistances fresh.network ix
  memoizedPaths : r.stats.memoizedPaths = Query.keyCount asked
  searches : r.stats.searches = Query.keyCount (asked.filter fresh.joins)
  pathQueries : events.count (.counted .pathQueries) = asked.length
  pathCacheHits : events.count (.counted .pathCacheHits) + Query.keyCount asked = asked.length
  unreachablePaths : events.count (.counted .unreachablePaths) =
    Query.keyCount (asked.filter fun q => (fresh.answer q).path.isNone)

theorem memory_nil (hfresh : Recalls fresh fresh) (hnew : ∀ key, ¬ fresh.Knows key)
    (hpaths : fresh.stats.memoizedPaths = 0) (hsearches : fresh.stats.searches = 0) :
    Memory fresh [] [] fresh where
  toRecalls := hfresh
  knows key := iff_of_false (hnew key) List.not_mem_nil
  distances _ := rfl
  memoizedPaths := hpaths
  searches := hsearches
  pathQueries := rfl
  pathCacheHits := rfl
  unreachablePaths := rfl

/-- **One more query**: with a key that came up before it is a hit, with any other it is a search
whose result is kept. -/
theorem Memory.ask (hfresh : Recalls fresh fresh) {asked : List (Query α)} {events : List Event}
    (h : Memory fresh asked events r) (a : Ask α) :
    Memory fresh (asked ++ [a.query]) (events ++ (r.ask a).events) (r.ask a).router := by
  obtain ⟨hpath, hrecalls⟩ := hfresh.ask h.toRecalls a
  have hasked := r.asked_ask a
  have hdistances : ∀ ix, (r.ask a).router.model.shapeDistances fresh.network ix =
      fresh.model.shapeDistances fresh.network ix := by
    obtain ⟨links, hmodel⟩ := hasked.measured
    intro ix
    rw [hmodel, h.network, CostModel.shapeDistances_measure, h.distances]
  have hknows : ∀ key, (r.ask a).router.Knows key ↔ key ∈ (asked ++ [a.query]).map Query.key := by
    intro key
    rw [hasked.knows, h.knows, List.map_append, List.mem_append, List.map_singleton,
      List.mem_singleton, or_comm]
  have hunreachable : ∀ p q : Query α, p.key = q.key →
      (fresh.answer p).path.isNone = (fresh.answer q).path.isNone := fun p q hkey =>
    congrArg Option.isNone (path_eq_of_key hfresh hkey)
  have hlength : (asked ++ [a.query]).length = asked.length + 1 := List.length_append
  -- A key is known if it came up before, so a hit adds no key to those asked and a miss adds one.
  by_cases hknown : r.Knows a.query.key
  · obtain ⟨hpaths, hsearches, hevents⟩ := hasked.hit hknown
    have hmem := (h.knows _).1 hknown
    refine
      { toRecalls := hrecalls
        knows := hknows
        distances := hdistances
        memoizedPaths := ?_
        searches := ?_
        pathQueries := ?_
        pathCacheHits := ?_
        unreachablePaths := ?_ }
    · rw [hpaths, h.memoizedPaths, Query.keyCount_of_mem hmem]
    · rw [hsearches, h.searches, Query.keyCount_filter_of_mem (fun p q => joins_eq_of_key) hmem]
    · rw [List.count_append, h.pathQueries, hevents, hlength]
      rfl
    · have hhits := h.pathCacheHits
      rw [List.count_append, hevents, Query.keyCount_of_mem hmem, hlength]
      change _ + 1 + _ = _
      omega
    · rw [List.count_append, h.unreachablePaths, hevents,
        Query.keyCount_filter_of_mem hunreachable hmem]
      rfl
  · obtain ⟨hpaths, hsearches, hevents⟩ := hasked.miss hknown
    have hmem := fun hmem => hknown ((h.knows _).2 hmem)
    obtain ⟨hqueried, hhit, hmissed⟩ := count_searchEvents (r.ask a).path
    refine
      { toRecalls := hrecalls
        knows := hknows
        distances := hdistances
        memoizedPaths := ?_
        searches := ?_
        pathQueries := ?_
        pathCacheHits := ?_
        unreachablePaths := ?_ }
    · rw [hpaths, h.memoizedPaths, Query.keyCount_of_not_mem hmem]
    · rw [hsearches, h.searches, Query.keyCount_filter_of_not_mem hmem, h.toAlike.joins]
    · rw [List.count_append, h.pathQueries, hevents, hqueried, hlength]
    · have hhits := h.pathCacheHits
      rw [List.count_append, hevents, hhit, Query.keyCount_of_not_mem hmem, hlength]
      omega
    · rw [List.count_append, h.unreachablePaths, hevents, hmissed,
        Query.keyCount_filter_of_not_mem hmem, hpath]

/-- Asking on, with every answer that of a router that was not asked before. -/
theorem Memory.run (hfresh : Recalls fresh fresh) {asked : List (Query α)} {events : List Event}
    (h : Memory fresh asked events r) (asks : List (Ask α)) :
    Memory fresh (asked ++ asks.map Ask.query) (events ++ (r.run asks).events) (r.run asks).router ∧
      (r.run asks).paths = asks.map fun a => (fresh.answer a.query).path := by
  induction asks generalizing r asked events with
  | nil =>
    rw [List.map_nil, List.append_nil]
    exact ⟨(List.append_nil events).symm ▸ h, rfl⟩
  | cons a asks ih =>
    obtain ⟨hmemory, hpaths⟩ := ih (h.ask hfresh a)
    rw [List.append_assoc, List.append_assoc] at hmemory
    refine ⟨hmemory, ?_⟩
    change (r.ask a).path :: _ = _
    rw [hpaths, (hfresh.ask h.toRecalls a).1]
    rfl

/-- What is seen of a router that is asked query after query. -/
structure Recollected (fresh : Router α) (asks : List (Ask α)) (diagnostics : Diagnostics) : Prop where
  /-- Each answer is that of a new router to the single query. -/
  paths : (fresh.run asks).paths = asks.map fun a => (fresh.answer a.query).path
  distances : ∀ ix, (fresh.run asks).router.model.shapeDistances fresh.network ix =
    fresh.model.shapeDistances fresh.network ix
  pathQueries : (diagnostics.recordAll (fresh.run asks).events).count .pathQueries =
    diagnostics.count .pathQueries + asks.length
  pathCacheHits : (diagnostics.recordAll (fresh.run asks).events).count .pathCacheHits =
    diagnostics.count .pathCacheHits + (asks.length - Query.keyCount (asks.map Ask.query))
  unreachablePaths : (diagnostics.recordAll (fresh.run asks).events).count .unreachablePaths =
    diagnostics.count .unreachablePaths +
      Query.keyCount ((asks.map Ask.query).filter fun q => (fresh.answer q).path.isNone)
  memoizedPaths : (fresh.run asks).router.stats.memoizedPaths =
    Query.keyCount (asks.map Ask.query)
  searches : (fresh.run asks).router.stats.searches =
    Query.keyCount ((asks.map Ask.query).filter fresh.joins)

/-- **Whatever a router has been asked, and whatever it has measured, its answers are those of a new
one**, and it has counted a hit for every query but the first of each key. -/
theorem run_recollected (settings : Settings α) (net : Network α) (key : RouterKey)
    (modes : ModeSet) (shape : Option (Shape α)) (asks : List (Ask α)) (diagnostics : Diagnostics) :
    Recollected (build settings net key modes shape) asks diagnostics := by
  have hfresh := recalls_build settings net key modes shape
  have hnew : ∀ k, ¬ (build settings net key modes shape).Knows k := by
    intro k
    cases k with
    | nodes start goal => exact List.not_mem_nil
    | links a b => exact List.not_mem_nil
  obtain ⟨hmemory, hpaths⟩ := (memory_nil hfresh hnew rfl rfl).run hfresh asks
  rw [List.nil_append, List.nil_append] at hmemory
  have hhits := hmemory.pathCacheHits
  rw [List.length_map] at hhits
  exact
    { paths := hpaths
      distances := hmemory.distances
      pathQueries := by rw [Diagnostics.count_recordAll, hmemory.pathQueries, List.length_map]
      pathCacheHits := by rw [Diagnostics.count_recordAll]; omega
      unreachablePaths := by rw [Diagnostics.count_recordAll, hmemory.unreachablePaths]
      memoizedPaths := hmemory.memoizedPaths
      searches := hmemory.searches }

end Router

end TransitMatching
