import Mathlib.Data.List.Basic
import Mathlib.Data.List.Nodup
import Mathlib.Data.List.Perm.Subperm
import TransitMatching.Proofs.Routing.LeastCost

/-!
# The way back from the goal

A search remembers of each node where it was reached from, and leaves it at that: the
arcs of its answer are chosen anew, the cheapest between each node and the next. The
score of a node is the one found along these arcs, as they are chosen from the arcs
that the search has followed.

`Thread` is the way from the start to a node through the nodes that were remembered.

* `Explored.exists_thread`: every node that has been reached has one, without a repeated node.
* `Thread.trace`: it is what going back from the node finds.
* `search?_thread`: **the answer of a search is the way through the cheapest arcs between its
  nodes, and its cost is theirs, added up.**
-/

namespace TransitMatching

variable {α : Type} [Scalar α] {arcs : List (Arc α)} {start goal : NodeIx}

namespace Arc

instance : Std.TransCmp (compare : Arc α → Arc α → Ordering) :=
  Scalar.transCmp_order_then cost link

omit [Scalar α] in
theorem mem_joining {n m : NodeIx} {a : Arc α} :
    a ∈ joining arcs n m ↔ a ∈ arcs ∧ a.source = n ∧ a.target = m := by
  simp [joining]

/-- An arc between two nodes that comes before all others between them. -/
structure Cheapest (arcs : List (Arc α)) (n m : NodeIx) (c : Arc α) : Prop where
  mem : c ∈ arcs
  source : c.source = n
  target : c.target = m
  least : ∀ a ∈ arcs, a.source = n → a.target = m → (compare c a).isLE

theorem cheapest_of_eq_some {n m : NodeIx} {c : Arc α} (h : cheapest? arcs n m = some c) :
    Cheapest arcs n m c := by
  obtain ⟨hmem, hsource, htarget⟩ := mem_joining.1 (leastBy?_mem h)
  exact ⟨hmem, hsource, htarget, fun a ha hn hm => leastBy?_isLE h a (mem_joining.2 ⟨ha, hn, hm⟩)⟩

/-- Nodes that an arc joins have a cheapest one between them. -/
theorem exists_cheapest {a : Arc α} (ha : a ∈ arcs) :
    ∃ c, cheapest? arcs a.source a.target = some c := by
  cases h : cheapest? arcs a.source a.target with
  | some c => exact ⟨c, rfl⟩
  | none =>
    have hempty := leastBy?_eq_none_iff.1 h
    have hmem : a ∈ joining arcs a.source a.target := mem_joining.2 ⟨ha, rfl, rfl⟩
    rw [hempty] at hmem
    exact absurd hmem List.not_mem_nil

theorem mem_of_mem_between {nodes : List NodeIx} {a : Arc α} (h : a ∈ between arcs nodes) :
    a ∈ arcs := by
  obtain ⟨⟨n, m⟩, -, hcheapest⟩ := List.mem_filterMap.1 h
  exact (cheapest_of_eq_some hcheapest).mem

/-- One more node takes one more arc. -/
theorem between_concat (arcs : List (Arc α)) (front : List NodeIx) (m n : NodeIx) :
    between arcs (front ++ [m] ++ [n]) =
      between arcs (front ++ [m]) ++ (cheapest? arcs m n).toList := by
  unfold between
  induction front with
  | nil => cases h : cheapest? arcs m n <;> simp [h]
  | cons x front ih =>
    cases front with
    | nil => cases h : cheapest? arcs x m <;> simpa [h] using ih
    | cons y front => cases h : cheapest? arcs x y <;> simpa [h] using ih

/-- What comes before another arc costs no more. -/
theorem Cheapest.cost_le {n m : NodeIx} {c a : Arc α} (h : Cheapest arcs n m c) (ha : a ∈ arcs)
    (hsource : a.source = n) (htarget : a.target = m) (hcost : ∀ a ∈ arcs, (0 : α) ≤ a.cost) :
    c.cost ≤ a.cost := by
  have hfirst : (Scalar.order c.cost a.cost).isLE := by
    have hle := h.least a ha hsource htarget
    unfold compare at hle
    cases horder : Scalar.order c.cost a.cost with
    | lt => rfl
    | eq => rfl
    | gt =>
      rw [horder] at hle
      cases hle
  exact Scalar.le_of_order hfirst (Scalar.number_of_le (hcost c h.mem)).2
    (Scalar.number_of_le (hcost a ha)).2

end Arc

namespace Search

variable {s : Search α} {settled : List NodeIx} {level : α}

/-- The way to a node from the start, through the node it was reached from, along the cheapest arcs
between these nodes. -/
inductive Thread (arcs : List (Arc α)) (start : NodeIx) (s : Search α) :
    NodeIx → List NodeIx → List (Arc α) → Prop where
  | start : s.label? start = some { score := 0 } → Thread arcs start s start [start] []
  | step {m n : NodeIx} {l : Label α} {nodes : List NodeIx} {path : List (Arc α)} {c : Arc α} :
    Thread arcs start s m nodes path → s.label? n = some l → l.via = some m →
      Arc.cheapest? arcs m n = some c → Thread arcs start s n (nodes ++ [n]) (path ++ [c])

variable {n : NodeIx} {nodes : List NodeIx} {path : List (Arc α)}

theorem Thread.head? (h : Thread arcs start s n nodes path) : nodes.head? = some start := by
  induction h with
  | start => rfl
  | step _ _ _ _ ih => rw [List.head?_append, ih, Option.some_or]

theorem Thread.exists_concat (h : Thread arcs start s n nodes path) :
    ∃ front, nodes = front ++ [n] := by
  cases h with
  | start => exact ⟨[], rfl⟩
  | step => exact ⟨_, rfl⟩

theorem Thread.getLast? (h : Thread arcs start s n nodes path) : nodes.getLast? = some n := by
  obtain ⟨front, rfl⟩ := h.exists_concat
  exact List.getLast?_concat

theorem Thread.length_eq (h : Thread arcs start s n nodes path) :
    nodes.length = path.length + 1 := by
  induction h with
  | start => rfl
  | step _ _ _ _ ih => rw [List.length_append, List.length_append, ih]; rfl

/-- The arcs lead from each node to the one after it. -/
theorem Thread.cheapest (h : Thread arcs start s n nodes path) (i : Nat) {m k : NodeIx} {c : Arc α}
    (hm : nodes[i]? = some m) (hk : nodes[i + 1]? = some k) (hc : path[i]? = some c) :
    Arc.Cheapest arcs m k c := by
  induction h with
  | start => cases hc
  | @step m' n l nodes path c' hthread _ _ hcheapest ih =>
    have hlength := hthread.length_eq
    by_cases hi : i < path.length
    · rw [List.getElem?_append_left (by omega)] at hm hk hc
      exact ih hm hk hc
    · -- The last arc leads from the last node of the thread to the new one.
      obtain rfl : i = path.length := by
        have hlt := (List.getElem?_eq_some_iff.1 hc).1
        rw [List.length_append, List.length_singleton] at hlt
        omega
      obtain ⟨front, rfl⟩ := hthread.exists_concat
      rw [List.length_append, List.length_singleton] at hlength
      obtain rfl : m' = m := by simpa [← Nat.succ.inj hlength] using hm
      obtain rfl : n = k := by simpa [← Nat.succ.inj hlength] using hk
      obtain rfl : c' = c := by simpa using hc
      exact Arc.cheapest_of_eq_some hcheapest

/-- The arcs of a thread are those that an answer takes. -/
theorem Thread.between_eq (h : Thread arcs start s n nodes path) :
    Arc.between arcs nodes = path := by
  induction h with
  | start => rfl
  | @step m n l nodes path c hthread _ _ hcheapest ih =>
    obtain ⟨front, rfl⟩ := hthread.exists_concat
    rw [Arc.between_concat, ih, hcheapest]
    rfl

/-- Going back from a node finds its thread. -/
theorem Thread.trace {s' : Search α} (h : Thread arcs start s n nodes path)
    (hlabels : ∀ n, s'.label? n = s.label? n) {fuel : Nat} (hfuel : nodes.length ≤ fuel)
    (rest : List NodeIx) : s'.trace fuel n rest = nodes ++ rest := by
  induction h generalizing fuel rest with
  | start hl =>
    obtain ⟨fuel, rfl⟩ : ∃ k, fuel = k + 1 := ⟨fuel - 1, by rw [List.length_singleton] at hfuel; omega⟩
    unfold Search.trace
    rw [hlabels, hl]
    rfl
  | @step m n l nodes path c _ hl hvia _ ih =>
    rw [List.length_append, List.length_singleton] at hfuel
    obtain ⟨fuel, rfl⟩ : ∃ k, fuel = k + 1 := ⟨fuel - 1, by omega⟩
    unfold Search.trace
    rw [hlabels, hl, Option.bind_some, hvia]
    dsimp only
    rw [ih (by omega), List.append_assoc]
    rfl

theorem Thread.labelled (h : Thread arcs start s n nodes path) :
    ∀ m ∈ nodes, ∃ l, s.label? m = some l := by
  induction h with
  | start hl =>
    intro m hm
    obtain rfl := List.mem_singleton.1 hm
    exact ⟨_, hl⟩
  | step _ hl _ _ ih =>
    intro m hm
    rcases List.mem_append.1 hm with hm | hm
    · exact ih m hm
    · obtain rfl := List.mem_singleton.1 hm
      exact ⟨_, hl⟩

/-- A thread that repeats no node is no longer than the number of labels. -/
theorem Thread.length_le (h : Thread arcs start s n nodes path) (hnodup : nodes.Nodup) :
    nodes.length ≤ s.labels.size := by
  have hsub : nodes ⊆ s.labels.keys := by
    intro m hm
    obtain ⟨l, hl⟩ := h.labelled m hm
    rw [Std.TreeMap.mem_keys, Std.TreeMap.mem_iff_isSome_getElem?]
    exact Option.isSome_iff_exists.2 ⟨l, hl⟩
  have hlength := (hnodup.subperm hsub).length_le
  rwa [Std.TreeMap.length_keys] at hlength

/-! ## What has been explored -/

/-- A thread within a list of nodes, which it does not repeat. -/
def Threaded (arcs : List (Arc α)) (start : NodeIx) (s : Search α) (within : List NodeIx)
    (n : NodeIx) : Prop :=
  ∃ nodes path, Thread arcs start s n nodes path ∧ nodes.Nodup ∧ nodes ⊆ within

/-- A new node has a thread if the node has one that it was reached from. -/
theorem Explored.threaded_cons (h : Explored arcs start s settled level []) {within : List NodeIx}
    {l : Label α} (hl : s.label? n = some l) (hnew : n ∉ within)
    (hvia : ∀ m, l.via = some m → m ∈ settled → Threaded arcs start s within m) :
    Threaded arcs start s (n :: within) n := by
  by_cases hstart : n = start
  · subst hstart
    exact ⟨[n], [], .start h.start_label, List.nodup_singleton n, by simp⟩
  · obtain ⟨a, ha, rfl, hsource, hfrom, -⟩ := h.labelled n l hl hstart
    obtain ⟨nodes, path, hthread, hnodup, hsub⟩ := hvia a.source hfrom hsource
    obtain ⟨c, hc⟩ := Arc.exists_cheapest ha
    refine ⟨nodes ++ [a.target], path ++ [c], .step hthread hl hfrom hc, ?_, ?_⟩
    · refine List.nodup_append.2 ⟨hnodup, List.nodup_singleton _, fun m hm k hk => ?_⟩
      obtain rfl := List.mem_singleton.1 hk
      rintro rfl
      exact hnew (hsub hm)
    · exact List.append_subset.2 ⟨List.Subset.trans hsub (List.subset_cons_self _ _), by simp⟩

/-- Nodes have threads among those that were settled before them. -/
theorem Explored.threaded_of_rooted (h : Explored arcs start s settled level [])
    {order : List NodeIx} (horder : s.Rooted order)
    (hlabel : ∀ n ∈ order, ∃ l, s.label? n = some l) :
    ∀ n ∈ order, Threaded arcs start s order n := by
  induction order with
  | nil => exact fun n hn => absurd hn List.not_mem_nil
  | cons n older ih =>
    obtain ⟨hnew, hvia, holder⟩ := horder
    obtain ⟨⟨l, hl⟩, hlabel⟩ := List.forall_mem_cons.1 hlabel
    have hthreads := ih holder hlabel
    refine List.forall_mem_cons.2 ⟨?_, fun m hm => ?_⟩
    · exact h.threaded_cons hl hnew fun m hm _ => hthreads m (hvia l m hl hm)
    · obtain ⟨nodes, path, hthread, hnodup, hsub⟩ := hthreads m hm
      exact ⟨nodes, path, hthread, hnodup, List.Subset.trans hsub (List.subset_cons_self _ _)⟩

/-- **A node that has been reached has a thread that repeats no node.** -/
theorem Explored.exists_thread (h : Explored arcs start s settled level []) {l : Label α}
    (hl : s.label? n = some l) :
    ∃ nodes path, Thread arcs start s n nodes path ∧ nodes.Nodup := by
  have hthreads : ∀ m ∈ settled, Threaded arcs start s settled m := by
    refine h.threaded_of_rooted h.rooted fun m hm => ?_
    obtain ⟨k, hk⟩ := h.done m hm
    exact ⟨k, hk.label⟩
  by_cases hn : n ∈ settled
  · obtain ⟨nodes, path, hthread, hnodup, -⟩ := hthreads n hn
    exact ⟨nodes, path, hthread, hnodup⟩
  · obtain ⟨nodes, path, hthread, hnodup, -⟩ :=
      h.threaded_cons hl hn fun m _ hm => hthreads m hm
    exact ⟨nodes, path, hthread, hnodup⟩

section Costs

variable (hsum : Scalar.SteadySum α) (hcost : ∀ a ∈ arcs, (0 : α) ≤ a.cost)

include hsum hcost

/-- **The score of a node is the cost of its thread**, added up along the cheapest arcs. -/
theorem Explored.totalCost_thread (h : Explored arcs start s settled level [])
    (hthread : Thread arcs start s n nodes path) :
    Scalar.Unsigned (Arc.totalCost path) ∧
      ∀ l, s.label? n = some l → l.score = Arc.totalCost path := by
  induction hthread with
  | start hl =>
    refine ⟨⟨h.zero_le, Std.ReflCmp.isLE_rfl⟩, fun l hl' => ?_⟩
    obtain rfl := Option.some.inj (hl.symm.trans hl')
    rfl
  | @step m n l nodes path c hthread hl hvia hcheapest ih =>
    obtain ⟨hunsigned, hscore⟩ := ih
    have hc := Arc.cheapest_of_eq_some hcheapest
    rw [Arc.totalCost_concat]
    refine ⟨hsum.unsigned_add hunsigned (hcost c hc.mem), fun l' hl' => ?_⟩
    obtain rfl := Option.some.inj (hl.symm.trans hl')
    have hstart : n ≠ start := by
      rintro rfl
      obtain rfl := Option.some.inj (h.start_label.symm.trans hl)
      cases hvia
    obtain ⟨a, ha, htarget, hsource, hfrom, k, hk, hkscore⟩ := h.labelled n l hl hstart
    obtain rfl := Option.some.inj (hfrom.symm.trans hvia)
    rw [hscore k hk] at hkscore
    -- The cheapest arc has been followed too, so the score is none more than what it gives.
    obtain ⟨k', hsettled⟩ := h.done _ hsource
    obtain rfl := Option.some.inj (hk.symm.trans hsettled.label)
    have hfollowed : l.score ≤ Arc.totalCost path + c.cost := by
      rcases hsettled.followed c hc.mem hc.source with htodo | ⟨l', hl', hle⟩
      · exact absurd htodo List.not_mem_nil
      · rw [hc.target, hl] at hl'
        obtain rfl := Option.some.inj hl'
        rwa [hscore k hk] at hle
    rw [hkscore] at hfollowed ⊢
    exact (hsum.add_eq_add hunsigned (hcost c hc.mem) (hcost a ha)
      (hc.cost_le ha rfl htarget hcost) hfollowed).symm

end Costs

end Search

/-- **The answer of a search is a thread to the goal**, and its cost is that of the cheapest arcs
between its nodes. -/
theorem search?_thread (hsum : Scalar.SteadySum α) (hcost : ∀ a ∈ arcs, (0 : α) ≤ a.cost)
    (hzero : (0 : α) ≤ 0) {nodes : List NodeIx} {cost : α}
    (h : search? arcs start goal = some (nodes, cost)) :
    (∃ s, Search.Thread arcs start s goal nodes (Arc.between arcs nodes)) ∧ nodes.Nodup ∧
      cost = Arc.totalCost (Arc.between arcs nodes) := by
  have hended := Search.ended_search hsum.toMonotoneSum hcost hzero start goal
  unfold search? at h
  generalize Search.run arcs goal (Search.fuel arcs) (Search.start start) = out at h hended
  cases hended with
  | exhausted => cases h
  | @arrived s settled level w queue hexplored hgoal hpop hw =>
    obtain ⟨l, hl, heq⟩ := Option.map_eq_some_iff.1 h
    obtain ⟨nodes', path, hthread, hnodup⟩ := hexplored.exists_thread (s := s) hl
    have htrace := hthread.trace (fun m => (rfl : Search.label? ⟨s.labels, queue⟩ m = _))
      (hthread.length_le hnodup) []
    rw [List.append_nil] at htrace
    obtain ⟨rfl, rfl⟩ := Prod.mk.inj heq
    dsimp only
    rw [htrace, hthread.between_eq]
    exact ⟨⟨s, hthread⟩, hnodup, (hexplored.totalCost_thread hsum hcost hthread).2 l hl⟩

end TransitMatching
