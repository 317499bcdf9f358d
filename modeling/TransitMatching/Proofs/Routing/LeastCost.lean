import TransitMatching.Proofs.Routing.Exploration

/-!
# Least-cost search finds least-cost walks

Each step of a search leaves less to do, and there is fuel for all of them
(`ended_run`). So a search ends in one of two ways, at its goal or with nothing left
to settle (`Ended`), and in either case what it knows bounds the cost of every walk.

* `search?_least`: **a search finds a walk exactly if there is one, and the cost it
  gives is that of a walk and of none more than it.**
-/

namespace TransitMatching

variable {α : Type} [Scalar α] {arcs : List (Arc α)} {start goal : NodeIx}

namespace Search

theorem label?_start (start n : NodeIx) : (Search.start start : Search α).label? n =
    if start = n then some { score := 0 } else none := by
  simp [label?, Search.start, Std.TreeMap.getElem?_insert]

theorem explored_start (arcs : List (Arc α)) (start : NodeIx) (hzero : (0 : α) ≤ 0) :
    Explored arcs start (Search.start start) [] 0 [] := by
  have hqueue : ∀ w, w ∈ (Search.start start : Search α).queue.toList ↔ w = ⟨start, 0⟩ := by
    intro w
    rw [Search.start, (Heap.push_perm _ _).mem_iff, List.mem_cons]
    simp
  refine
    { ordered := Heap.ordered_empty.push Waiting.ranks_before _
      nodup := (Heap.push_perm _ _).nodup_iff.2 (by simp)
      level_nonneg := hzero
      start_label := by rw [label?_start, if_pos rfl]
      labelled := ?labelled
      queued := ?queued
      waiting := ?waiting
      done := fun n hn => absurd hn List.not_mem_nil
      rooted := trivial }
  case labelled =>
    intro n l hl hn
    rw [label?_start, if_neg (Ne.symm hn)] at hl
    cases hl
  case queued =>
    intro w hw
    obtain rfl := (hqueue w).1 hw
    exact ⟨hzero, { score := 0 }, by rw [label?_start, if_pos rfl], .inl rfl⟩
  case waiting =>
    intro n l hl _
    rw [label?_start] at hl
    split at hl
    · next heq =>
      cases hl
      exact (hqueue _).2 (heq ▸ rfl)
    · cases hl

/-- How a search from one node to another ends: with nothing left to settle, or with the goal next to
be settled. -/
inductive Ended (arcs : List (Arc α)) (start goal : NodeIx) : Option (Search α) → Prop where
  | exhausted {s : Search α} {settled : List NodeIx} {level : α} :
    Explored arcs start s settled level [] → goal ∉ settled → s.queue.toList = [] →
      Ended arcs start goal none
  | arrived {s : Search α} {settled : List NodeIx} {level : α} {w : Waiting α}
    {queue : Heap (Waiting α) Waiting.before} :
    Explored arcs start s settled level [] → goal ∉ settled →
      s.queue.pop? = some (w, queue) → w.node = goal →
        Ended arcs start goal (some ⟨s.labels, queue⟩)

/-- **A search ends before it runs out of fuel.** -/
theorem ended_run (hsum : Scalar.MonotoneSum α) (hcost : ∀ a ∈ arcs, (0 : α) ≤ a.cost)
    (fuel : Nat) {s : Search α} {settled : List NodeIx} {level : α}
    (h : Explored arcs start s settled level []) (hgoal : goal ∉ settled)
    (hfuel : s.queue.toList.length + (ahead arcs settled).length < fuel) :
    Ended arcs start goal (run arcs goal fuel s) := by
  induction fuel generalizing s settled level with
  | zero => exact absurd hfuel (Nat.not_lt_zero _)
  | succ fuel ih =>
    obtain ⟨labels, queue⟩ := s
    unfold run
    split
    · next hpop => exact .exhausted h hgoal ((Heap.pop?_eq_none_iff _).1 hpop)
    · next w rest hpop =>
      split
      · next hw => exact .arrived h hgoal hpop hw
      · next hw =>
        -- What is left to do pays for the step, whether a node is settled or an entry is stale.
        obtain ⟨settled', level', hsettled, hnext, hless⟩ := h.settle hsum hcost hpop
        refine ih hnext ?_ (Nat.lt_of_lt_of_le hless (Nat.le_of_lt_succ hfuel))
        rcases hsettled with rfl | rfl
        · exact hgoal
        · exact fun hmem => hgoal ((List.mem_cons.1 hmem).resolve_left (Ne.symm hw))

/-- At its start a search has one entry to settle, and every arc may add one. -/
theorem length_lt_fuel (arcs : List (Arc α)) (start : NodeIx) :
    (Search.start start : Search α).queue.toList.length + (ahead arcs []).length <
      fuel arcs := by
  have hone : (Search.start start : Search α).queue.toList.length = 1 :=
    (Heap.push_perm _ _).length_eq
  have hall : (ahead arcs []).length = arcs.length := by simp [ahead]
  have hpow : ∀ n, 1 + n < Nat.pow 2 (n + 1) := by
    intro n
    induction n with
    | zero => decide
    | succ n ih =>
      have hdouble : Nat.pow 2 (n + 1 + 1) = Nat.pow 2 (n + 1) * 2 := rfl
      omega
  rw [hone, hall]
  exact hpow _

theorem ended_search (hsum : Scalar.MonotoneSum α) (hcost : ∀ a ∈ arcs, (0 : α) ≤ a.cost)
    (hzero : (0 : α) ≤ 0) (start goal : NodeIx) :
    Ended arcs start goal (run arcs goal (fuel arcs) (Search.start start)) :=
  ended_run hsum hcost _ (explored_start arcs start hzero) List.not_mem_nil
    (length_lt_fuel arcs start)

end Search

/-- The cost is that of a walk from one node to another, and no such walk costs less. -/
structure LeastCost (arcs : List (Arc α)) (start goal : NodeIx) (cost : α) : Prop where
  attained : Search.Attained arcs start goal cost
  least : ∀ path, Walk arcs start goal path → cost ≤ Arc.totalCost path

/-- **A search finds a walk if there is one**, and its cost is the least. -/
theorem search?_least (hsum : Scalar.MonotoneSum α) (hcost : ∀ a ∈ arcs, (0 : α) ≤ a.cost)
    (hzero : (0 : α) ≤ 0) (start goal : NodeIx) :
    (search? arcs start goal = none ∧ ∀ path, ¬ Walk arcs start goal path) ∨
      ∃ nodes cost, search? arcs start goal = some (nodes, cost) ∧
        LeastCost arcs start goal cost := by
  have hended := Search.ended_search hsum hcost hzero start goal
  unfold search?
  generalize Search.run arcs goal (Search.fuel arcs) (Search.start start) = out at hended
  cases hended with
  | exhausted h hgoal hempty =>
    -- A walk would leave something that waits, or have its end settled.
    refine .inl ⟨rfl, fun path hpath => ?_⟩
    rcases h.walk_bound hsum hcost hpath with ⟨hsettled, -⟩ | ⟨w, hw, -⟩
    · exact hgoal hsettled
    · rw [hempty] at hw
      exact List.not_mem_nil hw
  | @arrived s settled level w queue h hgoal hpop hw =>
    obtain ⟨hperm, -, -, -, hleast⟩ := h.pop hpop
    obtain ⟨-, l, hl, hscore⟩ := h.queued w (hperm.mem_iff.2 List.mem_cons_self)
    rw [hw] at hl
    have hlabel : (⟨s.labels, queue⟩ : Search α).label? goal = some l := hl
    refine .inr ⟨_, l.score, by rw [Option.bind_some, hlabel]; rfl, h.attained hl, ?_⟩
    intro path hpath
    have hle : l.score ≤ w.score := by
      rcases hscore with hscore | hscore
      · rw [hscore]
        exact (Scalar.number_of_le (hleast w (hperm.mem_iff.2 List.mem_cons_self))).1
      · exact Scalar.le_of_lt hscore
    -- The goal is not settled, so a walk to it costs what waits at least.
    rcases h.walk_bound hsum hcost hpath with ⟨hsettled, -⟩ | ⟨w', hw', hbound⟩
    · exact absurd hsettled hgoal
    · exact Scalar.le_trans hle (Scalar.le_trans (hleast w' hw') hbound)

/-- From a node to itself leads the path that stays there, at no cost. -/
theorem search?_self (arcs : List (Arc α)) (n : NodeIx) : search? arcs n n = some ([n], 0) := by
  obtain ⟨queue, hpop⟩ : ∃ queue,
      (Search.start n : Search α).queue.pop? = some (⟨n, 0⟩, queue) := ⟨_, rfl⟩
  have hfuel : Search.fuel arcs = Search.fuel arcs - 1 + 1 :=
    (Nat.sub_add_cancel (Nat.pow_pos (by decide))).symm
  have hrun : Search.run arcs n (Search.fuel arcs) (Search.start n) =
      some ⟨(Search.start n : Search α).labels, queue⟩ := by
    rw [hfuel]
    unfold Search.run
    rw [hpop]
    exact if_pos rfl
  have hlabel : (⟨(Search.start n : Search α).labels, queue⟩ : Search α).label? n =
      some { score := 0 } := by
    have h := Search.label?_start (α := α) n n
    rwa [if_pos rfl] at h
  have hsize : (Search.start n : Search α).labels.size = 1 := by
    simp [Search.start, Std.TreeMap.size_insert]
  unfold search?
  rw [hrun, Option.bind_some, hlabel, Option.map_some]
  dsimp only
  rw [hsize]
  unfold Search.trace
  rw [hlabel]
  rfl

end TransitMatching
