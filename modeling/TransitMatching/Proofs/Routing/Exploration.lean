import TransitMatching.Proofs.Heap
import TransitMatching.Proofs.Number.Order
import TransitMatching.Routing.Search

/-!
# What a search knows on its way

With costs that are not negative, nodes are settled in the order of their scores,
so what is settled stays as it is. `Explored` says what a search has found when
some nodes are settled and the arcs in a list are still to be followed from the
last of them.

* `Explored.attained`: every score is the cost of a walk.
* `Explored.walk_bound`: no walk costs less than the score of its last node, if that
  is settled, and else no less than some score that waits.
* `Explored.relax`, `Explored.settle`: following an arc and settling a node.
-/

namespace TransitMatching

variable {α : Type} [Scalar α]

theorem le_of_not_before {a b : α} (ha : Scalar.IsNumber a) (hb : Scalar.IsNumber b)
    (h : ¬ Before b a) : a ≤ b :=
  Scalar.le_of_not_lt hb ha fun hlt => h (.inl hlt)

theorem Before.isNumber {a b : α} (h : Before a b) : Scalar.IsNumber a := by
  rcases h with h | ⟨ha, -⟩
  · exact (Scalar.number_of_le (Scalar.le_of_lt h)).1
  · exact ha

theorem Before.asymm {a b : α} (h : Before a b) : ¬ Before b a := by
  intro h'
  rcases h with h | ⟨-, hb⟩
  · rcases h' with h' | ⟨-, ha⟩
    · exact Scalar.not_le_of_lt h (Scalar.le_of_lt h')
    · exact ha (Scalar.number_of_le (Scalar.le_of_lt h)).1
  · exact hb h'.isNumber

theorem not_before_trans {a b c : α} (h : ¬ Before b a) (h' : ¬ Before c b) : ¬ Before c a := by
  intro hca
  have hc : Scalar.IsNumber c := hca.isNumber
  by_cases hb : Scalar.IsNumber b
  · by_cases ha : Scalar.IsNumber a
    · have hac : a ≤ c := Scalar.le_trans (le_of_not_before ha hb h) (le_of_not_before hb hc h')
      rcases hca with hca | ⟨-, hna⟩
      · exact Scalar.not_le_of_lt hca hac
      · exact hna ha
    · exact h (.inr ⟨hb, ha⟩)
  · exact h' (.inr ⟨hc, hb⟩)

/-- Nodes can be ranked by their scores. -/
theorem Waiting.ranks_before : Heap.Ranks (Waiting.before : Waiting α → Waiting α → Bool) where
  asymm h := by
    simp only [Waiting.before, decide_eq_true_eq, decide_eq_false_iff_not] at h ⊢
    exact h.asymm
  trans h h' := by
    simp only [Waiting.before, decide_eq_false_iff_not] at h h' ⊢
    exact not_before_trans h h'

namespace Arc

@[simp]
theorem totalCost_concat (path : List (Arc α)) (a : Arc α) :
    totalCost (path ++ [a]) = totalCost path + a.cost := by
  simp [totalCost]

omit [Scalar α] in
theorem mem_leaving {arcs : List (Arc α)} {n : NodeIx} {a : Arc α} :
    a ∈ leaving arcs n ↔ a ∈ arcs ∧ a.source = n := by
  simp [leaving]

end Arc

theorem Walk.cost_nonneg (hsum : Scalar.MonotoneSum α) {arcs : List (Arc α)}
    (hcost : ∀ a ∈ arcs, (0 : α) ≤ a.cost) (hzero : (0 : α) ≤ 0) {n m : NodeIx}
    {path : List (Arc α)} (h : Walk arcs n m path) : 0 ≤ Arc.totalCost path := by
  induction h with
  | nil => exact hzero
  | snoc _ ha ih =>
    rw [Arc.totalCost_concat]
    exact hsum.add_nonneg ih (hcost _ ha)

namespace Search

/-- The search after a node has been reached by a new label. -/
def reach (s : Search α) (n : NodeIx) (l : Label α) : Search α where
  labels := s.labels.insert n l
  queue := s.queue.push ⟨n, l.score⟩

theorem label?_reach (s : Search α) (n m : NodeIx) (l : Label α) :
    (s.reach n l).label? m = if n = m then some l else s.label? m := by
  simp [label?, reach, Std.TreeMap.getElem?_insert]

/-- Reaching a node leaves the labels of others alone. -/
theorem label?_reach_of_not_mem (s : Search α) {n : NodeIx} (l : Label α) {nodes : List NodeIx}
    (hn : n ∉ nodes) : ∀ m ∈ nodes, (s.reach n l).label? m = s.label? m := by
  intro m hm
  rw [label?_reach, if_neg]
  rintro rfl
  exact hn hm

theorem mem_queue_reach {s : Search α} {n : NodeIx} {l : Label α} {w : Waiting α} :
    w ∈ (s.reach n l).queue.toList ↔ w = ⟨n, l.score⟩ ∨ w ∈ s.queue.toList := by
  rw [reach, (Heap.push_perm s.queue _).mem_iff, List.mem_cons]

/-- An arc leads to a node with a score that is as low, or else reaches it anew. -/
theorem relax_cases (score : α) (s : Search α) (a : Arc α) :
    (∃ l, s.label? a.target = some l ∧ l.score ≤ score + a.cost ∧ relax score s a = s) ∨
      (∀ l, s.label? a.target = some l → ¬ l.score ≤ score + a.cost) ∧
        relax score s a = s.reach a.target ⟨score + a.cost, some a.source⟩ := by
  unfold relax
  dsimp only
  cases hl : s.label? a.target with
  | none =>
    refine .inr ⟨?_, rfl⟩
    intro l h
    cases h
  | some l =>
    by_cases hle : l.score ≤ score + a.cost
    · exact .inl ⟨l, rfl, hle, by simp [hle]⟩
    · refine .inr ⟨fun l' h => ?_, by simp [hle, reach]⟩
      cases h
      exact hle

/-- Nodes in the order in which they were settled, the last one first: each once, and after the node
from which it was reached. -/
def Rooted (s : Search α) : List NodeIx → Prop
  | [] => True
  | n :: older =>
    n ∉ older ∧ (∀ l m, s.label? n = some l → l.via = some m → m ∈ older) ∧ s.Rooted older

theorem Rooted.congr {s s' : Search α} {nodes : List NodeIx} (h : s.Rooted nodes)
    (hsame : ∀ n ∈ nodes, s'.label? n = s.label? n) : s'.Rooted nodes := by
  induction nodes with
  | nil => exact trivial
  | cons n older ih =>
    obtain ⟨hn, hvia, holder⟩ := h
    obtain ⟨hsame, hsameOlder⟩ := List.forall_mem_cons.1 hsame
    refine ⟨hn, fun l m hl => ?_, ih holder hsameOlder⟩
    rw [hsame] at hl
    exact hvia l m hl

/-- A label that comes from following an arc from a settled node. -/
def LabelledFrom (arcs : List (Arc α)) (s : Search α) (settled : List NodeIx) (n : NodeIx)
    (l : Label α) : Prop :=
  ∃ a ∈ arcs, a.target = n ∧ a.source ∈ settled ∧ l.via = some a.source ∧
    ∃ k, s.label? a.source = some k ∧ l.score = k.score + a.cost

theorem LabelledFrom.congr {arcs : List (Arc α)} {s s' : Search α} {settled settled' : List NodeIx}
    {n : NodeIx} {l : Label α} (h : LabelledFrom arcs s settled n l) (hsub : settled ⊆ settled')
    (hsame : ∀ m ∈ settled, s'.label? m = s.label? m) : LabelledFrom arcs s' settled' n l := by
  obtain ⟨a, ha, htarget, hsource, hvia, k, hk, hscore⟩ := h
  exact ⟨a, ha, htarget, hsub hsource, hvia, k, (hsame _ hsource).trans hk, hscore⟩

/-- A node that is done with: its score is not above the level, it waits no longer at that score, and
the arcs that leave it have been followed, apart from those still to be followed. -/
structure Settled (arcs : List (Arc α)) (s : Search α) (level : α) (todo : List (Arc α))
    (n : NodeIx) (l : Label α) : Prop where
  label : s.label? n = some l
  le_level : l.score ≤ level
  not_queued : (⟨n, l.score⟩ : Waiting α) ∉ s.queue.toList
  followed : ∀ a ∈ arcs, a.source = n →
    a ∈ todo ∨ ∃ m, s.label? a.target = some m ∧ m.score ≤ l.score + a.cost

/-- A settled node stays settled while entries are taken away, the level rises, and labels and arcs
to follow stay. -/
theorem Settled.mono {arcs : List (Arc α)} {s s' : Search α} {level level' : α}
    {todo todo' : List (Arc α)} {n : NodeIx} {l : Label α} (h : Settled arcs s level todo n l)
    (hlabels : ∀ m, s'.label? m = s.label? m)
    (hqueue : ∀ w ∈ s'.queue.toList, w ∈ s.queue.toList) (hlevel : level ≤ level')
    (htodo : todo ⊆ todo') : Settled arcs s' level' todo' n l where
  label := (hlabels n).trans h.label
  le_level := Scalar.le_trans h.le_level hlevel
  not_queued hmem := h.not_queued (hqueue _ hmem)
  followed a ha hsource := by
    rw [hlabels]
    exact (h.followed a ha hsource).imp_left fun hmem => htodo hmem

/-- A settled node stays settled when another one is reached at a lower score than before. -/
theorem Settled.reach {arcs : List (Arc α)} {s : Search α} {level : α} {todo : List (Arc α)}
    {m n : NodeIx} {k l : Label α} (h : Settled arcs s level todo m k) (hne : n ≠ m)
    (hbetter : ∀ t, s.label? n = some t → l.score < t.score) :
    Settled arcs (s.reach n l) level todo m k where
  label := by rw [label?_reach, if_neg hne, h.label]
  le_level := h.le_level
  not_queued hmem := by
    rcases mem_queue_reach.1 hmem with heq | hmem
    · exact hne (Waiting.mk.inj heq).1.symm
    · exact h.not_queued hmem
  followed a ha hsource := by
    refine (h.followed a ha hsource).imp_right ?_
    rintro ⟨t, ht, hle⟩
    rw [label?_reach]
    split
    · next heq =>
      -- The target itself is reached at a lower score, which is low enough all the more.
      exact ⟨l, rfl, Scalar.le_trans (Scalar.le_of_lt (hbetter t (heq ▸ ht))) hle⟩
    · exact ⟨t, ht, hle⟩

/-- What a search knows when some nodes are settled, the last one at a level, and some arcs are still
to be followed. -/
structure Explored (arcs : List (Arc α)) (start : NodeIx) (s : Search α) (settled : List NodeIx)
    (level : α) (todo : List (Arc α)) : Prop where
  ordered : s.queue.Ordered
  nodup : s.queue.toList.Nodup
  level_nonneg : 0 ≤ level
  start_label : s.label? start = some { score := 0 }
  labelled : ∀ n l, s.label? n = some l → n ≠ start → LabelledFrom arcs s settled n l
  /-- What waits is not below the level. An entry above the score of its node is stale. -/
  queued : ∀ w ∈ s.queue.toList, level ≤ w.score ∧
    ∃ l, s.label? w.node = some l ∧ (l.score = w.score ∨ l.score < w.score)
  waiting : ∀ n l, s.label? n = some l → n ∉ settled → ⟨n, l.score⟩ ∈ s.queue.toList
  done : ∀ n ∈ settled, ∃ l, Settled arcs s level todo n l
  rooted : s.Rooted settled

variable {arcs : List (Arc α)} {start : NodeIx} {s : Search α} {settled : List NodeIx} {level : α}
  {todo : List (Arc α)}

/-! ## What follows -/

theorem Explored.level_number (h : Explored arcs start s settled level todo) : level ≤ level :=
  (Scalar.number_of_le h.level_nonneg).2

theorem Explored.zero_le (h : Explored arcs start s settled level todo) : (0 : α) ≤ 0 :=
  (Scalar.number_of_le h.level_nonneg).1

/-- The score is the cost of a walk from the start to the node. -/
def Attained (arcs : List (Arc α)) (start n : NodeIx) (score : α) : Prop :=
  ∃ path, Walk arcs start n path ∧ Arc.totalCost path = score

/-- A score is attained if that of the node it comes from is. -/
theorem Explored.attained_of_via (h : Explored arcs start s settled level todo) {n : NodeIx}
    {l : Label α} (hl : s.label? n = some l)
    (hvia : ∀ m ∈ settled, l.via = some m →
      ∀ k, s.label? m = some k → Attained arcs start m k.score) :
    Attained arcs start n l.score := by
  by_cases hstart : n = start
  · subst hstart
    obtain rfl := Option.some.inj (h.start_label.symm.trans hl)
    exact ⟨[], .nil n, rfl⟩
  · obtain ⟨a, ha, rfl, hsource, hfrom, k, hk, hscore⟩ := h.labelled n l hl hstart
    obtain ⟨path, hpath, htotal⟩ := hvia _ hsource hfrom k hk
    exact ⟨path ++ [a], .snoc hpath ha, by rw [Arc.totalCost_concat, htotal, hscore]⟩

theorem Explored.attained_of_rooted (h : Explored arcs start s settled level todo)
    {nodes : List NodeIx} (hnodes : s.Rooted nodes) :
    ∀ n ∈ nodes, ∀ l, s.label? n = some l → Attained arcs start n l.score := by
  -- Nodes are taken in the order in which they were settled.
  induction nodes with
  | nil => exact fun n hn => absurd hn List.not_mem_nil
  | cons n older ih =>
    obtain ⟨-, hvia, holder⟩ := hnodes
    refine List.forall_mem_cons.2 ⟨fun l hl => ?_, ih holder⟩
    exact h.attained_of_via hl fun m _ hm => ih holder m (hvia l m hl hm)

/-- **Every score is the cost of a walk from the start.** -/
theorem Explored.attained (h : Explored arcs start s settled level todo) {n : NodeIx}
    {l : Label α} (hl : s.label? n = some l) : Attained arcs start n l.score :=
  h.attained_of_via hl fun m hm _ => h.attained_of_rooted h.rooted m hm

section Costs

variable (hsum : Scalar.MonotoneSum α) (hcost : ∀ a ∈ arcs, (0 : α) ≤ a.cost)

include hsum hcost

theorem Explored.score_nonneg (h : Explored arcs start s settled level todo) {n : NodeIx}
    {l : Label α} (hl : s.label? n = some l) : 0 ≤ l.score := by
  obtain ⟨path, hpath, htotal⟩ := h.attained hl
  rw [← htotal]
  exact hpath.cost_nonneg hsum hcost h.zero_le

/-- **No walk costs less than the score of a settled node at its end**, and where the end is not
settled, some node waits at a score that is not above the cost. -/
theorem Explored.walk_bound (h : Explored arcs start s settled level []) {n : NodeIx}
    {path : List (Arc α)} (hpath : Walk arcs start n path) :
    (n ∈ settled ∧ ∃ l, s.label? n = some l ∧ l.score ≤ Arc.totalCost path) ∨
      ∃ w ∈ s.queue.toList, w.score ≤ Arc.totalCost path := by
  -- A node with a label is settled, or it waits at its score.
  have hknown : ∀ n l, s.label? n = some l → ∀ c, l.score ≤ c →
      (n ∈ settled ∧ ∃ l, s.label? n = some l ∧ l.score ≤ c) ∨
        ∃ w ∈ s.queue.toList, w.score ≤ c := by
    intro n l hl c hle
    by_cases hn : n ∈ settled
    · exact .inl ⟨hn, l, hl, hle⟩
    · exact .inr ⟨_, h.waiting n l hl hn, hle⟩
  induction hpath with
  | nil => exact hknown _ _ h.start_label _ h.zero_le
  | @snoc a path hwalk ha ih =>
    rw [Arc.totalCost_concat]
    have hpos := hwalk.cost_nonneg hsum hcost h.zero_le
    rcases ih with ⟨hn, k, hk, hle⟩ | ⟨w, hw, hle⟩
    · obtain ⟨l, hsettled⟩ := h.done _ hn
      obtain rfl := Option.some.inj (hk.symm.trans hsettled.label)
      rcases hsettled.followed a ha rfl with htodo | ⟨m, hm, hmle⟩
      · exact absurd htodo List.not_mem_nil
      · exact hknown _ m hm _ (Scalar.le_trans hmle
          (hsum.add_le_add (h.score_nonneg hsum hcost hk) (hcost a ha) hle))
    · exact .inr ⟨w, hw, Scalar.le_trans hle (hsum.le_add hpos (hcost a ha))⟩

end Costs

/-! ## Following an arc -/

/-- A node that is reached at a lower score than before is not settled, so what is settled stays. -/
theorem Explored.not_settled_of_better (h : Explored arcs start s settled level todo) {n : NodeIx}
    {l : Label α} (hlevel : level ≤ l.score)
    (hbetter : ∀ m, s.label? n = some m → l.score < m.score) : n ∉ settled := by
  intro hn
  obtain ⟨m, hm⟩ := h.done n hn
  exact Scalar.not_le_of_lt (hbetter m hm.label) (Scalar.le_trans hm.le_level hlevel)

theorem Explored.reach (h : Explored arcs start s settled level todo) {n : NodeIx} {l : Label α}
    (hlevel : level ≤ l.score) (hfrom : LabelledFrom arcs s settled n l)
    (hbetter : ∀ m, s.label? n = some m → l.score < m.score) :
    Explored arcs start (s.reach n l) settled level todo := by
  have hnew := h.not_settled_of_better hlevel hbetter
  have hstart : n ≠ start := by
    rintro rfl
    exact Scalar.not_le_of_lt (hbetter _ h.start_label) (Scalar.le_trans h.level_nonneg hlevel)
  have hsame := s.label?_reach_of_not_mem l hnew
  refine
    { ordered := h.ordered.push Waiting.ranks_before _
      nodup := ?nodup
      level_nonneg := h.level_nonneg
      start_label := by rw [label?_reach, if_neg hstart, h.start_label]
      labelled := ?labelled
      queued := ?queued
      waiting := ?waiting
      done := ?done
      rooted := h.rooted.congr hsame }
  case nodup =>
    -- What waits for the node waits at a score above the new one.
    refine (Heap.push_perm s.queue _).nodup_iff.2 (List.nodup_cons.2 ⟨fun hmem => ?_, h.nodup⟩)
    obtain ⟨-, m, hm, hscore⟩ := h.queued _ hmem
    rcases hscore with hscore | hscore
    · exact Scalar.lt_irrefl _ (hscore ▸ hbetter m hm)
    · exact Scalar.not_le_of_lt (hbetter m hm) (Scalar.le_of_lt hscore)
  case labelled =>
    intro m k hk hm
    rw [label?_reach] at hk
    split at hk
    · next heq =>
      cases hk
      exact heq ▸ hfrom.congr (List.Subset.refl _) hsame
    · exact (h.labelled m k hk hm).congr (List.Subset.refl _) hsame
  case queued =>
    intro w hw
    rcases mem_queue_reach.1 hw with rfl | hw
    · exact ⟨hlevel, l, by rw [label?_reach, if_pos rfl], .inl rfl⟩
    · obtain ⟨hle, m, hm, hscore⟩ := h.queued w hw
      refine ⟨hle, ?_⟩
      rw [label?_reach]
      split
      · next heq =>
        -- What waited for this node is stale from now on.
        have hlt := hbetter m (heq ▸ hm)
        rcases hscore with hscore | hscore
        · exact ⟨l, rfl, .inr (hscore ▸ hlt)⟩
        · exact ⟨l, rfl, .inr (Scalar.lt_of_lt_of_le hlt (Scalar.le_of_lt hscore))⟩
      · exact ⟨m, hm, hscore⟩
  case waiting =>
    intro m k hk hm
    rw [label?_reach] at hk
    split at hk
    · next heq =>
      cases hk
      exact mem_queue_reach.2 (.inl (heq ▸ rfl))
    · exact mem_queue_reach.2 (.inr (h.waiting m k hk hm))
  case done =>
    intro m hm
    obtain ⟨k, hk⟩ := h.done m hm
    have hne : n ≠ m := by
      rintro rfl
      exact hnew hm
    exact ⟨k, hk.reach hne hbetter⟩

/-- An arc is done with when its target has a score that is as low as the arc could give. -/
theorem Explored.drop {a : Arc α} (h : Explored arcs start s settled level (a :: todo))
    {k : Label α} (hk : s.label? a.source = some k) (hlevel : k.score = level)
    (htarget : ∃ l, s.label? a.target = some l ∧ l.score ≤ level + a.cost) :
    Explored arcs start s settled level todo := by
  refine { h with done := fun n hn => ?_ }
  obtain ⟨l, hl⟩ := h.done n hn
  refine ⟨l, hl.label, hl.le_level, hl.not_queued, fun b hb hsource => ?_⟩
  rcases hl.followed b hb hsource with htodo | hfollowed
  · rcases List.mem_cons.1 htodo with rfl | htodo
    · subst hsource
      obtain rfl := Option.some.inj (hk.symm.trans hl.label)
      rw [hlevel]
      exact .inr htarget
    · exact .inl htodo
  · exact .inr hfollowed

section Costs

variable (hsum : Scalar.MonotoneSum α) (hcost : ∀ a ∈ arcs, (0 : α) ≤ a.cost)

include hsum hcost

/-- **Following an arc from the node settled last keeps what is known**, and leaves the labels of
settled nodes alone. -/
theorem Explored.relax {a : Arc α} (h : Explored arcs start s settled level (a :: todo))
    (ha : a ∈ arcs) (hsource : a.source ∈ settled) {k : Label α}
    (hk : s.label? a.source = some k) (hlevel : k.score = level) :
    Explored arcs start (s.relax level a) settled level todo ∧
      ∀ n ∈ settled, (s.relax level a).label? n = s.label? n := by
  have hreached := hsum.le_add h.level_nonneg (hcost a ha)
  rcases relax_cases level s a with ⟨l, hl, hle, heq⟩ | ⟨hworse, heq⟩
  · rw [heq]
    exact ⟨h.drop hk hlevel ⟨l, hl, hle⟩, fun _ _ => rfl⟩
  · rw [heq]
    have hbetter : ∀ m, s.label? a.target = some m → level + a.cost < m.score := by
      intro m hm
      refine Scalar.lt_of_not_le ?_ (Scalar.number_of_le hreached).2 (hworse m hm)
      exact (Scalar.number_of_le (h.score_nonneg hsum hcost hm)).2
    have hnew := h.not_settled_of_better (l := ⟨level + a.cost, some a.source⟩) hreached hbetter
    have hsame := s.label?_reach_of_not_mem ⟨level + a.cost, some a.source⟩ hnew
    have hfrom : LabelledFrom arcs s settled a.target ⟨level + a.cost, some a.source⟩ :=
      ⟨a, ha, rfl, hsource, rfl, k, hk, by rw [hlevel]⟩
    have htarget : (s.reach a.target ⟨level + a.cost, some a.source⟩).label? a.target =
        some ⟨level + a.cost, some a.source⟩ := by
      rw [label?_reach, if_pos rfl]
    exact ⟨(h.reach hreached hfrom hbetter).drop ((hsame _ hsource).trans hk) hlevel
      ⟨_, htarget, (Scalar.number_of_le hreached).2⟩, hsame⟩

/-- Following all arcs that are to be followed. -/
theorem Explored.foldl_relax {n : NodeIx} {k : Label α} (hn : n ∈ settled)
    (hlevel : k.score = level) (todo : List (Arc α)) (s : Search α)
    (h : Explored arcs start s settled level todo) (hk : s.label? n = some k)
    (htodo : ∀ a ∈ todo, a ∈ arcs ∧ a.source = n) :
    Explored arcs start (todo.foldl (Search.relax level) s) settled level [] := by
  induction todo generalizing s with
  | nil => exact h
  | cons a todo ih =>
    obtain ⟨⟨ha, rfl⟩, htodo⟩ := List.forall_mem_cons.1 htodo
    obtain ⟨hnext, hsame⟩ := h.relax hsum hcost ha hn hk hlevel
    exact ih _ hnext ((hsame _ hn).trans hk) htodo

end Costs

/-! ## Settling a node -/

/-- What is known depends on labels and on what waits, not on how the labels are stored. -/
theorem Explored.congr {s' : Search α} (h : Explored arcs start s settled level todo)
    (hlabels : ∀ n, s'.label? n = s.label? n) (hqueue : s'.queue = s.queue) :
    Explored arcs start s' settled level todo := by
  have hsame : ∀ n ∈ settled, s'.label? n = s.label? n := fun n _ => hlabels n
  refine
    { ordered := hqueue ▸ h.ordered
      nodup := hqueue ▸ h.nodup
      level_nonneg := h.level_nonneg
      start_label := (hlabels _).trans h.start_label
      labelled := ?labelled
      queued := ?queued
      waiting := ?waiting
      done := ?done
      rooted := h.rooted.congr hsame }
  case labelled =>
    intro n l hl hn
    rw [hlabels] at hl
    exact (h.labelled n l hl hn).congr (List.Subset.refl _) hsame
  case queued =>
    intro w hw
    rw [hqueue] at hw
    rw [hlabels]
    exact h.queued w hw
  case waiting =>
    intro n l hl hn
    rw [hlabels] at hl
    rw [hqueue]
    exact h.waiting n l hl hn
  case done =>
    intro n hn
    obtain ⟨l, hl⟩ := h.done n hn
    exact ⟨l, hl.mono hlabels (fun w hw => hqueue ▸ hw) h.level_number fun _ ha => ha⟩

/-- Of what waits, an entry of least score is taken. -/
theorem Explored.pop (h : Explored arcs start s settled level todo) {w : Waiting α}
    {queue : Heap (Waiting α) Waiting.before} (hpop : s.queue.pop? = some (w, queue)) :
    s.queue.toList.Perm (w :: queue.toList) ∧ queue.Ordered ∧ queue.toList.Nodup ∧
      w ∉ queue.toList ∧ ∀ w' ∈ s.queue.toList, w.score ≤ w'.score := by
  have hperm := Heap.pop?_perm hpop
  obtain ⟨hw, hnodup⟩ := List.nodup_cons.1 (hperm.nodup_iff.1 h.nodup)
  refine ⟨hperm, h.ordered.pop? Waiting.ranks_before hpop, hnodup, hw, fun w' hw' => ?_⟩
  have hfront := h.ordered.front Waiting.ranks_before hpop w' hw'
  have hnumber := (h.queued w (hperm.mem_iff.2 List.mem_cons_self)).1
  refine le_of_not_before (Scalar.number_of_le hnumber).2
    (Scalar.number_of_le (h.queued w' hw').1).2 ?_
  simpa [Waiting.before] using hfront

theorem isStale_eq_true_iff {w : Waiting α} {l : Label α} (hl : s.label? w.node = some l) :
    s.isStale w = true ↔ l.score < w.score := by
  simp [isStale, hl]

/-- A stale entry is not missed. -/
theorem Explored.skip (h : Explored arcs start s settled level []) {w : Waiting α}
    {queue : Heap (Waiting α) Waiting.before} (hpop : s.queue.pop? = some (w, queue))
    (hstale : s.isStale w = true) : Explored arcs start ⟨s.labels, queue⟩ settled level [] := by
  obtain ⟨hperm, hordered, hnodup, -, -⟩ := h.pop hpop
  have hsub : ∀ w' ∈ queue.toList, w' ∈ s.queue.toList :=
    fun w' hw' => hperm.mem_iff.2 (List.mem_cons_of_mem _ hw')
  refine
    { ordered := hordered
      nodup := hnodup
      level_nonneg := h.level_nonneg
      start_label := h.start_label
      labelled := h.labelled
      queued := fun w' hw' => h.queued w' (hsub w' hw')
      waiting := ?waiting
      done := ?done
      rooted := h.rooted.congr fun _ _ => rfl }
  case waiting =>
    intro n l hl hn
    rcases List.mem_cons.1 (hperm.mem_iff.1 (h.waiting n l hl hn)) with heq | hmem
    · subst heq
      exact absurd ((isStale_eq_true_iff hl).1 hstale) (Scalar.lt_irrefl _)
    · exact hmem
  case done =>
    intro n hn
    obtain ⟨l, hl⟩ := h.done n hn
    exact ⟨l, hl.mono (fun _ => rfl) hsub h.level_number fun _ ha => ha⟩

/-- An entry that is not stale settles a node that has not been settled before, at its score. -/
theorem Explored.take (h : Explored arcs start s settled level []) {w : Waiting α}
    {queue : Heap (Waiting α) Waiting.before} (hpop : s.queue.pop? = some (w, queue))
    (hfresh : s.isStale w = false) :
    w.node ∉ settled ∧ (∃ k, s.label? w.node = some k ∧ k.score = w.score) ∧
      Explored arcs start ⟨s.labels, queue⟩ (w.node :: settled) w.score
        (Arc.leaving arcs w.node) := by
  obtain ⟨hperm, hordered, hnodup, hw, hleast⟩ := h.pop hpop
  have hsub : ∀ w' ∈ queue.toList, w' ∈ s.queue.toList :=
    fun w' hw' => hperm.mem_iff.2 (List.mem_cons_of_mem _ hw')
  have hqueued : w ∈ s.queue.toList := hperm.mem_iff.2 List.mem_cons_self
  obtain ⟨hlevel, k, hk, hscore⟩ := h.queued w hqueued
  have hk' : k.score = w.score := by
    refine hscore.resolve_right fun hlt => ?_
    rw [(isStale_eq_true_iff hk).2 hlt] at hfresh
    cases hfresh
  have hnew : w.node ∉ settled := by
    intro hn
    obtain ⟨l, hl⟩ := h.done _ hn
    obtain rfl := Option.some.inj (hk.symm.trans hl.label)
    exact hl.not_queued (by rw [hk']; exact hqueued)
  have hsettled : Settled arcs ⟨s.labels, queue⟩ w.score (Arc.leaving arcs w.node) w.node k :=
    { label := hk
      le_level := by rw [hk']; exact (Scalar.number_of_le hlevel).2
      not_queued := by rw [hk']; exact hw
      followed := fun a ha hsource => .inl (Arc.mem_leaving.2 ⟨ha, hsource⟩) }
  refine ⟨hnew, ⟨k, hk, hk'⟩,
    { ordered := hordered
      nodup := hnodup
      level_nonneg := Scalar.le_trans h.level_nonneg hlevel
      start_label := h.start_label
      labelled := fun n l hl hn =>
        (h.labelled n l hl hn).congr (List.subset_cons_self _ _) fun _ _ => rfl
      queued := fun w' hw' => ⟨hleast w' (hsub w' hw'), (h.queued w' (hsub w' hw')).2⟩
      waiting := ?waiting
      done := List.forall_mem_cons.2 ⟨⟨k, hsettled⟩, ?done⟩
      rooted := ⟨hnew, ?via, h.rooted.congr fun _ _ => rfl⟩ }⟩
  case waiting =>
    intro n l hl hn
    obtain ⟨hne, hn⟩ := not_or.1 (fun hor => hn (List.mem_cons.2 hor))
    rcases List.mem_cons.1 (hperm.mem_iff.1 (h.waiting n l hl hn)) with heq | hmem
    · exact absurd (congrArg Waiting.node heq) hne
    · exact hmem
  case done =>
    intro n hn
    obtain ⟨l, hl⟩ := h.done n hn
    exact ⟨l, hl.mono (fun _ => rfl) hsub hlevel (List.nil_subset _)⟩
  case via =>
    -- The node was reached from one that is settled, unless it is the start.
    intro l m hl hvia
    by_cases hstart : w.node = start
    · rw [hstart] at hl
      obtain rfl := Option.some.inj (h.start_label.symm.trans hl)
      cases hvia
    · obtain ⟨a, -, -, hsource, hfrom, -⟩ := h.labelled _ l hl hstart
      obtain rfl := Option.some.inj (hfrom.symm.trans hvia)
      exact hsource

theorem label?_mark {w : Waiting α} {k : Label α} (hk : s.label? w.node = some k)
    (hscore : k.score = w.score) (n : NodeIx) : (s.mark w).label? n = s.label? n := by
  simp only [label?, mark, Std.TreeMap.getElem?_modify]
  split
  · next heq =>
    obtain rfl := Std.LawfulEqCmp.eq_of_compare heq
    change s.labels[w.node]? = some k at hk
    rw [hk, Option.map_some, ← hscore]
  · rfl

/-! ## How much is left to do -/

/-- The arcs that leave nodes which are not settled. -/
def ahead (arcs : List (Arc α)) (settled : List NodeIx) : List (Arc α) :=
  arcs.filter fun a => a.source ∉ settled

omit [Scalar α] in
theorem length_ahead (arcs : List (Arc α)) {n : NodeIx} (hn : n ∉ settled) :
    (ahead arcs settled).length =
      (ahead arcs (n :: settled)).length + (Arc.leaving arcs n).length := by
  unfold ahead Arc.leaving
  rw [List.length_reverse]
  induction arcs with
  | nil => rfl
  | cons a arcs ih =>
    by_cases hsource : a.source = n
    · simp [hsource, hn] at ih ⊢
      omega
    · by_cases hsettled : a.source ∈ settled
      · simpa [List.filter_cons, hsource, hsettled] using ih
      · simp [hsource, hsettled] at ih ⊢
        omega

theorem length_queue_relax (score : α) (s : Search α) (a : Arc α) :
    (s.relax score a).queue.toList.length ≤ s.queue.toList.length + 1 := by
  rcases relax_cases score s a with ⟨-, -, -, heq⟩ | ⟨-, heq⟩
  · rw [heq]
    exact Nat.le_succ _
  · rw [heq]
    exact Nat.le_of_eq (Heap.push_perm s.queue _).length_eq

theorem length_queue_foldl_relax (score : α) (todo : List (Arc α)) (s : Search α) :
    (todo.foldl (Search.relax score) s).queue.toList.length ≤
      s.queue.toList.length + todo.length := by
  induction todo generalizing s with
  | nil => exact Nat.le_refl _
  | cons a todo ih =>
    have h := length_queue_relax score s a
    have h' := ih (s.relax score a)
    rw [List.foldl_cons, List.length_cons]
    omega

/-- **A step settles a node or passes over an entry**, keeps what is known, and leaves less to do. -/
theorem Explored.settle (hsum : Scalar.MonotoneSum α) (hcost : ∀ a ∈ arcs, (0 : α) ≤ a.cost)
    (h : Explored arcs start s settled level []) {w : Waiting α}
    {queue : Heap (Waiting α) Waiting.before} (hpop : s.queue.pop? = some (w, queue)) :
    ∃ settled' level', (settled' = settled ∨ settled' = w.node :: settled) ∧
      Explored arcs start (Search.settle arcs ⟨s.labels, queue⟩ w) settled' level' [] ∧
      (Search.settle arcs ⟨s.labels, queue⟩ w).queue.toList.length + (ahead arcs settled').length <
        s.queue.toList.length + (ahead arcs settled).length := by
  have hlength : s.queue.toList.length = queue.toList.length + 1 :=
    (h.pop hpop).1.length_eq
  have hsame : isStale ⟨s.labels, queue⟩ w = s.isStale w := rfl
  unfold Search.settle
  rw [hsame]
  cases hstale : s.isStale w with
  | true =>
    refine ⟨settled, level, .inl rfl, h.skip hpop hstale, ?_⟩
    rw [if_pos rfl, hlength]
    dsimp only
    omega
  | false =>
    obtain ⟨hnew, ⟨k, hk, hscore⟩, htaken⟩ := h.take hpop hstale
    have hmark : ∀ n, (mark ⟨s.labels, queue⟩ w).label? n = s.label? n := label?_mark hk hscore
    rw [if_neg Bool.false_ne_true]
    refine ⟨w.node :: settled, w.score, .inr rfl, ?_, ?_⟩
    · exact (htaken.congr hmark rfl).foldl_relax hsum hcost List.mem_cons_self hscore _ _
        ((hmark _).trans hk) fun a ha => Arc.mem_leaving.1 ha
    · have hfold := length_queue_foldl_relax w.score (Arc.leaving arcs w.node)
        (mark ⟨s.labels, queue⟩ w)
      have hahead := length_ahead arcs hnew
      have hkept : (mark ⟨s.labels, queue⟩ w).queue = queue := rfl
      rw [hkept] at hfold
      omega

end Search

end TransitMatching
