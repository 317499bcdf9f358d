import TransitMatching.Candidate.Ranking
import TransitMatching.Proofs.Network.Consistency

/-!
# Candidates fit to serve a stop

* `exists_assignPriorities_distance`: a score is told by the distance.
* `Serves`: a list of candidates that a stop can be served from.
* `Serves.extends`: it stays one when the network grows.
* `Serves.best`: the best candidate is a least one of the list.
* `serves_ofList`, `Serves.merge`: lists that serve a stop are made by sorting
  candidates, and by merging candidates given by hand.
-/

namespace TransitMatching

variable {α : Type} [Scalar α]

namespace LinkCandidate

/-- Candidates are ordered by four keys in turn. -/
theorem compare_eq_compareLex :
    (compare : LinkCandidate α → LinkCandidate α → Ordering) =
      compareLex (fun a b => Scalar.order b.priority a.priority)
        (compareLex (fun a b => Ord.compare b.onRight a.onRight)
          (compareLex (compareOn link) (compareOn stop))) := rfl

instance : Std.TransCmp (compare : LinkCandidate α → LinkCandidate α → Ordering) := by
  have hpriority : Std.TransCmp fun a b : LinkCandidate α =>
      Scalar.order b.priority a.priority :=
    { eq_swap := Std.OrientedCmp.eq_swap
      isLE_trans := fun hab hbc => Std.TransCmp.isLE_trans hbc hab }
  have hside : Std.TransCmp fun a b : LinkCandidate α => Ord.compare b.onRight a.onRight :=
    { eq_swap := Std.OrientedCmp.eq_swap
      isLE_trans := fun hab hbc => Std.TransCmp.isLE_trans hbc hab }
  rw [compare_eq_compareLex]
  infer_instance

/-- **A score is told by the distance**: candidates of one list that are equally far away score
alike. -/
theorem exists_assignPriorities_distance (candidates : List (LinkCandidate α)) :
    ∃ q : α → α,
      assignPriorities candidates = candidates.map fun c => c.withPriority (q c.distance) := by
  unfold assignPriorities
  dsimp only
  split
  · next near far _ _ => exact ⟨score near far, rfl⟩
  · exact ⟨fun _ => 1, rfl⟩

/-- Scoring gives every candidate a score, and changes nothing else. -/
theorem exists_assignPriorities_eq (candidates : List (LinkCandidate α)) :
    ∃ q : LinkCandidate α → α,
      assignPriorities candidates = candidates.map fun c => c.withPriority (q c) := by
  obtain ⟨q, hq⟩ := exists_assignPriorities_distance candidates
  exact ⟨fun c => q c.distance, hq⟩

/-- A candidate for the stop with a key, whose link belongs to the network. -/
structure FitFor (net : Network α) (key : String) (c : LinkCandidate α) : Prop where
  stop : c.stop = key
  lt : c.link < net.links.size

omit [Scalar α] in
theorem FitFor.withPriority {net : Network α} {key : String} {c : LinkCandidate α}
    (h : c.FitFor net key) (q : α) : (c.withPriority q).FitFor net key := ⟨h.stop, h.lt⟩

theorem fitFor_ofOccurrence [DecimalText α] {net : Network α} {ix : LinkIx}
    (h : ix < net.links.size) (o : Occurrence α) (position : Point α) :
    (ofOccurrence net ix o position).FitFor net o.key := ⟨rfl, h⟩

end LinkCandidate

namespace LinkCandidates

/-- Candidates from which the stop with a key can be served. -/
structure Serves (net : Network α) (key : String) (c : LinkCandidates α) : Prop where
  ne_nil : c.toList ≠ []
  sorted : c.toList.Pairwise fun a b => (a.compare b).isLE = true
  fit : ∀ a ∈ c.toList, a.FitFor net key

variable {net net' : Network α} {key : String} {c : LinkCandidates α}

theorem Serves.extends (h : c.Serves net key) (hnet : net.Extends net') : c.Serves net' key :=
  ⟨h.ne_nil, h.sorted, fun a ha =>
    ⟨(h.fit a ha).stop, Nat.lt_of_lt_of_le (h.fit a ha).lt hnet.links_size⟩⟩

/-- **There is a best candidate, and none comes before it.** -/
theorem Serves.best (h : c.Serves net key) :
    ∃ best, c.best? = some best ∧ ∀ a ∈ c.toList, (best.compare a).isLE = true := by
  obtain ⟨hne, hsorted, -⟩ := h
  obtain ⟨list⟩ := c
  cases list with
  | nil => exact absurd rfl hne
  | cons best rest =>
    -- The list is sorted, so its head is a least element.
    refine ⟨best, rfl, fun a ha => ?_⟩
    rcases List.mem_cons.1 ha with rfl | ha
    · exact Std.ReflCmp.isLE_rfl
    · exact (List.pairwise_cons.1 hsorted).1 a ha

theorem serves_ofList {candidates : List (LinkCandidate α)} (hne : candidates ≠ [])
    (hfit : ∀ a ∈ candidates, a.FitFor net key) : (ofList candidates).Serves net key where
  ne_nil hnil := hne (List.Perm.eq_nil (hnil ▸ (sortBy_perm _ candidates).symm))
  sorted := sortBy_sorted candidates
  fit a ha := hfit a (mem_sortBy.1 ha)

/-- Merging leaves a list that serves the stop, unless it replaces the list by nothing. -/
theorem Serves.merge (h : c.Serves net key) {manual : List (LinkCandidate α)}
    (hmanual : ∀ a ∈ manual, a.FitFor net key) {replace : Bool}
    (hreplace : replace = true → manual ≠ []) : (c.merge manual replace).Serves net key := by
  unfold LinkCandidates.merge
  split
  · next hrep => exact serves_ofList (hreplace hrep) hmanual
  · refine serves_ofList ?_ fun a ha => ?_
    · intro hnil
      obtain ⟨hkept, hnone⟩ := List.append_eq_nil_iff.1 hnil
      -- Without manual candidates none of the others is left out.
      rw [hnone, List.filter_eq_nil_iff] at hkept
      obtain ⟨a, ha⟩ := List.exists_mem_of_ne_nil _ h.ne_nil
      exact hkept a ha (by simp)
    · rcases List.mem_append.1 ha with ha | ha
      · exact h.fit a (List.mem_filter.1 ha).1
      · exact hmanual a ha

end LinkCandidates

end TransitMatching
