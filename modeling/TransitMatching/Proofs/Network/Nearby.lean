import TransitMatching.Network.Nearby
import TransitMatching.Proofs.Network.Consistency

/-!
# What a search around a position finds

* `getElem?_closestLinks`: the buckets split the links around a position by their
  distance.
* `Reachable.mem_linksAround_iff`: which links these are.
* `boundedLinks_nodup`, `mem_boundedLinks`: a bounded search admits links of the
  network, none of them twice, with their distances.
* `mem_boundedLinks_of_tied`: links that are equally far away are admitted together.
-/

namespace TransitMatching

variable {α : Type} [Scalar α]

theorem nodup_eraseDups {β : Type} [BEq β] [LawfulBEq β] :
    ∀ (n : Nat) (l : List β), l.length ≤ n → l.eraseDups.Nodup := by
  intro n
  induction n with
  | zero =>
    intro l hl
    rw [List.length_eq_zero_iff.1 (Nat.le_zero.1 hl)]
    exact List.Pairwise.nil
  | succ n ih =>
    intro l hl
    cases l with
    | nil => exact List.Pairwise.nil
    | cons a rest =>
      have hrest : (rest.filter fun b => !b == a).length ≤ n :=
        Nat.le_trans (List.length_filter_le _ _) (Nat.le_of_succ_le_succ hl)
      rw [List.eraseDups_cons]
      exact List.nodup_cons.2 ⟨by simp [List.mem_eraseDups], ih _ hrest⟩

namespace Buckets

omit [Scalar α] in
/-- The links of buckets with their distances, nearest first. -/
def flatten (buckets : List (α × List LinkIx)) : List (LinkIx × α) :=
  buckets.flatMap fun e => e.2.map (·, e.1)

omit [Scalar α] in
theorem mem_flatten {buckets : List (α × List LinkIx)} {ix : LinkIx} {d : α} :
    (ix, d) ∈ flatten buckets ↔ ∃ links, (d, links) ∈ buckets ∧ ix ∈ links := by
  simp only [flatten, List.mem_flatMap, List.mem_map]
  constructor
  · rintro ⟨⟨d', links⟩, hmem, ix', hix, heq⟩
    cases heq
    exact ⟨links, hmem, hix⟩
  · rintro ⟨links, hmem, hix⟩
    exact ⟨(d, links), hmem, ix, hix, rfl⟩

theorem getElem?_add (buckets : Buckets α) (d d' : α) (links : List LinkIx) :
    (buckets.add d links)[d']? =
      if Scalar.order d d' = .eq then some (buckets[d']?.getD [] ++ links)
      else buckets[d']? := by
  unfold add
  rw [Std.TreeMap.getElem?_alter]
  split
  · next heq => rw [Std.LawfulEqCmp.eq_of_compare heq]
  · rfl

/-- The links that fall into the bucket at a distance. -/
def bucketOf (dist : LinkIx → α) (links : List LinkIx) (d : α) : List LinkIx :=
  links.filter fun ix => Scalar.order (dist ix) d = .eq

theorem mem_bucketOf {dist : LinkIx → α} {links : List LinkIx} {d : α} {ix : LinkIx} :
    ix ∈ bucketOf dist links d ↔ ix ∈ links ∧ dist ix = d := by
  rw [bucketOf, List.mem_filter, decide_eq_true_eq]
  refine and_congr_right fun _ => ⟨Std.LawfulEqCmp.eq_of_compare, ?_⟩
  rintro rfl
  exact Std.ReflCmp.compare_self

theorem getElem?_foldl_add (dist : LinkIx → α) (links : List LinkIx) (buckets : Buckets α) (d : α) :
    (links.foldl (fun b ix => b.add (dist ix) [ix]) buckets)[d]? =
      if bucketOf dist links d = [] then buckets[d]?
      else some (buckets[d]?.getD [] ++ bucketOf dist links d) := by
  induction links generalizing buckets with
  | nil => rfl
  | cons ix rest ih =>
    rw [List.foldl_cons, ih, getElem?_add]
    unfold bucketOf
    rw [List.filter_cons]
    by_cases heq : Scalar.order (dist ix) d = .eq
    · simp only [heq, if_true, decide_true, Option.getD_some, List.append_assoc,
        List.singleton_append, reduceCtorEq, if_false]
      split
      · next hrest => rw [hrest]
      · rfl
    · simp only [heq, if_false, decide_false, Bool.false_eq_true]

end Buckets

/-- **Buckets are admitted whole**, some number of them from the front. -/
theorem SearchBounds.exists_admittedFrom_eq (b : SearchBounds α) (admitted : Nat) (old : Option α)
    (buckets : List (α × List LinkIx)) :
    ∃ k, b.admittedFrom admitted old buckets = Buckets.flatten (buckets.take k) := by
  induction buckets generalizing admitted old with
  | nil => exact ⟨0, rfl⟩
  | cons e rest ih =>
    obtain ⟨d, links⟩ := e
    unfold admittedFrom
    split
    · exact ⟨0, rfl⟩
    · obtain ⟨k, hk⟩ := ih (admitted + links.length) (b.threshold old (admitted + links.length) d)
      refine ⟨k + 1, ?_⟩
      dsimp only
      rw [hk]
      rfl

/-- Whatever the cutoffs, a bounded search admits an initial part of the links. -/
theorem SearchBounds.admittedFrom_prefix (b : SearchBounds α) (admitted : Nat) (old : Option α)
    (buckets : List (α × List LinkIx)) :
    b.admittedFrom admitted old buckets <+: Buckets.flatten buckets := by
  obtain ⟨k, hk⟩ := b.exists_admittedFrom_eq admitted old buckets
  refine ⟨Buckets.flatten (buckets.drop k), ?_⟩
  rw [hk, Buckets.flatten, Buckets.flatten, ← List.flatMap_append, List.take_append_drop]
  rfl

/-- No bucket beyond the greatest distance is admitted. -/
theorem SearchBounds.not_lt_of_mem_admittedFrom {b : SearchBounds α} {admitted : Nat}
    {old : Option α} {buckets : List (α × List LinkIx)} {ix : LinkIx} {d : α}
    (h : (ix, d) ∈ b.admittedFrom admitted old buckets) : ¬ b.maxDistance < d := by
  induction buckets generalizing admitted old with
  | nil => exact absurd h List.not_mem_nil
  | cons e rest ih =>
    obtain ⟨reached, links⟩ := e
    unfold admittedFrom at h
    split at h
    · exact absurd h List.not_mem_nil
    · next hreject =>
      rcases List.mem_append.1 h with h | h
      · obtain ⟨_, -, heq⟩ := List.mem_map.1 h
        cases heq
        intro hlt
        refine hreject (Bool.or_eq_true_iff.2 (.inl ?_))
        exact decide_eq_true hlt
      · exact ih h

namespace Network

variable {net : Network α} {p : Point α} {radius : α} {modes : Option ModeSet}

/-- The buckets around a position are those of the links around it, by their distances. -/
theorem getElem?_closestLinks (d : α) :
    (net.closestLinks p radius modes)[d]? =
      if Buckets.bucketOf (net.linkDistance · p) (net.linksAround p radius modes) d = [] then none
      else some (Buckets.bucketOf (net.linkDistance · p) (net.linksAround p radius modes) d) := by
  unfold closestLinks
  rw [Buckets.getElem?_foldl_add]
  rfl

theorem mem_toList_closestLinks {d : α} {links : List LinkIx}
    (h : (d, links) ∈ (net.closestLinks p radius modes).toList) :
    links = Buckets.bucketOf (net.linkDistance · p) (net.linksAround p radius modes) d := by
  rw [Std.TreeMap.mem_toList_iff_getElem?_eq_some, getElem?_closestLinks] at h
  split at h
  · cases h
  · exact (Option.some.inj h).symm

theorem linksAround_nodup : (net.linksAround p radius modes).Nodup := by
  unfold linksAround
  refine (sortBy_perm _ _).nodup_iff.2 (List.Pairwise.filter _ ?_)
  exact nodup_eraseDups _ _ (Nat.le_refl _)

theorem Consistent.lt_of_mem_linksAround (hnet : net.Consistent) {ix : LinkIx}
    (h : ix ∈ net.linksAround p radius modes) : ix < net.links.size := by
  simp only [linksAround, mem_sortBy, List.mem_filter, List.mem_eraseDups, List.mem_flatMap,
    incidentLinks, List.mem_append] at h
  obtain ⟨⟨n, -, hin | hout⟩, -⟩ := h
  · rw [hnet.inLinks] at hin
    exact (mem_linksWhere.1 hin).1
  · rw [hnet.outLinks] at hout
    exact (mem_linksWhere.1 hout).1

/-- The index lists every node where it lies, and nothing else. -/
theorem Reachable.mem_nodesWithin_iff (h : net.Reachable) {n : NodeIx} :
    n ∈ net.nodesWithin p radius ↔
      n < net.nodes.size ∧ SpatialIndex.InRadius p radius (net.position n) := by
  have hposition {i : NodeIx} (hi : i < net.nodes.size) :
      net.position i = (net.nodes[i]).position := by
    unfold Network.position Network.node
    rw [Array.getElem?_eq_getElem hi]
    rfl
  rw [nodesWithin, SpatialIndex.mem_within, h.indexed, SpatialIndex.bulkLoad]
  simp only [Array.mem_mapIdx]
  constructor
  · rintro ⟨position, ⟨i, hi, heq⟩, hnear⟩
    obtain ⟨rfl, rfl⟩ := IndexedNode.mk.inj heq
    exact ⟨hi, by rwa [hposition hi]⟩
  · rintro ⟨hn, hnear⟩
    exact ⟨_, ⟨n, hn, rfl⟩, by rwa [hposition hn] at hnear⟩

/-- **The links around a position** are those with an end within the radius that are open to one of
the modes. -/
theorem Reachable.mem_linksAround_iff (h : net.Reachable) {ix : LinkIx} :
    ix ∈ net.linksAround p radius modes ↔
      ix < net.links.size ∧
        (SpatialIndex.InRadius p radius (net.position (net.link ix).source) ∨
          SpatialIndex.InRadius p radius (net.position (net.link ix).target)) ∧
        modes.all (net.link ix).allowsAny = true := by
  have hnet := h.consistent
  have hincident {n : NodeIx} : ix ∈ net.incidentLinks n ↔
      ix < net.links.size ∧ ((net.link ix).target = n ∨ (net.link ix).source = n) := by
    rw [incidentLinks, List.mem_append, hnet.inLinks, hnet.outLinks, mem_linksWhere,
      mem_linksWhere, decide_eq_true_eq, decide_eq_true_eq, and_or_left]
  simp only [linksAround, mem_sortBy, List.mem_filter, List.mem_eraseDups, List.mem_flatMap,
    h.mem_nodesWithin_iff, hincident]
  constructor
  · rintro ⟨⟨n, ⟨-, hnear⟩, hix, rfl | rfl⟩, hmodes⟩
    · exact ⟨hix, .inr hnear, hmodes⟩
    · exact ⟨hix, .inl hnear, hmodes⟩
  · rintro ⟨hix, hnear | hnear, hmodes⟩
    · exact ⟨⟨_, ⟨hnet.source_lt ix hix, hnear⟩, hix, .inr rfl⟩, hmodes⟩
    · exact ⟨⟨_, ⟨hnet.target_lt ix hix, hnear⟩, hix, .inl rfl⟩, hmodes⟩

/-- Links around a position have an end within the radius and are open to one of the modes. -/
theorem Reachable.of_mem_linksAround (h : net.Reachable) {ix : LinkIx}
    (hix : ix ∈ net.linksAround p radius modes) :
    (SpatialIndex.InRadius p radius (net.position (net.link ix).source) ∨
      SpatialIndex.InRadius p radius (net.position (net.link ix).target)) ∧
        modes.all (net.link ix).allowsAny = true :=
  (h.mem_linksAround_iff.1 hix).2

/-- A bounded search admits no link beyond the greatest distance. -/
theorem not_lt_of_mem_boundedLinks {bounds : SearchBounds α} {ix : LinkIx} {d : α}
    (h : (ix, d) ∈ net.boundedLinks p bounds modes) : ¬ bounds.maxDistance < d :=
  SearchBounds.not_lt_of_mem_admittedFrom h

/-- A bounded search admits links around the position, with their distances. -/
theorem mem_boundedLinks {bounds : SearchBounds α} {ix : LinkIx} {d : α}
    (h : (ix, d) ∈ net.boundedLinks p bounds modes) :
    ix ∈ net.linksAround p bounds.radius modes ∧ d = net.linkDistance ix p := by
  have hmem := (bounds.admittedFrom_prefix 0 none _).subset h
  obtain ⟨links, hlinks, hix⟩ := Buckets.mem_flatten.1 hmem
  rw [mem_toList_closestLinks hlinks, Buckets.mem_bucketOf] at hix
  exact ⟨hix.1, hix.2.symm⟩

/-- **Links around a position that are equally far away** are admitted together. -/
theorem mem_boundedLinks_of_tied {bounds : SearchBounds α} {ix tied : LinkIx} {d : α}
    (h : (ix, d) ∈ net.boundedLinks p bounds modes)
    (haround : tied ∈ net.linksAround p bounds.radius modes)
    (hdistance : net.linkDistance tied p = net.linkDistance ix p) :
    (tied, d) ∈ net.boundedLinks p bounds modes := by
  have hd : d = net.linkDistance ix p := (mem_boundedLinks h).2
  obtain ⟨k, hk⟩ := bounds.exists_admittedFrom_eq 0 none
    (net.closestLinks p bounds.radius modes).toList
  rw [boundedLinks, Buckets.admitted, hk, Buckets.mem_flatten] at h ⊢
  obtain ⟨links, hlinks, -⟩ := h
  refine ⟨links, hlinks, ?_⟩
  -- The bucket holds every link around the position at its distance.
  rw [mem_toList_closestLinks (List.mem_of_mem_take hlinks), Buckets.mem_bucketOf]
  exact ⟨haround, hdistance.trans hd.symm⟩

/-- No link is in two buckets, or twice in one. -/
theorem nodup_links_closestLinks :
    ((net.closestLinks p radius modes).toList.flatMap Prod.snd).Nodup := by
  rw [List.Nodup, List.pairwise_flatMap]
  constructor
  · rintro ⟨d, links⟩ hmem
    rw [mem_toList_closestLinks hmem]
    exact List.Pairwise.filter _ linksAround_nodup
  · -- Buckets at different distances share no link, since a link has one distance.
    refine Std.TreeMap.distinct_keys_toList.imp_of_mem ?_
    rintro ⟨d, links⟩ ⟨d', links'⟩ hmem hmem' hne ix hix ix' hix' rfl
    rw [mem_toList_closestLinks hmem, Buckets.mem_bucketOf] at hix
    rw [mem_toList_closestLinks hmem', Buckets.mem_bucketOf] at hix'
    refine hne ?_
    rw [← hix.2, ← hix'.2]
    exact Std.ReflCmp.compare_self

/-- **A bounded search admits no link twice.** -/
theorem boundedLinks_nodup {bounds : SearchBounds α} :
    ((net.boundedLinks p bounds modes).map Prod.fst).Nodup := by
  have hsub := ((bounds.admittedFrom_prefix 0 none
    (net.closestLinks p bounds.radius modes).toList).map Prod.fst).sublist
  refine hsub.nodup ?_
  have hfst : ∀ buckets : List (α × List LinkIx),
      (Buckets.flatten buckets).map Prod.fst = buckets.flatMap Prod.snd := by
    intro buckets
    simp [Buckets.flatten, List.map_flatMap, Function.comp_def]
  rw [hfst]
  exact nodup_links_closestLinks

end Network

end TransitMatching
