import Mathlib.Data.List.Sort
import TransitMatching.Proofs.Network.Insertions
import TransitMatching.Proofs.Network.Nearby
import TransitMatching.Proofs.Number.Order

/-!
# A search around a position is a scan of all links

A search comes to its links by way of nodes: it collects what the nodes within the radius
list, strikes out what is listed again, and fills buckets. On a network whose parts agree
this is a scan of all links, sorted by distance and number and cut where the distance
changes.

* `Reachable.linksAround_eq`: the links around a position, by a scan.
* `Buckets.runs_sortBy`: buckets are their links, sorted and cut into runs of equal distance.
* `toList_gathered`: the order in which nodes are reported does not matter.
* `closestLinks_found`: **a search finds each link in reach once, in the bucket of its
  distance**, and a bounded search admits what the scan allows.
-/

namespace TransitMatching

variable {α : Type} [Scalar α]

namespace Buckets

/-! ## Links sorted by distance -/

/-- Nearer first, then by number. -/
def byDistance (dist : LinkIx → α) (a b : LinkIx) : Ordering :=
  (Scalar.order (dist a) (dist b)).then (compare a b)

instance (dist : LinkIx → α) : Std.TransCmp (byDistance dist) :=
  Scalar.transCmp_order_then dist id

theorem eq_of_byDistance {dist : LinkIx → α} {a b : LinkIx} (hab : (byDistance dist a b).isLE)
    (hba : (byDistance dist b a).isLE) : a = b :=
  Scalar.place_eq_of_isLE dist id hab hba

/-- Links cut into runs of equal distance, each run under its distance. -/
def runs (dist : LinkIx → α) : List LinkIx → List (α × List LinkIx)
  | [] => []
  | ix :: rest =>
    match runs dist rest with
    | [] => [(dist ix, [ix])]
    | (d, links) :: more =>
      if Scalar.order (dist ix) d = .eq then (d, ix :: links) :: more
      else (dist ix, [ix]) :: (d, links) :: more

/-- Buckets of the links at each distance, nearest first, none of them empty. -/
structure Graded (dist : LinkIx → α) (buckets : List (α × List LinkIx)) : Prop where
  ascending : buckets.Pairwise fun a b => Scalar.order a.1 b.1 = .lt
  ne_nil : ∀ b ∈ buckets, b.2 ≠ []
  distance : ∀ b ∈ buckets, ∀ ix ∈ b.2, dist ix = b.1
  inner : ∀ b ∈ buckets, b.2.Pairwise (· < ·)

/-- Links at one distance make one run in front of links that are further away. -/
theorem runs_append {dist : LinkIx → α} {d : α} {links rest : List LinkIx} (hne : links ≠ [])
    (hd : ∀ ix ∈ links, dist ix = d)
    (hless : ∀ next ∈ runs dist rest, Scalar.order d next.1 = .lt) :
    runs dist (links ++ rest) = (d, links) :: runs dist rest := by
  -- The run is put together link by link, from its last one.
  induction links with
  | nil => exact absurd rfl hne
  | cons ix links ih =>
    obtain ⟨hix, hlinks⟩ := List.forall_mem_cons.1 hd
    rw [List.cons_append, runs]
    cases links with
    | nil =>
      rw [List.nil_append]
      cases hrest : runs dist rest with
      | nil => rw [hix]
      | cons next more =>
        have hlt : Scalar.order d next.1 = .lt := by
          rw [hrest] at hless
          exact hless next List.mem_cons_self
        dsimp only
        rw [hix, hlt, if_neg (by decide)]
    | cons second links =>
      rw [ih (List.cons_ne_nil _ _) hlinks]
      dsimp only
      rw [hix, if_pos (Std.ReflCmp.compare_self : Scalar.order d d = .eq)]

/-- **Buckets are the runs of their links.** -/
theorem runs_flatMap {dist : LinkIx → α} {buckets : List (α × List LinkIx)}
    (h : Graded dist buckets) : runs dist (buckets.flatMap Prod.snd) = buckets := by
  induction buckets with
  | nil => rfl
  | cons b rest ih =>
    obtain ⟨hless, hrest⟩ := List.pairwise_cons.1 h.ascending
    obtain ⟨hne, hnes⟩ := List.forall_mem_cons.1 h.ne_nil
    obtain ⟨hd, hds⟩ := List.forall_mem_cons.1 h.distance
    have hruns := ih ⟨hrest, hnes, hds, (List.forall_mem_cons.1 h.inner).2⟩
    rw [List.flatMap_cons, runs_append hne hd (by rwa [hruns]), hruns]

/-- The links of buckets one after the other are sorted by distance and number. -/
theorem sorted_flatMap {dist : LinkIx → α} {buckets : List (α × List LinkIx)}
    (h : Graded dist buckets) :
    (buckets.flatMap Prod.snd).Pairwise fun a b => (byDistance dist a b).isLE := by
  refine List.pairwise_flatMap.2 ⟨fun b hb => ?_, h.ascending.imp_of_mem ?_⟩
  · refine (h.inner b hb).imp_of_mem fun {x y} hx hy hlt => ?_
    unfold byDistance
    rw [h.distance b hb x hx, h.distance b hb y hy,
      (Std.ReflCmp.compare_self : Scalar.order b.1 b.1 = .eq), Nat.compare_eq_lt.2 hlt]
    rfl
  · intro a b ha hb hlt x hx y hy
    unfold byDistance
    rw [h.distance a ha x hx, h.distance b hb y hy, hlt]
    rfl

/-- Buckets are found again by sorting their links and cutting them. -/
theorem runs_sortBy {dist : LinkIx → α} {buckets : List (α × List LinkIx)} {links : List LinkIx}
    (h : Graded dist buckets) (hlinks : links.Perm (buckets.flatMap Prod.snd)) :
    runs dist (sortBy (byDistance dist) links) = buckets := by
  have hsame : sortBy (byDistance dist) links = buckets.flatMap Prod.snd :=
    sortBy_eq_of_perm (fun _ _ => eq_of_byDistance) hlinks (sorted_flatMap h)
  rw [hsame, runs_flatMap h]

end Buckets

namespace Network

variable {net : Network α} {p : Point α} {radius : α} {modes : Option ModeSet}

/-! ## The links in reach -/

/-- A link with an end within the radius that is open to one of the modes, if there are any. -/
def InReach (net : Network α) (p : Point α) (radius : α) (modes : Option ModeSet) (l : Link α) :
    Prop :=
  (SpatialIndex.InRadius p radius (net.position l.source) ∨
    SpatialIndex.InRadius p radius (net.position l.target)) ∧ modes.all l.allowsAny = true

instance (net : Network α) (p : Point α) (radius : α) (modes : Option ModeSet) (l : Link α) :
    Decidable (net.InReach p radius modes l) :=
  inferInstanceAs (Decidable (_ ∧ _))

theorem linksAround_ascending : (net.linksAround p radius modes).Pairwise (· < ·) := by
  have hsorted : (net.linksAround p radius modes).Pairwise fun a b => (compare a b).isLE :=
    sortBy_sorted _
  refine (hsorted.and linksAround_nodup).imp ?_
  rintro a b ⟨hle, hne⟩
  exact Nat.lt_of_le_of_ne (Nat.isLE_compare.1 hle) hne

/-- **The links around a position are those that a scan of all links finds**, in their order. -/
theorem Reachable.linksAround_eq (h : net.Reachable) :
    net.linksAround p radius modes = net.linksWhere fun l => net.InReach p radius modes l :=
  linksAround_ascending.eq_of_mem_iff (net.linksWhere_ascending _) fun ix => by
    rw [h.mem_linksAround_iff, mem_linksWhere, decide_eq_true_eq]
    rfl

/-- The links in reach sorted by distance and number, and cut where the distance changes. -/
def scanned (net : Network α) (p : Point α) (radius : α) (modes : Option ModeSet) :
    List (α × List LinkIx) :=
  Buckets.runs (net.linkDistance · p) (sortBy (Buckets.byDistance (net.linkDistance · p))
    (net.linksWhere fun l => net.InReach p radius modes l))

/-! ## Buckets -/

theorem graded_closestLinks :
    Buckets.Graded (net.linkDistance · p) (net.closestLinks p radius modes).toList where
  ascending := Std.TreeMap.ordered_keys_toList
  ne_nil := by
    rintro ⟨d, links⟩ hmem
    rw [Std.TreeMap.mem_toList_iff_getElem?_eq_some, getElem?_closestLinks] at hmem
    split at hmem
    · cases hmem
    · next hne =>
      obtain rfl := Option.some.inj hmem
      exact hne
  distance := by
    rintro ⟨d, links⟩ hmem ix hix
    rw [mem_toList_closestLinks hmem, Buckets.mem_bucketOf] at hix
    exact hix.2
  inner := by
    rintro ⟨d, links⟩ hmem
    rw [mem_toList_closestLinks hmem]
    exact linksAround_ascending.filter _

/-- The buckets hold the links around the position. -/
theorem mem_links_closestLinks {ix : LinkIx} :
    ix ∈ (net.closestLinks p radius modes).toList.flatMap Prod.snd ↔
      ix ∈ net.linksAround p radius modes := by
  rw [List.mem_flatMap]
  constructor
  · rintro ⟨⟨d, links⟩, hmem, hix⟩
    rw [mem_toList_closestLinks hmem, Buckets.mem_bucketOf] at hix
    exact hix.1
  · intro hix
    have hbucket : ix ∈ Buckets.bucketOf (net.linkDistance · p) (net.linksAround p radius modes)
        (net.linkDistance ix p) := Buckets.mem_bucketOf.2 ⟨hix, rfl⟩
    refine ⟨(net.linkDistance ix p, _), ?_, hbucket⟩
    rw [Std.TreeMap.mem_toList_iff_getElem?_eq_some, getElem?_closestLinks,
      if_neg (List.ne_nil_of_mem hbucket)]
    rfl

/-- **A search is a scan**: its buckets are the links in reach, sorted and cut. -/
theorem Reachable.toList_closestLinks (h : net.Reachable) :
    (net.closestLinks p radius modes).toList = net.scanned p radius modes := by
  refine (Buckets.runs_sortBy graded_closestLinks ?_).symm
  rw [← h.linksAround_eq]
  exact (List.perm_ext_iff_of_nodup linksAround_nodup nodup_links_closestLinks).2
    fun _ => mem_links_closestLinks.symm

/-! ## The order in which nodes are reported -/

/-- The buckets as a search fills them: links are added when they are met at the reported nodes,
and every bucket is sorted at the end. -/
def gathered (net : Network α) (reported : List NodeIx) (p : Point α) (modes : Option ModeSet) :
    Buckets α :=
  let met := (reported.flatMap net.incidentLinks).eraseDups
  let taken := met.filter fun ix => modes.all (net.link ix).allowsAny
  let filled := taken.foldl (fun b ix => b.add (net.linkDistance ix p) [ix]) (∅ : Buckets α)
  filled.map fun _ links => sortBy compare links

/-- Links in any order, put into buckets that are sorted, are in the buckets of the sorted links. -/
theorem sortBy_bucketOf (dist : LinkIx → α) {taken links : List LinkIx} (hperm : taken.Perm links)
    (hsorted : links.Pairwise (· < ·)) (d : α) :
    sortBy compare (Buckets.bucketOf dist taken d) = Buckets.bucketOf dist links d := by
  have hbucket : (Buckets.bucketOf dist links d).Pairwise fun a b => (compare a b).isLE :=
    (hsorted.filter _).imp fun hlt => Nat.isLE_compare.2 (Nat.le_of_lt hlt)
  refine sortBy_eq_of_perm (fun a b hab hba => ?_) (hperm.filter _) hbucket
  exact Nat.le_antisymm (Nat.isLE_compare.1 hab) (Nat.isLE_compare.1 hba)

/-- **The order of the reported nodes does not matter**, nor that one is reported again. -/
theorem toList_gathered {reported : List NodeIx}
    (h : ∀ n, n ∈ reported ↔ n ∈ net.nodesWithin p radius) :
    (net.gathered reported p modes).toList = (net.closestLinks p radius modes).toList := by
  have htaken : ((reported.flatMap net.incidentLinks).eraseDups.filter fun ix =>
      modes.all (net.link ix).allowsAny).Perm (net.linksAround p radius modes) := by
    refine (List.perm_ext_iff_of_nodup ?_ linksAround_nodup).2 fun ix => ?_
    · exact List.Pairwise.filter _ (nodup_eraseDups _ _ (Nat.le_refl _))
    · simp only [linksAround, mem_sortBy, List.mem_filter, List.mem_eraseDups, List.mem_flatMap, h]
  refine Std.TreeMap.Equiv.toList_eq (.of_forall_constGet?_eq fun d => ?_)
  have hbucket := sortBy_bucketOf (net.linkDistance · p) htaken linksAround_ascending d
  unfold gathered
  rw [Std.TreeMap.getElem?_map, getElem?_closestLinks, Buckets.getElem?_foldl_add, ← hbucket]
  split
  · next hnil =>
    rw [hnil, sortBy, if_pos rfl]
    rfl
  · next hne =>
    rw [if_neg fun hnil => hne (hnil ▸ sortBy_perm compare _).symm.eq_nil]
    rfl

/-! ## What is found -/

/-- What a search is to find: every link with an end within the radius that shares a mode with the
set, if there is one, in the bucket of its distance. -/
structure Found (net : Network α) (p : Point α) (radius : α) (modes : Option ModeSet)
    (buckets : List (α × List LinkIx)) : Prop where
  mem_iff : ∀ d ix, (∃ links, (d, links) ∈ buckets ∧ ix ∈ links) ↔
    ix < net.links.size ∧
      (SpatialIndex.InRadius p radius (net.position (net.link ix).source) ∨
        SpatialIndex.InRadius p radius (net.position (net.link ix).target)) ∧
      (∀ set ∈ modes, ∃ mode, mode ∈ (net.link ix).modes ∧ mode ∈ set) ∧
      d = net.linkDistance ix p
  once : (buckets.flatMap Prod.snd).Nodup
  ascending : buckets.Pairwise fun a b => Scalar.order a.1 b.1 = .lt
  ne_nil : ∀ b ∈ buckets, b.2 ≠ []
  inner : ∀ b ∈ buckets, b.2.Pairwise (· < ·)

theorem Reachable.found_closestLinks (h : net.Reachable) :
    net.Found p radius modes (net.closestLinks p radius modes).toList where
  mem_iff d ix := by
    have hmodes : modes.all (net.link ix).allowsAny = true ↔
        ∀ set ∈ modes, ∃ mode, mode ∈ (net.link ix).modes ∧ mode ∈ set := by
      simp only [Option.all_eq_true, Link.allowsAny, ModeSet.meets_iff, Option.mem_def]
    have hlinks : (∃ links, (d, links) ∈ (net.closestLinks p radius modes).toList ∧ ix ∈ links) ↔
        ix ∈ net.linksAround p radius modes ∧ d = net.linkDistance ix p := by
      constructor
      · rintro ⟨links, hmem, hix⟩
        exact ⟨mem_links_closestLinks.1 (List.mem_flatMap.2 ⟨_, hmem, hix⟩),
          (graded_closestLinks.distance _ hmem ix hix).symm⟩
      · rintro ⟨hix, rfl⟩
        obtain ⟨⟨d, links⟩, hmem, hix⟩ := List.mem_flatMap.1 (mem_links_closestLinks.2 hix)
        obtain rfl := graded_closestLinks.distance _ hmem ix hix
        exact ⟨links, hmem, hix⟩
    rw [hlinks, h.mem_linksAround_iff, hmodes, and_assoc, and_assoc]
  once := nodup_links_closestLinks
  ascending := graded_closestLinks.ascending
  ne_nil := graded_closestLinks.ne_nil
  inner := graded_closestLinks.inner

/-- **A search finds every link in reach once**, in the bucket of its distance, in whatever order
the nodes within the radius are reported. A bounded search admits from the links in reach, sorted by
distance and number. -/
theorem closestLinks_found (h : net.Reachable) :
    net.Found p radius modes (net.closestLinks p radius modes).toList ∧
      (∀ reported : List NodeIx,
        (∀ n, n ∈ reported ↔
          n < net.nodes.size ∧ SpatialIndex.InRadius p radius (net.position n)) →
        (net.gathered reported p modes).toList = (net.closestLinks p radius modes).toList) ∧
      ∀ bounds : SearchBounds α, net.boundedLinks p bounds modes =
        bounds.admittedFrom 0 none (net.scanned p bounds.radius modes) := by
  refine ⟨h.found_closestLinks, fun reported hreported => ?_, fun bounds => ?_⟩
  · exact toList_gathered fun n => by rw [hreported, h.mem_nodesWithin_iff]
  · rw [boundedLinks, Buckets.admitted, h.toList_closestLinks]

/-- The loop link of a stop is listed twice at its node, which is reported first. Of the other links
three are equally far away. -/
theorem closestLinks_found_triangle :
    (triangle.after lateRequests).Reachable ∧
      ((triangle.after lateRequests).closestLinks ⟨20, 5⟩ 25 none).toList =
        [(0, [5]), (5, [0, 3, 4]), (20, [2])] ∧
      (∀ n, n ∈ [3, 0] ↔ n < (triangle.after lateRequests).nodes.size ∧
        SpatialIndex.InRadius ⟨20, 5⟩ 25 ((triangle.after lateRequests).position n)) ∧
      ((triangle.after lateRequests).gathered [3, 0] ⟨20, 5⟩ none).toList =
        ((triangle.after lateRequests).closestLinks ⟨20, 5⟩ 25 none).toList ∧
      (triangle.after lateRequests).Found ⟨20, 5⟩ 25 none
        ((triangle.after lateRequests).closestLinks ⟨20, 5⟩ 25 none).toList := by
  have hreach : (triangle.after lateRequests).Reachable :=
    Reachable.after (.ofParts ofParts_triangle) lateRequests
  have hsize : (triangle.after lateRequests).nodes.size = 4 := by decide +kernel
  have hnear : ∀ n < 4, n ∈ [3, 0] ↔
      SpatialIndex.InRadius ⟨20, 5⟩ 25 ((triangle.after lateRequests).position n) := by
    decide +kernel
  have hreported : ∀ n, n ∈ [3, 0] ↔ n < (triangle.after lateRequests).nodes.size ∧
      SpatialIndex.InRadius ⟨20, 5⟩ 25 ((triangle.after lateRequests).position n) := by
    intro n
    rw [hsize]
    by_cases hn : n < 4
    · rw [hnear n hn, and_iff_right hn]
    · exact iff_of_false (fun hmem => hn (by simp at hmem; omega)) fun h => hn h.1
  exact ⟨hreach, by decide +kernel, hreported,
    (closestLinks_found hreach).2.1 [3, 0] hreported, (closestLinks_found hreach).1⟩

end Network

end TransitMatching
