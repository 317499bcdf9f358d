import TransitMatching.Candidate.Build
import TransitMatching.Proofs.Network.Consistency

/-!
# The loop links that scoring makes up

A stop without a link takes the loop link of its facility. The first such stop at a
facility without one has it made up, under a name that may be taken already. No loop
link takes the name of another, so whether a stop fails depends on the network that
scoring starts from, not on how far it has grown.

* `PendingStop.founders`: the stops for which loop links are made up.
* `PendingStop.blocked`: a stop for which none can be.
* `Build.score_scored`: **scoring ends at the first blocked stop, and by then the network has
  grown by the loop links of the founders before it.**
-/

namespace TransitMatching

variable {α : Type} [Scalar α]

namespace PendingStop

/-- The facility of the stop. -/
def facilityId (p : PendingStop α) : String := p.occurrence.facility.id

/-- Whether the stop needs a loop link and its facility has none. -/
def lacksLoopLink (net : Network α) (p : PendingStop α) : Bool :=
  p.needsLoopLink && (net.existingLoopLink? p.facilityId).isNone

/-- Whether the stop needs a loop link that cannot be made up, as the name of its node is taken. -/
def blocked (net : Network α) (p : PendingStop α) : Bool :=
  p.lacksLoopLink net && (net.nodeIx? (Network.loopLinkPrefix ++ p.facilityId)).isSome

/-- The first stop of each facility that needs a loop link and has none. -/
def founders (net : Network α) : List (PendingStop α) → List (PendingStop α)
  | [] => []
  | p :: rest =>
    if p.lacksLoopLink net then
      p :: (founders net rest).filter fun q => q.facilityId ≠ p.facilityId
    else founders net rest

end PendingStop

/-- The network with the loop link made up that a stop needs. -/
def Network.withLoopLinkFor (net : Network α) (p : PendingStop α) : Network α :=
  net.withLoopLink p.facilityId p.position p.settings.networkModes

/-- There is room for so many more nodes and links. -/
structure Network.Room (net : Network α) (n : Nat) : Prop where
  nodes : net.nodes.size + n ≤ Network.capacity
  links : net.links.size + n ≤ Network.capacity

namespace PendingStop

variable {net : Network α} {p q : PendingStop α}

theorem lacksLoopLink_iff : p.lacksLoopLink net = true ↔
    p.needsLoopLink = true ∧ net.existingLoopLink? p.occurrence.facility.id = none := by
  unfold lacksLoopLink facilityId
  rw [Bool.and_eq_true, Option.isNone_iff_eq_none]

/-- The node of a loop link that is made up has the name of its facility only. -/
theorem nodeIx?_withLoopLinkFor (net : Network α) (p : PendingStop α) (facility : String) :
    (net.withLoopLinkFor p).nodeIx? (Network.loopLinkPrefix ++ facility) =
      if p.facilityId = facility then some net.nodes.size
      else net.nodeIx? (Network.loopLinkPrefix ++ facility) := by
  have hname : Network.loopLinkPrefix ++ p.facilityId = Network.loopLinkPrefix ++ facility ↔
      p.facilityId = facility := String.append_right_inj _
  have hnode := Network.nodeIx?_withNode net
    ⟨Network.loopLinkPrefix ++ p.facilityId, p.position⟩ (Network.loopLinkPrefix ++ facility)
  simp only [hname] at hnode
  exact hnode

/-- A loop link that is made up serves the stops of its facility, and no others. -/
theorem lacksLoopLink_withLoopLinkFor (net : Network α) (p q : PendingStop α) :
    q.lacksLoopLink (net.withLoopLinkFor p) =
      (q.lacksLoopLink net && decide (q.facilityId ≠ p.facilityId)) := by
  unfold lacksLoopLink Network.withLoopLinkFor
  rw [Network.existingLoopLink?_withLoopLink]
  by_cases h : p.facilityId = q.facilityId
  · simp [h]
  · simp [h, Ne.symm h]

/-- A loop link that can be made up leaves every other stop as blocked as it was. -/
theorem blocked_withLoopLinkFor (hp : p.lacksLoopLink net = true) (hfree : p.blocked net = false)
    (q : PendingStop α) : q.blocked (net.withLoopLinkFor p) = q.blocked net := by
  unfold blocked
  rw [lacksLoopLink_withLoopLinkFor, nodeIx?_withLoopLinkFor]
  by_cases h : p.facilityId = q.facilityId
  · have hname : (net.nodeIx? (Network.loopLinkPrefix ++ q.facilityId)).isSome = false := by
      unfold blocked at hfree
      rwa [hp, Bool.true_and, h] at hfree
    simp [h, hname]
  · simp [h, Ne.symm h]

/-! ## Founders -/

theorem founders_withLoopLinkFor (net : Network α) (p : PendingStop α)
    (pending : List (PendingStop α)) :
    founders (net.withLoopLinkFor p) pending =
      (founders net pending).filter fun q => q.facilityId ≠ p.facilityId := by
  induction pending with
  | nil => rfl
  | cons q rest ih =>
    unfold founders
    rw [lacksLoopLink_withLoopLinkFor]
    cases hlacks : q.lacksLoopLink net with
    | false => simpa using ih
    | true =>
      by_cases h : q.facilityId = p.facilityId
      · -- The stop is served with the others of its facility.
        simp [h, ih, List.filter_filter]
      · rw [ih]
        simp [h, List.filter_filter, Bool.and_comm]

/-- A founder is one of the stops, lacks a loop link, and comes before all others of its facility
that do. -/
theorem exists_of_mem_founders {pending : List (PendingStop α)} (hp : p ∈ founders net pending) :
    p.lacksLoopLink net = true ∧ ∃ before after, pending = before ++ p :: after ∧
      ∀ q ∈ before, q.lacksLoopLink net = true → q.facilityId ≠ p.facilityId := by
  induction pending with
  | nil => exact absurd hp List.not_mem_nil
  | cons q rest ih =>
    -- A founder among the rest stays one behind a stop that needs none or is of another facility.
    have hrest : p ∈ founders net rest → (q.lacksLoopLink net = true → q.facilityId ≠ p.facilityId) →
        p.lacksLoopLink net = true ∧ ∃ before after, q :: rest = before ++ p :: after ∧
          ∀ q ∈ before, q.lacksLoopLink net = true → q.facilityId ≠ p.facilityId := by
      intro hmem hq
      obtain ⟨hlacks, before, after, rfl, hbefore⟩ := ih hmem
      exact ⟨hlacks, q :: before, after, rfl, List.forall_mem_cons.2 ⟨hq, hbefore⟩⟩
    unfold founders at hp
    split at hp
    · next hlacks =>
      rcases List.mem_cons.1 hp with rfl | hp
      · exact ⟨hlacks, [], rest, rfl, fun q hq => absurd hq List.not_mem_nil⟩
      · obtain ⟨hmem, hne⟩ := List.mem_filter.1 hp
        exact hrest hmem fun _ => Ne.symm (of_decide_eq_true hne)
    · next hserved => exact hrest hp fun hlacks => absurd hlacks hserved

/-- There is one founder for each facility. -/
theorem nodup_founders (net : Network α) (pending : List (PendingStop α)) :
    ((founders net pending).map facilityId).Nodup := by
  induction pending with
  | nil => exact List.nodup_nil
  | cons p rest ih =>
    unfold founders
    split
    · rw [List.map_cons, List.nodup_cons]
      refine ⟨fun hmem => ?_, ih.sublist (List.filter_sublist.map _)⟩
      obtain ⟨q, hq, heq⟩ := List.mem_map.1 hmem
      exact of_decide_eq_true (List.mem_filter.1 hq).2 heq
    · exact ih

theorem founders_sublist (net : Network α) (pending : List (PendingStop α)) :
    (founders net pending).Sublist pending := by
  induction pending with
  | nil => exact .slnil
  | cons p rest ih =>
    unfold founders
    split
    · exact (List.filter_sublist.trans ih).cons_cons p
    · exact ih.cons p

/-- Every facility that lacks a loop link has a founder. -/
theorem exists_mem_founders {pending : List (PendingStop α)} (hp : p ∈ pending)
    (hlacks : p.lacksLoopLink net = true) :
    ∃ q ∈ founders net pending, q.facilityId = p.facilityId := by
  induction pending with
  | nil => exact absurd hp List.not_mem_nil
  | cons q rest ih =>
    unfold founders
    rcases List.mem_cons.1 hp with rfl | hp
    · rw [if_pos hlacks]
      exact ⟨p, List.mem_cons_self, rfl⟩
    · obtain ⟨r, hr, heq⟩ := ih hp
      split
      · by_cases h : r.facilityId = q.facilityId
        · exact ⟨q, List.mem_cons_self, h.symm.trans heq⟩
        · exact ⟨r, List.mem_cons_of_mem _ (List.mem_filter.2 ⟨hr, decide_eq_true h⟩), heq⟩
      · exact ⟨r, hr, heq⟩

end PendingStop

omit [Scalar α] in
theorem Network.Room.mono {net : Network α} {m n : Nat} (h : net.Room n) (hle : m ≤ n) :
    net.Room m :=
  ⟨Nat.le_trans (Nat.add_le_add_left hle _) h.nodes,
    Nat.le_trans (Nat.add_le_add_left hle _) h.links⟩

@[simp]
theorem Network.nodes_size_withLoopLinkFor (net : Network α) (p : PendingStop α) :
    (net.withLoopLinkFor p).nodes.size = net.nodes.size + 1 := by
  simp [withLoopLinkFor, withLoopLink, withLink, withPlace, withNode]

@[simp]
theorem Network.links_size_withLoopLinkFor (net : Network α) (p : PendingStop α) :
    (net.withLoopLinkFor p).links.size = net.links.size + 1 := by
  simp [withLoopLinkFor, withLoopLink, withLink, withPlace, withNode]

theorem Network.Room.withLoopLinkFor {net : Network α} {n : Nat} (h : net.Room (n + 1))
    (p : PendingStop α) : (net.withLoopLinkFor p).Room n := by
  obtain ⟨hnodes, hlinks⟩ := h
  refine ⟨?_, ?_⟩
  · rw [Network.nodes_size_withLoopLinkFor]
    omega
  · rw [Network.links_size_withLoopLinkFor]
    omega

/-! ## Scoring a stop -/

namespace Build

variable {net : Network α} {p : PendingStop α}

/-- A stop that lacks no loop link is served in the network as it is. -/
theorem servingLinks_of_not_lacks (h : p.lacksLoopLink net = false) :
    ∃ links, servingLinks net p = .ok (net, links, []) := by
  unfold servingLinks
  split
  · next hneeds =>
    unfold PendingStop.lacksLoopLink PendingStop.facilityId at h
    rw [hneeds, Bool.true_and, Option.isNone_eq_false_iff] at h
    obtain ⟨ix, hix⟩ := Option.isSome_iff_exists.1 h
    refine ⟨[ix], ?_⟩
    dsimp only
    rw [Network.loopLink_eq, loopEvents, hix]
    rfl
  · exact ⟨_, rfl⟩

/-- A stop that lacks a loop link has it made up, unless it is blocked. -/
theorem servingLinks_of_lacks (h : p.lacksLoopLink net = true) (hfree : p.blocked net = false)
    (hroom : net.Room 1) :
    servingLinks net p =
      .ok (net.withLoopLinkFor p, [net.links.size], [.counted .loopLinks]) := by
  obtain ⟨hneeds, hnone⟩ := PendingStop.lacksLoopLink_iff.1 h
  have hname : (net.nodeIx? (Network.loopLinkPrefix ++ p.occurrence.facility.id)).isSome = false := by
    unfold PendingStop.blocked at hfree
    rwa [h, Bool.true_and] at hfree
  have hfits : ¬ (Network.capacity ≤ net.nodes.size ∨ Network.capacity ≤ net.links.size) := by
    obtain ⟨hnodes, hlinks⟩ := hroom
    omega
  unfold servingLinks
  rw [if_pos hneeds]
  dsimp only
  rw [Network.loopLink_eq, loopEvents, hnone, hname]
  dsimp only
  rw [if_neg Bool.false_ne_true, if_neg hfits]
  rfl

/-- A stop that is blocked fails, and leaves the network as it is. -/
theorem servingLinks_of_blocked (h : p.blocked net = true) :
    servingLinks net p =
        .error (.duplicateNode (Network.loopLinkPrefix ++ p.facilityId)) ∧
      net.afterLoopLink p.occurrence.facility.id p.position p.settings.networkModes = net := by
  obtain ⟨hlacks, hname⟩ := Bool.and_eq_true_iff.1 h
  obtain ⟨hneeds, hnone⟩ := PendingStop.lacksLoopLink_iff.1 hlacks
  unfold PendingStop.facilityId at hname
  refine ⟨?_, ?_⟩
  · unfold servingLinks
    rw [if_pos hneeds]
    dsimp only
    rw [Network.loopLink_eq, hnone]
    dsimp only
    rw [if_pos hname]
    rfl
  · unfold Network.afterLoopLink
    rw [Network.loopLink_eq, hnone]
    dsimp only
    rw [if_pos hname, Network.addNode_eq, if_pos hname]

/-- A stop counts as an empty search if nothing was found for it, although it was searched for. -/
theorem count_emptyEvents (p : PendingStop α) :
    (emptyEvents p).count (.counted .loopLinks) = 0 ∧
      (emptyEvents p).count (.counted .emptySearches) =
        if p.set.isEmpty && !p.settings.artificialOnly then 1 else 0 := by
  have hneeds : (p.needsLoopLink && !p.settings.artificialOnly) =
      (p.set.isEmpty && !p.settings.artificialOnly) := by
    unfold PendingStop.needsLoopLink
    cases p.settings.artificialOnly <;> simp
  unfold emptyEvents
  rw [hneeds]
  split
  · exact ⟨rfl, rfl⟩
  · exact ⟨rfl, rfl⟩

/-- What scoring does to the network, to counters and to the error, from a network on. -/
structure Scored (net : Network α) (diagnostics : Diagnostics) (pending : List (PendingStop α))
    (out : Build α × Option (NetworkError α)) : Prop where
  error : out.2 = (pending.find? (PendingStop.blocked net)).map fun p =>
    .duplicateNode (Network.loopLinkPrefix ++ p.facilityId)
  network : out.1.network =
    (PendingStop.founders net (pending.takeWhile fun p => !p.blocked net)).foldl
      Network.withLoopLinkFor net
  loopLinks : out.1.diagnostics.count .loopLinks = diagnostics.count .loopLinks +
    (PendingStop.founders net (pending.takeWhile fun p => !p.blocked net)).length
  emptySearches : out.2 = none → out.1.diagnostics.count .emptySearches =
    diagnostics.count .emptySearches +
      pending.countP fun p => p.set.isEmpty && !p.settings.artificialOnly

/-- One stop more in front, which is served: what it counts as comes on top. -/
theorem Scored.cons {diagnostics : Diagnostics} {rest : List (PendingStop α)} {net' : Network α}
    {out : Build α × Option (NetworkError α)} (made : List (PendingStop α)) (events : List Event)
    (hfree : p.blocked net = false)
    (hblocked : ∀ q : PendingStop α, q.blocked net' = q.blocked net)
    (hnet : made.foldl Network.withLoopLinkFor net = net')
    (hmade : ∀ others, PendingStop.founders net (p :: others) =
      made ++ PendingStop.founders net' others)
    (hloop : events.count (.counted .loopLinks) = made.length)
    (hempty : events.count (.counted .emptySearches) = 0)
    (h : Scored net' ((diagnostics.recordAll (emptyEvents p)).recordAll events) rest out) :
    Scored net diagnostics (p :: rest) out := by
  obtain ⟨hcount, hcount'⟩ := count_emptyEvents p
  have hsame : PendingStop.blocked net' = PendingStop.blocked net := funext hblocked
  have htake : (p :: rest).takeWhile (fun q => !q.blocked net) =
      p :: rest.takeWhile (fun q => !q.blocked net) := by
    rw [List.takeWhile_cons, hfree]
    rfl
  obtain ⟨herror, hnetwork, hloopLinks, hsearches⟩ := h
  simp only [hsame] at herror hnetwork hloopLinks
  rw [Diagnostics.count_recordAll, Diagnostics.count_recordAll] at hloopLinks hsearches
  refine ⟨?_, ?_, ?_, fun hnone => ?_⟩
  · rw [herror, List.find?_cons, hfree]
  · rw [hnetwork, htake, hmade, List.foldl_append, hnet]
  · rw [hloopLinks, htake, hmade, List.length_append, hcount, hloop]
    omega
  · rw [hsearches hnone, List.countP_cons, hcount', hempty]
    omega

variable [DecimalText α]

/-- Scoring goes on behind a stop that is served. -/
theorem exists_score_cons (b : Build α) {p : PendingStop α} {links : List LinkIx}
    {events : List Event} (rest : List (PendingStop α))
    (h : servingLinks b.network p = .ok (net, links, events)) :
    ∃ next : Build α, b.score (p :: rest) = next.score rest ∧ next.network = net ∧
      next.diagnostics = (b.diagnostics.recordAll (emptyEvents p)).recordAll events := by
  rw [score, h]
  exact ⟨_, rfl, rfl, rfl⟩

/-- Scoring ends at a stop that is blocked, with the network as it is. -/
theorem score_cons_of_blocked (b : Build α) {p : PendingStop α} (rest : List (PendingStop α))
    (h : p.blocked b.network = true) :
    b.score (p :: rest) =
      ({ b with diagnostics := b.diagnostics.recordAll (emptyEvents p) },
        some (.duplicateNode (Network.loopLinkPrefix ++ p.facilityId))) := by
  obtain ⟨hserving, hafter⟩ := servingLinks_of_blocked h
  rw [score, hserving]
  dsimp only
  rw [hafter]

/-- **Scoring makes up the loop links of the founders, up to the first stop that is blocked.** -/
theorem score_scored (b : Build α) (pending : List (PendingStop α))
    (hroom : b.network.Room (PendingStop.founders b.network pending).length) :
    Scored b.network b.diagnostics pending (b.score pending) := by
  induction pending generalizing b with
  | nil => exact ⟨rfl, rfl, rfl, fun _ => rfl⟩
  | cons p rest ih =>
    cases hblocked : p.blocked b.network with
    | true =>
      rw [score_cons_of_blocked b rest hblocked]
      refine ⟨?_, ?_, ?_, fun hnone => by cases hnone⟩
      · rw [List.find?_cons, hblocked]
        rfl
      · rw [List.takeWhile_cons, hblocked]
        rfl
      · rw [List.takeWhile_cons, hblocked, Diagnostics.count_recordAll, (count_emptyEvents p).1]
        rfl
    | false =>
      cases hlacks : p.lacksLoopLink b.network with
      | false =>
        have hfounders : ∀ others, PendingStop.founders b.network (p :: others) =
            [] ++ PendingStop.founders b.network others := by
          intro others
          rw [PendingStop.founders, hlacks, if_neg Bool.false_ne_true, List.nil_append]
        obtain ⟨links, hserving⟩ := servingLinks_of_not_lacks hlacks
        obtain ⟨next, hscore, hnetwork, hdiagnostics⟩ := exists_score_cons b rest hserving
        rw [hfounders, ← hnetwork] at hroom
        have hrest := ih next hroom
        rw [hnetwork, hdiagnostics] at hrest
        rw [hscore]
        exact hrest.cons [] [] hblocked (fun _ => rfl) rfl hfounders rfl rfl
      | true =>
        have hfounders : ∀ others, PendingStop.founders b.network (p :: others) =
            [p] ++ PendingStop.founders (b.network.withLoopLinkFor p) others := by
          intro others
          rw [PendingStop.founders, hlacks, if_pos rfl, PendingStop.founders_withLoopLinkFor]
          rfl
        rw [hfounders, List.length_append, Nat.add_comm] at hroom
        have hone : b.network.Room 1 := hroom.mono (Nat.le_add_left _ _)
        obtain ⟨next, hscore, hnetwork, hdiagnostics⟩ :=
          exists_score_cons b rest (servingLinks_of_lacks hlacks hblocked hone)
        have hrest := ih next (hnetwork ▸ hroom.withLoopLinkFor p)
        rw [hnetwork, hdiagnostics] at hrest
        rw [hscore]
        exact hrest.cons [p] [.counted .loopLinks] hblocked
          (PendingStop.blocked_withLoopLinkFor hlacks hblocked) rfl hfounders rfl rfl

end Build

end TransitMatching
