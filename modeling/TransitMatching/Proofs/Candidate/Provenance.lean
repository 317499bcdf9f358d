import TransitMatching.Proofs.Candidate.Listing
import TransitMatching.Proofs.Number.Real
import TransitMatching.Proofs.Settings.Validation

/-!
# Where candidates come from

The list of a stop is made of one of three things, in this order: the loop link of its
facility if its mode takes no others, the link that its facility names, and what a
search around the stop has admitted and refinement has left. Where that is nothing, the
loop link stands in for it.

* `LinkCandidates.OwnLoop`, `LinkCandidates.Nearby`: the lists of one loop link, and of links
  found.
* `Settings.Provenance`: which of them the list of a stop is.
* `Settings.build_provenance`: **every list of a build has its provenance**, where no distance fails
  to be a number.
-/

namespace TransitMatching

variable {α : Type} [Scalar α]

/-! ## Lists of a stop -/

namespace LinkCandidates

/-- The loop link of a facility, and nothing else. -/
def OwnLoop (net : Network α) (facility : String) (c : LinkCandidates α) : Prop :=
  ∃ ix, net.existingLoopLink? facility = some ix ∧ net.MadeUpFor facility ix ∧ c.links = [ix]

/-- Links found around a position: with an end within a radius, no further away than a distance,
open to one of some modes, and each in a chain of its own. -/
structure Nearby (net : Network α) (radius maxDistance : α) (modes : ModeSet) (p : Point α)
    (c : LinkCandidates α) : Prop where
  ne_nil : c.links ≠ []
  lt : ∀ ix ∈ c.links, ix < net.links.size
  radius : ∀ ix ∈ c.links,
    SpatialIndex.InRadius p radius (net.position (net.link ix).source) ∨
      SpatialIndex.InRadius p radius (net.position (net.link ix).target)
  mode : ∀ ix ∈ c.links, ∃ mode, mode ∈ (net.link ix).modes ∧ mode ∈ modes
  distance : ∀ ix ∈ c.links, net.linkDistance ix p ≤ maxDistance
  chains : c.links.Pairwise fun a b => b ∉ net.chain a

end LinkCandidates

variable [DecimalText α]

namespace PendingStop

variable {net : Network α} {p : PendingStop α}

/-- Each link that serves the stop is listed once. -/
theorem links_listing (net : Network α) (p : PendingStop α) :
    (p.listing net).links.Perm (p.servedBy net) := by
  unfold listing Build.candidates
  obtain ⟨q, hq⟩ := LinkCandidate.exists_assignPriorities_eq
    ((p.servedBy net).map fun ix => LinkCandidate.ofOccurrence net ix p.occurrence p.position)
  rw [hq]
  refine ((sortBy_perm _ _).map LinkCandidate.link).trans ?_
  rw [List.map_map, List.map_map]
  exact .of_eq (List.map_id _)

/-- Each is listed with its distance from the stop. -/
theorem distance_listing {a : LinkCandidate α} (ha : a ∈ (p.listing net).toList) :
    a.distance = net.linkDistance a.link p.position := by
  obtain ⟨ix, -, priority, rfl⟩ := Build.exists_of_mem_candidates ha
  rfl

/-- A stop that needs its loop link has it alone. -/
theorem ownLoop_listing (hnet : net.Consistent) (hp : p.Supplied net)
    (hneeds : p.needsLoopLink = true) : (p.listing net).OwnLoop net p.facilityId := by
  obtain ⟨ix, hix⟩ := hp hneeds
  have hserved : p.servedBy net = [ix] := by
    unfold servedBy
    rw [if_pos hneeds, hix]
    rfl
  have hlinks := p.links_listing net
  rw [hserved] at hlinks
  exact ⟨ix, hix, hnet.loopLinks _ _ hix, List.perm_singleton.1 hlinks⟩

/-- A stop that does not need its loop link has the links left for it. -/
theorem links_listing_of_not_needs (net : Network α) (hneeds : p.needsLoopLink = false) :
    (p.listing net).links.Perm p.set.links := by
  have hlinks := p.links_listing net
  unfold servedBy at hlinks
  rwa [if_neg (by rw [hneeds]; exact Bool.false_ne_true)] at hlinks

end PendingStop

namespace Settings

variable {s : Settings α} {net grown : Network α} {schedule : Schedule α}

/-! ## Settings that were checked -/

omit [DecimalText α] in
/-- No greatest distance of settings that were checked is below zero, so each is a number. -/
theorem zero_le_maxDistance (h : s.validate = .ok ()) {mode : Mode} {m : ModeSettings α}
    (hm : s.mode? mode = some m) : 0 ≤ m.maxDistance := by
  have hmode : m.validate mode = .ok () := (validate_iff.1 h).2.2.1 mode m hm
  exact (ModeSettings.validate_iff.1 hmode).1

/-! ## Provenance -/

/-- Where the list of an occurrence at a position comes from. -/
structure Provenance (s : Settings α) (net grown : Network α) (mode : Mode) (o : Occurrence α)
    (p : Point α) (c : LinkCandidates α) : Prop where
  artificialOnly : (s.modeOrDefault mode).artificialOnly = true → c.OwnLoop grown o.facility.id
  /-- The link that a facility names stands for itself, whatever is found for the stops around. -/
  named : (s.modeOrDefault mode).artificialOnly = false → ∀ id ix,
    o.facility.linkRef = some id → net.linkIx? id = some ix → c.links = [ix]
  searched : (s.modeOrDefault mode).artificialOnly = false →
    o.facility.linkRef.bind net.linkIx? = none →
      c.OwnLoop grown o.facility.id ∨
        c.Nearby net s.searchRadius (s.modeOrDefault mode).maxDistance
          (s.modeOrDefault mode).networkModes p
  /-- For a mode without settings nothing is found. -/
  unknown : s.mode? mode = none → o.facility.linkRef.bind net.linkIx? = none →
    c.OwnLoop grown o.facility.id
  distance : ∀ a ∈ c.toList, a.distance = grown.linkDistance a.link p

section Stop

variable {mode : Mode} {o : Occurrence α} {p : PendingStop α}

omit [DecimalText α] in
/-- A stop whose facility names a link keeps it. -/
theorem Refines.set_of_named (h : s.Refines net mode o p)
    (hsearched : (s.modeOrDefault mode).artificialOnly = false) {id : String} {ix : LinkIx}
    (hid : o.facility.linkRef = some id) (hix : net.linkIx? id = some ix) :
    p.needsLoopLink = false ∧ p.set.links = [ix] := by
  obtain ⟨position, set, -, rfl, hnarrows⟩ := h
  have hraw : s.rawSet net (s.modeOrDefault mode) o.facility position =
      RawSet.ofLink net ix position := by
    unfold rawSet
    rw [hsearched, hid, Option.bind_some, hix]
    rfl
  rw [hraw] at hnarrows
  obtain rfl := hnarrows.kept rfl
  refine ⟨?_, rfl⟩
  change ((s.modeOrDefault mode).artificialOnly || false) = false
  rw [hsearched]
  rfl

omit [DecimalText α] in
/-- A stop that is searched for and finds nothing needs its loop link. -/
theorem Refines.needsLoopLink_of_unknown (hnet : net.Reachable) (h : s.Refines net mode o p)
    (hmode : s.mode? mode = none) (href : o.facility.linkRef.bind net.linkIx? = none) :
    p.needsLoopLink = true := by
  have hempty : p.set.links = [] := by
    refine List.eq_nil_iff_forall_not_mem.2 fun ix hix => ?_
    have haround := (Network.mem_boundedLinks (h.mem_boundedLinks href hix)).1
    have hopen : (net.link ix).allowsAny (s.modeOrDefault mode).networkModes = true :=
      (hnet.of_mem_linksAround haround).2
    -- Without settings there is no network mode to be open to.
    unfold modeOrDefault at hopen
    rw [hmode] at hopen
    obtain ⟨m, -, hm⟩ := ModeSet.meets_iff.1 hopen
    exact absurd hm Std.TreeSet.not_mem_emptyc
  unfold PendingStop.needsLoopLink RawSet.isEmpty
  rw [List.map_eq_nil_iff.1 hempty]
  exact Bool.or_true _

/-- What is listed for a stop that has found links. -/
theorem Refines.nearby (hnet : net.Reachable) (h : s.Refines net mode o p)
    (href : o.facility.linkRef.bind net.linkIx? = none) (hneeds : p.needsLoopLink = false)
    (hchains : p.set.links.Pairwise fun a b => b ∉ net.chain a)
    (hmax : Scalar.IsNumber (s.modeOrDefault mode).maxDistance)
    (hnumbers : ∀ ix < net.links.size, Scalar.IsNumber (net.linkDistance ix p.position)) :
    (p.listing grown).Nearby net s.searchRadius (s.modeOrDefault mode).maxDistance
      (s.modeOrDefault mode).networkModes p.position := by
  have hperm := PendingStop.links_listing_of_not_needs grown hneeds
  have hadmitted : ∀ ix ∈ (p.listing grown).links, (ix, net.linkDistance ix p.position) ∈
      net.boundedLinks p.position ((s.modeOrDefault mode).bounds s.searchRadius)
        (some (s.modeOrDefault mode).networkModes) := fun ix hix =>
    h.mem_boundedLinks href (hperm.subset hix)
  have haround := fun ix hix => (Network.mem_boundedLinks (hadmitted ix hix)).1
  have hlt := fun ix hix => hnet.consistent.lt_of_mem_linksAround (haround ix hix)
  refine
    { ne_nil := ?ne_nil
      lt := hlt
      radius := fun ix hix => (hnet.of_mem_linksAround (haround ix hix)).1
      mode := fun ix hix => ModeSet.meets_iff.1 (hnet.of_mem_linksAround (haround ix hix)).2
      distance := ?distance
      chains := ?chains }
  case ne_nil =>
    intro hnil
    rw [hnil] at hperm
    unfold PendingStop.needsLoopLink RawSet.isEmpty at hneeds
    rw [List.map_eq_nil_iff.1 hperm.nil_eq.symm, List.isEmpty_nil, Bool.or_true] at hneeds
    cases hneeds
  case distance =>
    intro ix hix
    exact Scalar.le_of_not_lt hmax (hnumbers ix (hlt ix hix))
      (Network.not_lt_of_mem_boundedLinks (hadmitted ix hix))
  case chains =>
    -- Chains are symmetric, so the order of the list does not matter.
    refine hchains.perm hperm.symm fun {a b} hab hba => hab ?_
    exact (hnet.consistent.mem_chain_congr hba b).1 (hnet.consistent.mem_chain_self b)

end Stop

/-- The list of a stop, by the settings of its mode and by what its facility names. -/
theorem Refines.provenance (hnet : net.Reachable) (hvalid : s.validate = .ok ()) {mode : Mode}
    {o : Occurrence α} {p : PendingStop α} (h : s.Refines net mode o p)
    (hgrown : grown.Consistent) (hsupplied : p.Supplied grown)
    (hchains : p.set.links.Pairwise fun a b => b ∉ net.chain a)
    (hnumbers : ∀ ix < net.links.size, Scalar.IsNumber (net.linkDistance ix p.position)) :
    s.Provenance net grown mode o p.position (p.listing grown) := by
  obtain ⟨hoccurrence, -, -, hsettings⟩ := h.frame
  have hloop : p.needsLoopLink = true → (p.listing grown).OwnLoop grown o.facility.id := by
    rw [← hoccurrence]
    exact PendingStop.ownLoop_listing hgrown hsupplied
  refine
    { artificialOnly := ?artificialOnly
      named := ?named
      searched := ?searched
      unknown := fun hmode href => hloop (h.needsLoopLink_of_unknown hnet hmode href)
      distance := fun a ha => PendingStop.distance_listing ha }
  case artificialOnly =>
    intro honly
    refine hloop ?_
    unfold PendingStop.needsLoopLink
    rw [hsettings, honly, Bool.true_or]
  case named =>
    intro hsearched id ix hid hix
    obtain ⟨hneeds, hset⟩ := h.set_of_named hsearched hid hix
    have hperm := PendingStop.links_listing_of_not_needs grown hneeds
    rw [hset] at hperm
    exact List.perm_singleton.1 hperm
  case searched =>
    intro hsearched href
    cases hneeds : p.needsLoopLink with
    | true => exact .inl (hloop hneeds)
    | false =>
      right
      cases hmode : s.mode? mode with
      | none =>
        rw [h.needsLoopLink_of_unknown hnet hmode href] at hneeds
        cases hneeds
      | some m =>
        have hmax : Scalar.IsNumber (s.modeOrDefault mode).maxDistance := by
          unfold modeOrDefault
          rw [hmode]
          exact (Scalar.number_of_le (zero_le_maxDistance hvalid hmode)).2
        exact h.nearby hnet href hneeds hchains hmax hnumbers

/-- **Every list of a build has its provenance**, where keys differ and all distances are numbers. -/
theorem build_provenance (hnet : net.Reachable) (hmanual : s.manual = [])
    (hkeys : (schedule.occurrences.map Occurrence.key).Nodup)
    (hnumbers : ∀ o ∈ schedule.occurrences, ∀ p ∈ o.position, ∀ ix < net.links.size,
      Scalar.IsNumber (net.linkDistance ix p))
    {diagnostics : Diagnostics} {workers : s.Refinement net schedule.routes}
    {store : CandidateStore α}
    (hbuild : (s.build net schedule diagnostics workers).outcome = .ok store) {line : Line α}
    {route : Route α} (hroute : (line, route) ∈ schedule.routes) :
    ∀ o ∈ route.occurrences line.id, ∃ p c, o.position = some p ∧ store[o.key]? = some c ∧
      s.Provenance net (s.build net schedule diagnostics workers).network route.mode o p c := by
  have hvalid := validate_of_build hbuild
  obtain ⟨pending, hlisted⟩ := build_listed hnet hbuild
  clear hbuild
  generalize (s.build net schedule diagnostics workers).network = grown at hlisted ⊢
  intro o ho
  obtain ⟨p, hp, hrefines⟩ := exists_mem_refineRoutes hlisted.refined hroute ho
  obtain ⟨hoccurrence, hposition, -, -⟩ := hrefines.frame
  have hnone : ∀ m ∈ s.manual, m.appliesTo p.occurrence.facility.id p.mode = false := by
    rw [hmanual]
    exact fun m hm => absurd hm List.not_mem_nil
  have hlist := hlisted.of_nodup hkeys hp hnone
  rw [hoccurrence] at hlist
  have hmem : o ∈ schedule.occurrences := List.mem_flatMap.2 ⟨_, hroute, ho⟩
  exact ⟨p.position, _, hposition, hlist, hrefines.provenance hnet hvalid
    hlisted.looped.reachable.consistent (hlisted.supplied p hp)
    (pairwise_refineRoutes hnet.consistent hlisted.refined p hp) (hnumbers o hmem _ hposition)⟩

/-- Along the triangle the first stop has links around it, and the second the one that it names. -/
theorem build_provenance_triangle :
    Network.triangle.Reachable ∧ triangleSettings.manual = [] ∧
      (triangleSchedule.occurrences.map Occurrence.key).Nodup ∧
      (∀ o ∈ triangleSchedule.occurrences, ∀ p ∈ o.position,
        ∀ ix < Network.triangle.links.size,
          Scalar.IsNumber (Network.triangle.linkDistance ix p)) ∧
      ({ id := "line", routes := [triangleRoute] }, triangleRoute) ∈ triangleSchedule.routes ∧
      ∃ store, (triangleSettings.build .triangle triangleSchedule .empty).outcome = .ok store ∧
        (store.toList.map fun e => (e.1, e.2.links)) =
          [("line.out.s.-.0", [3, 2]), ("line.out.t.60.-", [0])] ∧
        ∀ o ∈ triangleRoute.occurrences "line", ∃ p c, o.position = some p ∧
          store[o.key]? = some c ∧ triangleSettings.Provenance .triangle
            (triangleSettings.build .triangle triangleSchedule .empty).network triangleRoute.mode
            o p c := by
  have hreach : Network.triangle.Reachable := .ofParts Network.ofParts_triangle
  have hkeys : (triangleSchedule.occurrences.map Occurrence.key).Nodup := by decide +kernel
  have hnumbers : ∀ o ∈ triangleSchedule.occurrences, ∀ p ∈ o.position,
      ∀ ix < Network.triangle.links.size,
        Scalar.IsNumber (Network.triangle.linkDistance ix p) := by decide +kernel
  have hroute : ({ id := "line", routes := [triangleRoute] }, triangleRoute) ∈
      triangleSchedule.routes := List.mem_singleton_self _
  have hlists : ((triangleSettings.build .triangle triangleSchedule
      .empty).outcome.toOption.map fun store => store.toList.map fun e => (e.1, e.2.links)) =
        some [("line.out.s.-.0", [3, 2]), ("line.out.t.60.-", [0])] := by decide +kernel
  obtain ⟨store, hstore, hlists⟩ := Option.map_eq_some_iff.1 hlists
  have hbuild := toOption_eq_some_iff.1 hstore
  exact ⟨hreach, rfl, hkeys, hnumbers, hroute, store, hbuild, hlists,
    build_provenance hreach rfl hkeys hnumbers hbuild hroute⟩

end Settings

/-! ## The radius of a search -/

/-- In exact arithmetic a position is within a radius if it is no further away. -/
theorem inRadius_real {p q : Point ℝ} {radius : ℝ} (hradius : 0 ≤ radius) :
    SpatialIndex.InRadius p radius q ↔ q.distance p ≤ radius := by
  have hdistance : q.distance p = Real.sqrt ((q.x - p.x) ^ 2 + (q.y - p.y) ^ 2) := rfl
  have hnonneg : 0 ≤ q.distance p := hdistance ▸ Real.sqrt_nonneg _
  have hsquare : q.distance p * q.distance p =
      (q.x - p.x) * (q.x - p.x) + (q.y - p.y) * (q.y - p.y) := by
    rw [hdistance, Real.mul_self_sqrt (by positivity)]
    ring
  change (q.x - p.x) * (q.x - p.x) + (q.y - p.y) * (q.y - p.y) ≤ radius * radius ∧
    q.distance p * q.distance p ≤ radius * radius ↔ _
  rw [hsquare, and_self, ← hsquare]
  exact (mul_self_le_mul_self_iff hnonneg hradius).symm

end TransitMatching
