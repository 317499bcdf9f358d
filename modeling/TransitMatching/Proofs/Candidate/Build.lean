import TransitMatching.Candidate.Build
import TransitMatching.Proofs.Candidate.Ranking
import TransitMatching.Proofs.Candidate.Refinement

/-!
# What a build leaves in its store

Scoring puts a list under the key of every stop, and a list that it puts there can
serve the stop: a stop without a link gets a loop link. Manual entries change lists
under keys that are there, and an entry that comes to nothing replaces nothing. So
every occurrence of the schedule ends with candidates.

* `Serving`: a store that serves some stops in a network.
* `servingLinks_ok`: the links that scoring takes for a stop.
* `score_serving`, `applyManual_serving`: each phase keeps the store serving.
* `Settings.Run`: the ways in which a build can go.
* `build_same_of_ok`: **what a build that succeeds gives does not depend on the workers.**
* `build_serves`: **the store of a build has the keys of the occurrences of the
  schedule, and under each a list from which the occurrence can be served.**
-/

namespace TransitMatching

variable {α : Type} [Scalar α]

/-- The occurrences of the stops of all routes, in the order of the routes. -/
def Schedule.occurrences (schedule : Schedule α) : List (Occurrence α) :=
  schedule.routes.flatMap fun (line, route) => route.occurrences line.id

variable [DecimalText α]

/-- A store that holds candidates for the given stops, and for no others. -/
structure Serving (net : Network α) (stops : List (PendingStop α)) (store : CandidateStore α) :
    Prop where
  keys : ∀ key, key ∈ store ↔ ∃ p ∈ stops, p.occurrence.key = key
  serves : ∀ (key : String) (c : LinkCandidates α), store[key]? = some c → c.Serves net key

variable {net net' : Network α} {stops : List (PendingStop α)} {store : CandidateStore α}
  {p : PendingStop α}

theorem Serving.extends (h : Serving net stops store) (hnet : net.Extends net') :
    Serving net' stops store :=
  ⟨h.keys, fun key c hc => (h.serves key c hc).extends hnet⟩

/-- Each of the stops has a list that serves it. -/
theorem Serving.exists_list (h : Serving net stops store) (hp : p ∈ stops) :
    ∃ c, store[p.occurrence.key]? = some c ∧ c.Serves net p.occurrence.key := by
  have hmem : p.occurrence.key ∈ store := (h.keys _).2 ⟨p, hp, rfl⟩
  obtain ⟨c, hc⟩ := Option.isSome_iff_exists.1 (Std.TreeMap.isSome_getElem?_iff_mem.2 hmem)
  exact ⟨c, hc, h.serves _ c hc⟩

/-- A list is that of one of the stops. -/
theorem Serving.exists_stop (h : Serving net stops store) {key : String} {c : LinkCandidates α}
    (hc : store[key]? = some c) : ∃ p ∈ stops, p.occurrence.key = key :=
  (h.keys key).1 (Std.TreeMap.mem_iff_isSome_getElem?.2 (hc ▸ rfl))

/-- Putting a list that serves a stop under its key adds the stop. -/
theorem Serving.insert (h : Serving net stops store) {c : LinkCandidates α}
    (hc : c.Serves net p.occurrence.key) :
    Serving net (stops ++ [p]) (store.insert p.occurrence.key c) where
  keys key := by
    simp only [Std.TreeMap.mem_insert, Std.LawfulEqCmp.compare_eq_iff_eq, h.keys, List.mem_append,
      List.mem_singleton]
    constructor
    · rintro (hkey | ⟨q, hq, hkey⟩)
      · exact ⟨p, .inr rfl, hkey⟩
      · exact ⟨q, .inl hq, hkey⟩
    · rintro ⟨q, hq | rfl, hkey⟩
      · exact .inr ⟨q, hq, hkey⟩
      · exact .inl hkey
  serves key c' hc' := by
    rw [Std.TreeMap.getElem?_insert] at hc'
    split at hc'
    · next heq =>
      obtain rfl := Option.some.inj hc'
      rwa [← Std.LawfulEqCmp.eq_of_compare heq]
    · exact h.serves key c' hc'

/-- For a stop that is served already, nothing is added. -/
theorem Serving.insert_of_mem (h : Serving net stops store) (hp : p ∈ stops)
    {c : LinkCandidates α} (hc : c.Serves net p.occurrence.key) :
    Serving net stops (store.insert p.occurrence.key c) where
  keys key := by
    rw [(h.insert hc).keys]
    constructor
    · rintro ⟨q, hq, hkey⟩
      rcases List.mem_append.1 hq with hq | hq
      · exact ⟨q, hq, hkey⟩
      · rw [List.mem_singleton.1 hq] at hkey
        exact ⟨p, hp, hkey⟩
    · rintro ⟨q, hq, hkey⟩
      exact ⟨q, List.mem_append_left _ hq, hkey⟩
  serves := (h.insert hc).serves

/-! ## Scoring -/

namespace Build

omit [DecimalText α] in
/-- A stop is served by some links of a network that holds at least what the old one did. -/
theorem servingLinks_ok (hnet : net.Reachable) (hset : ∀ ix ∈ p.set.links, ix < net.links.size)
    {links : List LinkIx} {events : List Event}
    (h : servingLinks net p = .ok (net', links, events)) :
    net'.Reachable ∧ net.Extends net' ∧ links ≠ [] ∧ ∀ ix ∈ links, ix < net'.links.size := by
  unfold servingLinks at h
  split at h
  · -- The loop link is there from the request on, and made-up links belong to the network.
    obtain ⟨⟨grown, ix⟩, hloop, heq⟩ := map_eq_ok_iff.1 h
    cases heq
    have hreach := hnet.loopLink hloop
    refine ⟨hreach, Network.extends_loopLink hloop, List.cons_ne_nil _ _, ?_⟩
    intro ix' hix'
    rw [List.mem_singleton.1 hix']
    exact (hreach.consistent.loopLinks _ _ (Network.existingLoopLink?_loopLink hloop)).lt
  · next hneeds =>
    cases h
    refine ⟨hnet, .refl _, ?_, hset⟩
    intro hnil
    have hempty : p.set.isEmpty = true := List.isEmpty_iff.2 (List.map_eq_nil_iff.1 hnil)
    exact hneeds (by rw [PendingStop.needsLoopLink, hempty, Bool.or_true])

/-- What is counted on the way has no bearing on the network, the store or a failure. -/
theorem score_diagnostics (b : Build α) (diagnostics : Diagnostics)
    (pending : List (PendingStop α)) :
    ∃ diagnostics', ({ b with diagnostics } : Build α).score pending =
      ({ (b.score pending).1 with diagnostics := diagnostics' }, (b.score pending).2) := by
  induction pending generalizing b diagnostics with
  | nil => exact ⟨diagnostics, rfl⟩
  | cons p rest ih =>
    unfold score
    dsimp only
    cases servingLinks b.network p with
    | error e => exact ⟨_, rfl⟩
    | ok served =>
      obtain ⟨network, links, events⟩ := served
      exact ih ⟨network, (b.diagnostics.recordAll (emptyEvents p)).recordAll events,
        b.store.insert p.occurrence.key (candidates network p links)⟩ _

theorem serves_candidates {links : List LinkIx} (hne : links ≠ [])
    (hlt : ∀ ix ∈ links, ix < net.links.size) :
    (candidates net p links).Serves net p.occurrence.key := by
  obtain ⟨q, hq⟩ := LinkCandidate.exists_assignPriorities_eq
    (links.map fun ix => LinkCandidate.ofOccurrence net ix p.occurrence p.position)
  unfold candidates
  rw [hq, List.map_map]
  refine LinkCandidates.serves_ofList (fun hnil => hne (List.map_eq_nil_iff.1 hnil)) ?_
  intro c hc
  obtain ⟨ix, hix, rfl⟩ := List.mem_map.1 hc
  exact (LinkCandidate.fitFor_ofOccurrence (hlt ix hix) _ _).withPriority _

/-- **Scoring makes the store serve one stop after another.** -/
theorem score_serving {pending : List (PendingStop α)} {b b' : Build α}
    (hnet : b.network.Reachable) (hstore : Serving b.network stops b.store)
    (hset : ∀ p ∈ pending, ∀ ix ∈ p.set.links, ix < b.network.links.size)
    (h : b.score pending = (b', none)) :
    b'.network.Reachable ∧ b.network.Extends b'.network ∧
      Serving b'.network (stops ++ pending) b'.store := by
  induction pending generalizing b stops with
  | nil =>
    cases h
    exact ⟨hnet, .refl _, by rwa [List.append_nil]⟩
  | cons p rest ih =>
    unfold score at h
    dsimp only at h
    split at h
    · cases h
    next net links events hlinks =>
    -- The network may grow on the way; links of the old one keep their numbers.
    obtain ⟨hset, hrest⟩ := List.forall_mem_cons.1 hset
    obtain ⟨hreach, hext, hne, hlt⟩ := servingLinks_ok hnet hset hlinks
    have hnext := (hstore.extends hext).insert (serves_candidates (p := p) hne hlt)
    obtain ⟨hreach', hext', hserving⟩ := ih hreach hnext
      (fun q hq ix hix => Nat.lt_of_lt_of_le (hrest q hq ix hix) hext.links_size) h
    refine ⟨hreach', hext.trans hext', ?_⟩
    rwa [List.append_assoc] at hserving

end Build

/-! ## Manual entries -/

namespace ManualLinks

theorem fitFor_of_mem_candidates (hnet : net.Consistent) {m : ManualLinks}
    {c : LinkCandidate α} (hc : c ∈ m.candidates net p) : c.FitFor net p.occurrence.key := by
  obtain ⟨ix, hix, rfl⟩ := List.mem_map.1 hc
  obtain ⟨id, -, hid⟩ := List.mem_filterMap.1 hix
  exact LinkCandidate.fitFor_ofOccurrence (hnet.of_linkIx? hid).1 _ _

theorem applyTo_serving (hnet : net.Consistent) (hstore : Serving net stops store)
    (hp : p ∈ stops) (m : ManualLinks) : Serving net stops (m.applyTo net store p) := by
  unfold applyTo
  dsimp only
  split
  · exact hstore
  · next hreplace =>
    -- The key is there, so there is a list to merge into.
    obtain ⟨c, hc, hserves⟩ := hstore.exists_list hp
    rw [hc, Option.getD_some]
    refine hstore.insert_of_mem hp <|
      hserves.merge (fun a ha => fitFor_of_mem_candidates hnet ha) ?_
    intro hrep hnil
    exact hreplace (by rw [hrep, hnil]; rfl)

theorem apply_serving (hnet : net.Consistent) (hstore : Serving net stops store)
    (m : ManualLinks) : Serving net stops (m.apply net stops store) := by
  refine List.foldlRecOn _ _ hstore ?_
  intro store hstore p hp
  exact applyTo_serving hnet hstore (List.mem_filter.1 hp).1 m

end ManualLinks

namespace Settings

variable {s : Settings α}

/-- **Manual entries leave every stop served, whatever they resolve to.** -/
theorem applyManual_serving (hnet : net.Consistent) (hstore : Serving net stops store) :
    Serving net stops (s.applyManual net stops store) := by
  refine List.foldlRecOn _ _ hstore ?_
  intro store hstore m _
  exact m.apply_serving hnet hstore

/-! ## The whole run -/

/-- What a build gives, by the phase at which it ends. -/
inductive Run (s : Settings α) (net : Network α) (schedule : Schedule α)
    (diagnostics : Diagnostics) (workers : s.Refinement net schedule.routes) :
    BuildResult α → Prop where
  | invalid {e : SettingsError α} : s.validate = .error e →
    Run s net schedule diagnostics workers ⟨.error (.settings e), net, diagnostics⟩
  | unrefined {e : CandidateError} : s.validate = .ok () → workers.outcome = .error e →
    Run s net schedule diagnostics workers
      ⟨.error (.candidate e), net, diagnostics.recordAll workers.events⟩
  | unscored {pending : List (PendingStop α)} {b : Build α} {e : NetworkError α} :
    s.validate = .ok () → s.refineRoutes net schedule.routes = .ok pending →
      (⟨net, diagnostics.recordAll workers.events, ∅⟩ : Build α).score pending = (b, some e) →
        Run s net schedule diagnostics workers ⟨.error (.network e), b.network, b.diagnostics⟩
  | done {pending : List (PendingStop α)} {b : Build α} :
    s.validate = .ok () → s.refineRoutes net schedule.routes = .ok pending →
      (⟨net, diagnostics.recordAll workers.events, ∅⟩ : Build α).score pending = (b, none) →
        Run s net schedule diagnostics workers
          ⟨.ok (s.applyManual b.network pending b.store), b.network,
            b.diagnostics.recordAll (s.manualEvents b.network pending)⟩

/-- **Every build goes one of these ways**, whatever the workers do. -/
theorem run_build (s : Settings α) (net : Network α) (schedule : Schedule α)
    (diagnostics : Diagnostics) (workers : s.Refinement net schedule.routes) :
    s.Run net schedule diagnostics workers (s.build net schedule diagnostics workers) := by
  unfold build
  cases hvalid : s.validate with
  | error e => exact .invalid hvalid
  | ok _ =>
    dsimp only
    cases hrefine : workers.outcome with
    | error e => exact .unrefined hvalid hrefine
    | ok pending =>
      -- What the workers have put together is what the routes give in order.
      obtain ⟨-, hrefine⟩ := workers.refined pending hrefine
      dsimp only
      split
      · next b e hscore => exact .unscored hvalid hrefine hscore
      · next b hscore => exact .done hvalid hrefine hscore

/-- **A build whose stops can be refined and scored comes to its end**, whatever the workers do, and
gives what the manual entries make of the scored lists. -/
theorem build_done {schedule : Schedule α} {diagnostics : Diagnostics}
    {pending : List (PendingStop α)} {b : Build α} (hvalid : s.validate = .ok ())
    (hrefine : s.refineRoutes net schedule.routes = .ok pending)
    (hscore : (⟨net, diagnostics, ∅⟩ : Build α).score pending = (b, none))
    (diagnostics' : Diagnostics) (workers : s.Refinement net schedule.routes) :
    (s.build net schedule diagnostics' workers).outcome =
        .ok (s.applyManual b.network pending b.store) ∧
      (s.build net schedule diagnostics' workers).network = b.network := by
  obtain ⟨after, hscore'⟩ := Build.score_diagnostics ⟨net, diagnostics, ∅⟩
    (diagnostics'.recordAll workers.events) pending
  rw [hscore] at hscore'
  unfold build
  rw [hvalid]
  dsimp only
  rw [workers.outcome_eq hrefine]
  dsimp only
  rw [hscore']
  exact ⟨rfl, rfl⟩

section Done

variable {schedule : Schedule α} {diagnostics : Diagnostics}
  {workers : s.Refinement net schedule.routes}

/-- A build that gives a store went through refinement, scoring and the manual entries. -/
theorem build_ok (h : (s.build net schedule diagnostics workers).outcome = .ok store) :
    ∃ pending b, s.refineRoutes net schedule.routes = .ok pending ∧
      (⟨net, diagnostics.recordAll workers.events, ∅⟩ : Build α).score pending = (b, none) ∧
      (s.build net schedule diagnostics workers).network = b.network ∧
      store = s.applyManual b.network pending b.store := by
  have hrun := s.run_build net schedule diagnostics workers
  generalize s.build net schedule diagnostics workers = result at h hrun ⊢
  cases hrun with
  | invalid _ => cases h
  | unrefined _ _ => cases h
  | unscored _ _ _ => cases h
  | done _ hrefine hscore =>
    exact ⟨_, _, hrefine, hscore, rfl, (Except.ok.inj h).symm⟩

/-- A build that gives a store has checked its settings. -/
theorem validate_of_build (h : (s.build net schedule diagnostics workers).outcome = .ok store) :
    s.validate = .ok () := by
  have hrun := s.run_build net schedule diagnostics workers
  generalize s.build net schedule diagnostics workers = result at h hrun
  cases hrun with
  | invalid _ => cases h
  | unrefined hvalid _ => exact hvalid
  | unscored hvalid _ _ => exact hvalid
  | done hvalid _ _ => exact hvalid

/-- **A build that succeeds gives the same in whatever way the workers go.** -/
theorem build_same_of_ok (h : (s.build net schedule diagnostics workers).outcome = .ok store)
    (diagnostics' : Diagnostics) (workers' : s.Refinement net schedule.routes) :
    (s.build net schedule diagnostics' workers').outcome = .ok store ∧
      (s.build net schedule diagnostics' workers').network =
        (s.build net schedule diagnostics workers).network := by
  obtain ⟨pending, b, hrefine, hscore, hgrown, rfl⟩ := build_ok h
  rw [hgrown]
  exact build_done (validate_of_build h) hrefine hscore diagnostics' workers'

end Done

/-- **Every occurrence of the schedule ends with candidates that can serve it**, and there is nothing
else in the store. -/
theorem build_serves (hnet : net.Reachable) {schedule : Schedule α} {diagnostics : Diagnostics}
    {workers : s.Refinement net schedule.routes}
    (h : (s.build net schedule diagnostics workers).outcome = .ok store) :
    (∀ key, key ∈ store ↔ ∃ o ∈ schedule.occurrences, o.key = key) ∧
      ∀ (key : String) (c : LinkCandidates α), store[key]? = some c →
        c.Serves (s.build net schedule diagnostics workers).network key ∧
          ∃ best, c.best? = some best ∧ ∀ a ∈ c.toList, (best.compare a).isLE = true := by
  obtain ⟨pending, b, hrefine, hscore, hgrown, rfl⟩ := build_ok h
  have hnone : Serving net [] (∅ : CandidateStore α) := ⟨by simp, by simp⟩
  obtain ⟨hreach, -, hserving⟩ :=
    Build.score_serving hnet hnone (lt_of_mem_refineRoutes hnet.consistent hrefine) hscore
  have hmanual := applyManual_serving (s := s) hreach.consistent hserving
  rw [List.nil_append] at hmanual
  refine ⟨fun key => ?_, fun key c hc => ?_⟩
  · have hoccurrences : pending.map PendingStop.occurrence = schedule.occurrences :=
      map_occurrence_refineRoutes hrefine
    rw [hmanual.keys, ← hoccurrences]
    simp
  · rw [hgrown]
    exact ⟨hmanual.serves key c hc, (hmanual.serves key c hc).best⟩

/-! ## A build along the triangle -/

/-- A line with one route along the triangle. -/
def triangleSchedule : Schedule Double :=
  .ofLines [{ id := "line", routes := [triangleRoute] }]

/-- Settings that give the second stop the link that leads back, and a link that does not exist. -/
def triangleManual : Settings Double :=
  triangleSettings.withManual { facility := "t", links := ["ba", "none"], replace := true }

/-- What a build along the triangle gives. -/
def triangleBuild : BuildResult Double := triangleManual.build .triangle triangleSchedule .empty

/-- Both stops can be served, the second from what was given by hand. -/
theorem build_serves_triangle :
    Network.triangle.Reachable ∧ ∃ store, triangleBuild.outcome = .ok store ∧
      (store.toList.map fun e => (e.1, e.2.links)) =
        [("line.out.s.-.0", [3, 2]), ("line.out.t.60.-", [3])] ∧
      (∀ key, key ∈ store ↔ ∃ o ∈ triangleSchedule.occurrences, o.key = key) ∧
      ∀ (key : String) (c : LinkCandidates Double), store[key]? = some c →
        c.Serves triangleBuild.network key ∧
          ∃ best, c.best? = some best ∧ ∀ a ∈ c.toList, (best.compare a).isLE = true := by
  have hlists : (triangleBuild.outcome.toOption.map fun store =>
      store.toList.map fun e => (e.1, e.2.links)) =
        some [("line.out.s.-.0", [3, 2]), ("line.out.t.60.-", [3])] := by decide +kernel
  cases hbuild : triangleBuild.outcome with
  | error e =>
    rw [hbuild] at hlists
    cases hlists
  | ok store =>
    rw [hbuild] at hlists
    exact ⟨.ofParts Network.ofParts_triangle, store, rfl, Option.some.inj hlists,
      build_serves (.ofParts Network.ofParts_triangle) hbuild⟩

end Settings

end TransitMatching
