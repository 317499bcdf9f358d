import TransitMatching.Proofs.Candidate.Visits

/-!
# Manual links, stop by stop

A build takes the manual entries one after the other, and merges each into the lists of all
stops that it is meant for. The list of one stop goes through the entries in the same order,
whatever the other stops are: an entry changes it only if it is meant for the stop.

* `ManualLinks.mergeInto`: what an entry makes of the list of a stop that it is meant for.
* `Settings.getElem?_applyManual`: what all entries make of the list under a key.
* `ManualLinks.Overrides`, `ManualLinks.OverriddenBy`: a list before and after an entry, and
  before and after several.
* `Settings.build_overridden`: **the list of every occurrence is the computed one, changed by the
  entries in the order of the settings.**
-/

namespace TransitMatching

variable {α : Type} [Scalar α]

/-! ## Key by key -/

namespace ManualLinks

variable [DecimalText α] {net : Network α} {pending : List (PendingStop α)}
  {store : CandidateStore α} {m : ManualLinks} {key : String} {c : LinkCandidates α}

theorem map_link_candidates (m : ManualLinks) (net : Network α) (p : PendingStop α) :
    (m.candidates net p).map LinkCandidate.link = m.resolve net := by
  unfold candidates
  rw [List.map_map]
  exact List.map_id _

/-- What an entry makes of the list of a stop that it is meant for. -/
def mergeInto (m : ManualLinks) (net : Network α) (c : LinkCandidates α) (p : PendingStop α) :
    LinkCandidates α :=
  if m.replace && (m.candidates net p).isEmpty then c
  else c.merge (m.candidates net p) m.replace

/-- The stops with a key that an entry is meant for. -/
def servedAt (m : ManualLinks) (pending : List (PendingStop α)) (key : String) :
    List (PendingStop α) :=
  (m.served pending).filter fun p => p.occurrence.key = key

/-- What some entries make of the list under a key, one after the other. -/
def editAll (entries : List ManualLinks) (net : Network α) (pending : List (PendingStop α))
    (key : String) (c : LinkCandidates α) : LinkCandidates α :=
  entries.foldl (fun c m => (m.servedAt pending key).foldl (m.mergeInto net) c) c

/-- An entry changes the list under the key of the stop, and no other. -/
theorem getElem?_applyTo (p : PendingStop α) (hc : store[key]? = some c) :
    (m.applyTo net store p)[key]? =
      some (if p.occurrence.key = key then m.mergeInto net c p else c) := by
  unfold applyTo mergeInto
  dsimp only
  split
  · rw [hc, ite_self]
  · rw [Std.TreeMap.getElem?_insert]
    by_cases hkey : p.occurrence.key = key
    · rw [if_pos hkey, if_pos (Std.LawfulEqCmp.compare_eq_iff_eq.2 hkey), hkey, hc]
      rfl
    · rw [if_neg hkey, if_neg (fun heq => hkey (Std.LawfulEqCmp.eq_of_compare heq)), hc]

/-- The list under a key is changed for each stop with the key that the entry is meant for. -/
theorem getElem?_apply (hc : store[key]? = some c) :
    (m.apply net pending store)[key]? =
      some ((m.servedAt pending key).foldl (m.mergeInto net) c) := by
  unfold apply servedAt
  induction m.served pending generalizing store c with
  | nil => exact hc
  | cons p rest ih =>
    rw [List.foldl_cons, ih (getElem?_applyTo p hc), List.filter_cons]
    by_cases hkey : p.occurrence.key = key
    · rw [if_pos hkey, if_pos (decide_eq_true hkey), List.foldl_cons]
    · rw [if_neg hkey, if_neg (by simpa using hkey)]

end ManualLinks

namespace Settings

variable [DecimalText α] {s : Settings α} {net : Network α} {pending : List (PendingStop α)}
  {store : CandidateStore α} {key : String} {c : LinkCandidates α}

/-- **The list under a key goes through the entries in their order**, and through each once for each
stop with the key that it is meant for. -/
theorem getElem?_applyManual (hc : store[key]? = some c) :
    (s.applyManual net pending store)[key]? =
      some (ManualLinks.editAll s.manual net pending key c) := by
  unfold applyManual ManualLinks.editAll
  induction s.manual generalizing store c with
  | nil => exact hc
  | cons m rest ih => exact ih (ManualLinks.getElem?_apply hc)

end Settings

/-! ## Stop by stop -/

namespace LinkCandidates

variable {c : LinkCandidates α}

/-- The candidates stand in order. -/
def InOrder (c : LinkCandidates α) : Prop :=
  c.toList.Pairwise fun a b => (a.compare b).isLE = true

/-- Adding nothing leaves a list that stands in order. -/
theorem InOrder.merge_nil (hc : c.InOrder) : c.merge [] false = c := by
  unfold merge ofList
  rw [if_neg Bool.false_ne_true, List.append_nil, List.map_nil]
  have hall : c.toList.filter (fun e => !([] : List LinkIx).contains e.link) = c.toList :=
    List.filter_eq_self.2 fun _ _ => rfl
  rw [hall, sortBy_of_sorted hc]

/-- Merging gives a list in order. -/
theorem inOrder_merge (c : LinkCandidates α) (manual : List (LinkCandidate α)) (replace : Bool) :
    (c.merge manual replace).InOrder := by
  unfold merge
  split
  · exact sortBy_sorted _
  · exact sortBy_sorted _

end LinkCandidates

namespace ManualLinks

variable {m : ManualLinks} {net : Network α}

/-- An entry is meant for a facility under the modes that it lists, or under all if it lists none. -/
def MeantFor (m : ManualLinks) (facility : String) (mode : Mode) : Prop :=
  m.facility = facility ∧ (m.modes.isEmpty = true ∨ mode ∈ m.modes)

instance (m : ManualLinks) (facility : String) (mode : Mode) :
    Decidable (m.MeantFor facility mode) :=
  inferInstanceAs (Decidable (_ ∧ _))

theorem appliesTo_iff {facility : String} {mode : Mode} :
    m.appliesTo facility mode = true ↔ m.MeantFor facility mode := by
  unfold appliesTo MeantFor
  rw [Bool.and_eq_true, decide_eq_true_iff, Bool.or_eq_true, Std.TreeSet.contains_iff_mem]

variable [DecimalText α]

/-- The links of an entry that the network holds as candidates for an occurrence at a position. They
all score one. -/
def byHand (m : ManualLinks) (net : Network α) (o : Occurrence α) (p : Point α) :
    List (LinkCandidate α) :=
  (m.resolve net).map fun ix => (LinkCandidate.ofOccurrence net ix o p).withPriority 1

/-- The list of an occurrence before and after an entry. -/
structure Overrides (net : Network α) (m : ManualLinks) (mode : Mode) (o : Occurrence α)
    (p : Point α) (before after : LinkCandidates α) : Prop where
  notMeant : ¬ m.MeantFor o.facility.id mode → after = before
  unresolved : (∀ id ∈ m.links, net.linkIx? id = none) → after = before
  replaced : m.MeantFor o.facility.id mode → m.replace = true →
    (∃ id ∈ m.links, net.linkIx? id ≠ none) → after.toList.Perm (m.byHand net o p)
  /-- Candidates of other links stay as they are. -/
  extended : m.MeantFor o.facility.id mode → m.replace = false →
    after.toList.Perm
      ((before.toList.filter fun a => a.link ∉ m.resolve net) ++ m.byHand net o p)

/-- The list of an occurrence before and after some entries, one after the other. -/
inductive OverriddenBy (net : Network α) (mode : Mode) (o : Occurrence α) (p : Point α) :
    List ManualLinks → LinkCandidates α → LinkCandidates α → Prop
  | nil {c : LinkCandidates α} : OverriddenBy net mode o p [] c c
  | cons {m : ManualLinks} {rest : List ManualLinks} {before between after : LinkCandidates α} :
    m.Overrides net mode o p before between → OverriddenBy net mode o p rest between after →
      OverriddenBy net mode o p (m :: rest) before after

variable {p : PendingStop α} {c : LinkCandidates α} {pending : List (PendingStop α)}

/-- What an entry makes of the list of a stop. -/
def edit (m : ManualLinks) (net : Network α) (p : PendingStop α) (c : LinkCandidates α) :
    LinkCandidates α :=
  if m.appliesTo p.occurrence.facility.id p.mode then m.mergeInto net c p else c

/-- Where all keys differ, no other stop has the key of a stop. -/
theorem filter_key_of_nodup (hkeys : (pending.map fun p => p.occurrence.key).Nodup)
    (hp : p ∈ pending) :
    (pending.filter fun q => q.occurrence.key = p.occurrence.key) = [p] := by
  obtain ⟨front, back, rfl⟩ := List.append_of_mem hp
  rw [List.map_append, List.map_cons, List.nodup_middle, List.nodup_cons,
    ← List.map_append] at hkeys
  have hother : ∀ q ∈ front ++ back, ¬ decide (q.occurrence.key = p.occurrence.key) = true := by
    intro q hq heq
    exact hkeys.1 (List.mem_map.2 ⟨q, hq, of_decide_eq_true heq⟩)
  have hfront := List.filter_eq_nil_iff.2 fun q hq => hother q (List.mem_append_left back hq)
  have hback := List.filter_eq_nil_iff.2 fun q hq => hother q (List.mem_append_right front hq)
  rw [List.filter_append, List.filter_cons, hfront, hback, if_pos (decide_eq_true rfl)]
  rfl

/-- Where all keys differ, an entry that is meant for a stop is merged into its list once. -/
theorem foldl_servedAt (hkeys : (pending.map fun p => p.occurrence.key).Nodup) (hp : p ∈ pending) :
    (m.servedAt pending p.occurrence.key).foldl (m.mergeInto net) c = m.edit net p c := by
  have hserved : m.servedAt pending p.occurrence.key =
      [p].filter fun q => m.appliesTo q.occurrence.facility.id q.mode := by
    unfold servedAt served
    rw [← filter_key_of_nodup hkeys hp, List.filter_filter, List.filter_filter]
    exact List.filter_congr fun q _ => Bool.and_comm _ _
  rw [hserved, List.filter_singleton, edit]
  cases m.appliesTo p.occurrence.facility.id p.mode with
  | false => rfl
  | true => rfl

theorem inOrder_edit (m : ManualLinks) (net : Network α) (p : PendingStop α) (hc : c.InOrder) :
    (m.edit net p c).InOrder := by
  unfold edit mergeInto
  split
  · split
    · exact hc
    · exact c.inOrder_merge _ _
  · exact hc

/-- **What an entry makes of a list that stands in order.** -/
theorem overrides_edit (m : ManualLinks) (net : Network α) (p : PendingStop α) (hc : c.InOrder) :
    m.Overrides net p.mode p.occurrence p.position c (m.edit net p c) := by
  have hhand : m.candidates net p = m.byHand net p.occurrence p.position := rfl
  have hmeant : m.MeantFor p.occurrence.facility.id p.mode →
      m.edit net p c = m.mergeInto net c p := fun h => if_pos (appliesTo_iff.2 h)
  have hother : ¬ m.MeantFor p.occurrence.facility.id p.mode → m.edit net p c = c := fun h =>
    if_neg (mt appliesTo_iff.1 h)
  refine
    { notMeant := hother
      unresolved := ?unresolved
      replaced := ?replaced
      extended := ?extended }
  case unresolved =>
    intro hnone
    have hnil : m.resolve net = [] := List.filterMap_eq_nil_iff.2 hnone
    have hempty : m.candidates net p = [] := by rw [candidates, hnil, List.map_nil]
    by_cases h : m.MeantFor p.occurrence.facility.id p.mode
    · -- Nothing is left out and nothing is added, and the list was in order before.
      rw [hmeant h, mergeInto, hempty]
      cases m.replace with
      | true => rfl
      | false => exact hc.merge_nil
    · exact hother h
  case replaced =>
    intro h hreplace hsome
    have hne : m.candidates net p ≠ [] := by
      intro hnil
      obtain ⟨id, hid, hix⟩ := hsome
      exact hix (List.filterMap_eq_nil_iff.1 (List.map_eq_nil_iff.1 hnil) id hid)
    rw [hmeant h, mergeInto, hreplace, Bool.true_and, if_neg (by simpa using hne), ← hhand]
    exact sortBy_perm _ _
  case extended =>
    intro h hreplace
    rw [hmeant h, mergeInto, hreplace, Bool.false_and, if_neg Bool.false_ne_true,
      LinkCandidates.merge, if_neg Bool.false_ne_true, map_link_candidates, hhand]
    refine (sortBy_perm _ _).trans (.of_eq ?_)
    simp

/-- Lists that stand in order, before and after some entries. -/
theorem overriddenBy_foldl (entries : List ManualLinks) (net : Network α) (p : PendingStop α)
    (hc : c.InOrder) :
    OverriddenBy net p.mode p.occurrence p.position entries c
        (entries.foldl (fun c m => m.edit net p c) c) ∧
      (entries.foldl (fun c m => m.edit net p c) c).InOrder := by
  induction entries generalizing c with
  | nil => exact ⟨.nil, hc⟩
  | cons m rest ih =>
    obtain ⟨hrest, horder⟩ := ih (m.inOrder_edit net p hc)
    exact ⟨.cons (m.overrides_edit net p hc) hrest, horder⟩

end ManualLinks

namespace Settings

variable [DecimalText α] {s : Settings α} {net : Network α} {pending : List (PendingStop α)}
  {store : CandidateStore α} {p : PendingStop α} {c : LinkCandidates α}

/-- Where all keys differ, the list of a stop goes through each entry once. -/
theorem getElem?_applyManual_of_nodup (hkeys : (pending.map fun p => p.occurrence.key).Nodup)
    (hp : p ∈ pending) (hc : store[p.occurrence.key]? = some c) :
    (s.applyManual net pending store)[p.occurrence.key]? =
      some (s.manual.foldl (fun c m => m.edit net p c) c) := by
  rw [getElem?_applyManual hc, ManualLinks.editAll]
  congr 2
  funext c m
  exact ManualLinks.foldl_servedAt hkeys hp

end Settings

/-! ## What is counted -/

namespace ManualLinks

variable {m : ManualLinks} {net : Network α}

/-- The number of links of an entry that the network does not hold. -/
def unknown (m : ManualLinks) (net : Network α) : Nat :=
  m.links.countP fun id => (net.linkIx? id).isNone

/-- The number of links of an entry that are further from an occurrence than the settings of a mode
allow. It is zero if the entry is not meant for the occurrence. -/
def tooFar (m : ManualLinks) (s : Settings α) (net : Network α) (mode : Mode)
    (o : Occurrence α) : Nat :=
  if m.MeantFor o.facility.id mode then
    (m.resolve net).countP fun ix =>
      o.position.any fun p => decide ((s.modeOrDefault mode).maxDistance < net.linkDistance ix p)
  else 0

variable [DecimalText α]

omit [Scalar α] in
/-- Each link that does not exist counts as skipped. -/
theorem count_resolutionEvents (m : ManualLinks) (net : Network α) :
    (m.resolutionEvents net).count (.counted .overridesSkipped) = m.unknown net ∧
      (m.resolutionEvents net).count (.counted .overridesOverDistance) = 0 := by
  unfold resolutionEvents unknown
  induction m.links with
  | nil => exact ⟨rfl, rfl⟩
  | cons id rest ih =>
    obtain ⟨hskipped, hfar⟩ := ih
    rw [List.flatMap_cons, List.count_append, List.count_append, hskipped, hfar, List.countP_cons]
    cases net.linkIx? id with
    | some ix => exact ⟨by simp, rfl⟩
    | none => exact ⟨by simp [ManualWarning.event, Nat.add_comm], rfl⟩

/-- At a stop, each link that is too far away counts. -/
theorem count_stopEvents (m : ManualLinks) (net : Network α) (p : PendingStop α) :
    (m.stopEvents net p).count (.counted .overridesSkipped) = 0 ∧
      (m.stopEvents net p).count (.counted .overridesOverDistance) =
        (m.resolve net).countP fun ix =>
          decide (p.settings.maxDistance < net.linkDistance ix p.position) := by
  unfold stopEvents candidates
  dsimp only
  rw [List.count_append, List.count_append, List.flatMap_map]
  have hnone : ∀ counter, List.count (Event.counted counter)
      (if (m.replace && ((m.resolve net).map fun ix =>
          LinkCandidate.ofOccurrence net ix p.occurrence p.position).isEmpty) = true then
        [(ManualWarning.nothingResolved m.facility : ManualWarning α).event] else []) = 0 := by
    intro counter
    split
    · rfl
    · rfl
  rw [hnone, hnone, Nat.add_zero, Nat.add_zero]
  induction m.resolve net with
  | nil => exact ⟨rfl, rfl⟩
  | cons ix rest ih =>
    obtain ⟨hskipped, hfar⟩ := ih
    rw [List.flatMap_cons, List.count_append, List.count_append, hskipped, hfar, List.countP_cons]
    have hdistance : (LinkCandidate.ofOccurrence net ix p.occurrence p.position).distance =
        net.linkDistance ix p.position := rfl
    rw [hdistance]
    by_cases h : p.settings.maxDistance < net.linkDistance ix p.position
    · simp [h, ManualWarning.event, Nat.add_comm]
    · simp [h]

/-- What an entry counts is a matter of its links, and of the stops that it is meant for. -/
theorem count_events {s : Settings α} {visits : List (Mode × Occurrence α)}
    {pending : List (PendingStop α)}
    (h : List.Forall₂ (fun v p => s.Refines net v.1 v.2 p) visits pending) (grown : Network α)
    (m : ManualLinks) :
    (m.events grown pending).count (.counted .overridesSkipped) = m.unknown grown ∧
      (m.events grown pending).count (.counted .overridesOverDistance) =
        (visits.map fun v => m.tooFar s grown v.1 v.2).sum := by
  obtain ⟨hskipped, hfar⟩ := m.count_resolutionEvents grown
  unfold events
  rw [List.count_append, List.count_append, hskipped, hfar, Nat.zero_add]
  induction h with
  | nil => exact ⟨rfl, rfl⟩
  | @cons v p visits pending hp _ ih =>
    obtain ⟨mode, o⟩ := v
    obtain ⟨rfl, hposition, rfl, hsettings⟩ := hp.frame
    obtain ⟨hrest, hrest'⟩ := ih
    obtain ⟨hstop, hstop'⟩ := m.count_stopEvents grown p
    unfold served at hrest hrest' ⊢
    rw [List.filter_cons, List.map_cons, List.sum_cons, ← hrest']
    by_cases hmeant : m.MeantFor p.occurrence.facility.id p.mode
    · rw [if_pos (appliesTo_iff.2 hmeant), List.flatMap_cons, List.count_append, List.count_append,
        hstop, hstop', hsettings, tooFar, if_pos hmeant, hposition]
      exact ⟨by omega, rfl⟩
    · rw [if_neg (mt appliesTo_iff.1 hmeant), tooFar, if_neg hmeant, Nat.zero_add]
      exact ⟨hrest, rfl⟩

end ManualLinks

namespace Build

omit [Scalar α] in
theorem count_loopEvents {net : Network α} {facility : String} {counter : Counter}
    (h : counter ≠ .loopLinks) : (loopEvents net facility).count (.counted counter) = 0 := by
  unfold loopEvents
  split
  · rfl
  · simp [h.symm]

variable [DecimalText α]

/-- Scoring counts loop links and empty searches, and nothing else. -/
theorem count_score {counter : Counter} (hloop : counter ≠ .loopLinks)
    (hempty : counter ≠ .emptySearches) (b : Build α) (pending : List (PendingStop α)) :
    (b.score pending).1.diagnostics.count counter = b.diagnostics.count counter := by
  induction pending generalizing b with
  | nil => rfl
  | cons p rest ih =>
    have hnone : (emptyEvents p).count (.counted counter) = 0 := by
      unfold emptyEvents
      split
      · simp [hempty.symm, SearchWarning.event]
      · rfl
    unfold score
    dsimp only
    split
    · rw [Diagnostics.count_recordAll, hnone, Nat.add_zero]
    · next net links events hserving =>
      have hevents : events.count (.counted counter) = 0 := by
        unfold servingLinks at hserving
        split at hserving
        · obtain ⟨_, -, heq⟩ := map_eq_ok_iff.1 hserving
          cases heq
          exact count_loopEvents hloop
        · cases hserving
          rfl
      rw [ih, Diagnostics.count_recordAll, Diagnostics.count_recordAll, hnone, hevents]
      rfl

end Build

/-! ## The whole run -/

namespace Settings

variable [DecimalText α] {s : Settings α} {net grown : Network α} {schedule : Schedule α}
  {diagnostics : Diagnostics} {workers : s.Refinement net schedule.routes}
  {pending : List (PendingStop α)} {store : CandidateStore α}

/-- The settings without their manual entries. -/
def withoutManual (s : Settings α) : Settings α := { s with manual := [] }

/-- What all entries count. -/
theorem count_overrides (hvisits : List.Forall₂ (fun v p => s.Refines net v.1 v.2 p)
    schedule.visits pending) (grown : Network α) :
    (s.manualEvents grown pending).count (.counted .overridesSkipped) =
        (s.manual.map fun m => m.unknown grown).sum ∧
      (s.manualEvents grown pending).count (.counted .overridesOverDistance) =
        (s.manual.map fun m => (schedule.visits.map fun v => m.tooFar s grown v.1 v.2).sum).sum := by
  unfold manualEvents
  rw [List.count_flatMap, List.count_flatMap]
  have hcount := ManualLinks.count_events hvisits grown
  exact ⟨congrArg List.sum (List.map_congr_left fun m _ => (hcount m).1),
    congrArg List.sum (List.map_congr_left fun m _ => (hcount m).2)⟩

/-- A build in two stages: the store that it would give without manual entries, and what these make
of it. -/
structure Staged (s : Settings α) (net : Network α) (schedule : Schedule α)
    (diagnostics : Diagnostics) (pending : List (PendingStop α)) (before after : CandidateStore α)
    (result : BuildResult α) : Prop where
  refined : s.refineRoutes net schedule.routes = .ok pending
  outcome : ∀ workers, (s.withoutManual.build net schedule diagnostics workers).outcome = .ok before
  network : ∀ workers,
    (s.withoutManual.build net schedule diagnostics workers).network = result.network
  reachable : result.network.Reachable
  serving : Serving result.network pending before
  store : after = s.applyManual result.network pending before
  counts : ∀ counter, counter ≠ .loopLinks → counter ≠ .emptySearches →
    result.diagnostics.count counter = diagnostics.count counter +
      (s.manualEvents result.network pending).count (.counted counter)

/-- Every build that gives a store is one in two stages. -/
theorem build_staged (hnet : net.Reachable)
    (hbuild : (s.build net schedule diagnostics workers).outcome = .ok store) :
    ∃ pending before, s.Staged net schedule diagnostics pending before store
      (s.build net schedule diagnostics workers) := by
  have hrun := s.run_build net schedule diagnostics workers
  generalize s.build net schedule diagnostics workers = result at hrun hbuild ⊢
  cases hrun with
  | invalid _ => cases hbuild
  | unrefined _ _ => cases hbuild
  | unscored _ _ _ => cases hbuild
  | @done pending b hvalid hrefine hscore =>
    obtain rfl := Except.ok.inj hbuild
    -- Without its entries the build goes the same way, as far as it goes.
    have hwithout := build_done (s := s.withoutManual) hvalid hrefine hscore diagnostics
    have hnone : Serving net [] (∅ : CandidateStore α) := ⟨by simp, by simp⟩
    obtain ⟨hreach, -, hserving⟩ :=
      Build.score_serving hnet hnone (lt_of_mem_refineRoutes hnet.consistent hrefine) hscore
    rw [List.nil_append] at hserving
    refine ⟨pending, b.store,
      { refined := hrefine
        outcome := fun workers => (hwithout workers).1
        network := fun workers => (hwithout workers).2
        reachable := hreach
        serving := hserving
        store := rfl
        counts := ?counts }⟩
    intro counter hloop hempty
    have hcount := Build.count_score hloop hempty
      ⟨net, diagnostics.recordAll workers.events, ∅⟩ pending
    rw [hscore, Diagnostics.count_recordAll, workers.count_events, Nat.add_zero] at hcount
    rw [Diagnostics.count_recordAll, hcount]

/-- What the manual entries of a build do: the store that it gives, and the one that it would give
without them. -/
structure Overridden (s : Settings α) (net : Network α) (schedule : Schedule α)
    (diagnostics : Diagnostics) (before after : CandidateStore α) (result : BuildResult α) :
    Prop where
  outcome : ∀ workers, (s.withoutManual.build net schedule diagnostics workers).outcome = .ok before
  network : ∀ workers,
    (s.withoutManual.build net schedule diagnostics workers).network = result.network
  /-- Links are looked up in the network that the build leaves, with its loop links. -/
  lists : ∀ mode o, (mode, o) ∈ schedule.visits → ∃ p c c', o.position = some p ∧
    before[o.key]? = some c ∧ after[o.key]? = some c' ∧
      ManualLinks.OverriddenBy result.network mode o p s.manual c c' ∧ c'.InOrder
  /-- An entry counts its unknown links once, whichever stops it is meant for. -/
  skipped : result.diagnostics.count .overridesSkipped =
    diagnostics.count .overridesSkipped + (s.manual.map fun m => m.unknown result.network).sum
  overDistance : result.diagnostics.count .overridesOverDistance =
    diagnostics.count .overridesOverDistance + (s.manual.map fun m =>
      (schedule.visits.map fun v => m.tooFar s result.network v.1 v.2).sum).sum

/-- **The list of every occurrence is the computed one, changed by the manual entries in their
order**, where all keys differ. -/
theorem build_overridden (hnet : net.Reachable)
    (hkeys : (schedule.occurrences.map Occurrence.key).Nodup)
    (hbuild : (s.build net schedule diagnostics workers).outcome = .ok store) :
    ∃ before, s.Overridden net schedule diagnostics before store
      (s.build net schedule diagnostics workers) := by
  obtain ⟨pending, before, hstaged⟩ := build_staged hnet hbuild
  generalize s.build net schedule diagnostics workers = result at hstaged ⊢
  have hvisits := refineRoutes_visits hstaged.refined
  have hoccurrences : pending.map PendingStop.occurrence = schedule.occurrences :=
    map_occurrence_refineRoutes hstaged.refined
  rw [← hoccurrences, List.map_map] at hkeys
  refine ⟨before,
    { outcome := hstaged.outcome
      network := hstaged.network
      lists := ?lists
      skipped := ?skipped
      overDistance := ?overDistance }⟩
  case lists =>
    intro mode o hvisit
    obtain ⟨p, hp, hrefines⟩ := exists_of_forall₂_right hvisits.flip hvisit
    obtain ⟨rfl, hposition, rfl, -⟩ := Refines.frame hrefines
    obtain ⟨c, hc, hserves⟩ := hstaged.serving.exists_list hp
    have horder : c.InOrder := hserves.sorted
    rw [hstaged.store]
    exact ⟨p.position, c, _, hposition, hc, getElem?_applyManual_of_nodup hkeys hp hc,
      ManualLinks.overriddenBy_foldl s.manual result.network p horder⟩
  case skipped =>
    rw [hstaged.counts _ (by decide) (by decide), (count_overrides hvisits result.network).1]
  case overDistance =>
    rw [hstaged.counts _ (by decide) (by decide), (count_overrides hvisits result.network).2]

/-! ## Entries that overlap -/

/-- Settings for buses that stay close, with entries of all kinds: some extend and some replace, one
is meant for no mode of the schedule, and one resolves to nothing. -/
def overlapping : Settings Double :=
  { triangleSettings.withMode "bus" { networkModes := .ofList ["car"], maxDistance := 10 } with
    manual :=
      [{ facility := "s", links := ["none", "bc", "ab"] },
        { facility := "s", modes := .ofList ["tram"], links := ["ca"], replace := true },
        { facility := "t", links := ["ba", "ba", "none"], replace := true },
        { facility := "t", links := ["none"], replace := true },
        { facility := "t", modes := .ofList ["bus"], links := ["ab"] }] }

/-- What a build along the triangle gives with these entries. -/
def overlappingBuild : BuildResult Double :=
  overlapping.build .triangle triangleSchedule .empty

/-- Both lists are overridden; of the links, three do not exist and one is too far away. -/
theorem build_overridden_overlapping :
    Network.triangle.Reachable ∧ (triangleSchedule.occurrences.map Occurrence.key).Nodup ∧
      ∃ store, overlappingBuild.outcome = .ok store ∧
        (store.toList.map fun e => (e.1, e.2.links)) =
          [("line.out.s.-.0", [3, 0, 1]), ("line.out.t.60.-", [0, 3, 3])] ∧
        overlappingBuild.diagnostics.count .overridesSkipped = 3 ∧
        overlappingBuild.diagnostics.count .overridesOverDistance = 1 ∧
        ∃ before, overlapping.Overridden .triangle triangleSchedule .empty before store
          overlappingBuild := by
  have hreach : Network.triangle.Reachable := .ofParts Network.ofParts_triangle
  have hkeys : (triangleSchedule.occurrences.map Occurrence.key).Nodup := by decide +kernel
  -- One evaluation of the build shows its lists and both counts.
  have hresult : (overlappingBuild.outcome.toOption.map fun store =>
      (store.toList.map fun e => (e.1, e.2.links),
        overlappingBuild.diagnostics.count .overridesSkipped,
        overlappingBuild.diagnostics.count .overridesOverDistance)) =
          some ([("line.out.s.-.0", [3, 0, 1]), ("line.out.t.60.-", [0, 3, 3])], 3, 1) := by
    decide +kernel
  obtain ⟨store, hstore, heq⟩ := Option.map_eq_some_iff.1 hresult
  simp only [Prod.mk.injEq] at heq
  obtain ⟨hlists, hskipped, hfar⟩ := heq
  have hbuild := toOption_eq_some_iff.1 hstore
  exact ⟨hreach, hkeys, store, hbuild, hlists, hskipped, hfar,
    build_overridden hreach hkeys hbuild⟩

end Settings

end TransitMatching
