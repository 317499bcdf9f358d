import TransitMatching.Proofs.Candidate.Manual

/-!
# Links listed more than once

The links found for a stop are in different chains, so a computed list holds each once.
Merging drops what was listed of a manual link before, but takes the link over as often as
the entry lists it. So a list holds a link twice exactly if an entry says so, and no later
one changes it.

* `ManualLinks.Settles`: an entry that settles how often a link is listed under a key.
* `Settings.count_editAll`: the last such entry has it listed as often as it says.
* `Settings.build_nodup_iff`: **a list holds no link twice exactly if no entry that settles a
  link for good lists it twice.**
-/

namespace TransitMatching

variable {α : Type} [Scalar α]

namespace LinkCandidates

variable {c : LinkCandidates α}

theorem links_ofList (candidates : List (LinkCandidate α)) :
    (ofList candidates).links.Perm (candidates.map LinkCandidate.link) :=
  (sortBy_perm _ _).map _

/-- Links that are merged in stand beside those of the list that are not among them, unless they
replace it. -/
theorem links_merge (c : LinkCandidates α) (manual : List (LinkCandidate α)) (replace : Bool) :
    (c.merge manual replace).links.Perm
      (if replace then manual.map LinkCandidate.link
      else (c.links.filter fun ix => ix ∉ manual.map LinkCandidate.link) ++
        manual.map LinkCandidate.link) := by
  unfold merge
  cases replace with
  | true => exact links_ofList manual
  | false =>
    refine (links_ofList _).trans (.of_eq ?_)
    rw [if_neg Bool.false_ne_true, List.map_append, links, List.filter_map]
    refine congrArg (List.map LinkCandidate.link · ++ manual.map LinkCandidate.link)
      (List.filter_congr fun e _ => ?_)
    rw [Function.comp_apply, List.contains_eq_mem, decide_not]

/-- In a list that stands in order and holds no link twice, each candidate comes before the next. -/
theorem InOrder.ascending (hc : c.InOrder) (hnodup : c.links.Nodup) :
    c.toList.Pairwise fun a b => a.compare b = .lt := by
  have hne : c.toList.Pairwise fun a b => a.link ≠ b.link := List.pairwise_map.1 hnodup
  refine hc.imp₂ (fun a b hle hlinks => ?_) hne
  cases hcompare : a.compare b with
  | lt => rfl
  | gt =>
    rw [hcompare] at hle
    cases hle
  | eq =>
    unfold LinkCandidate.compare at hcompare
    rw [Ordering.then_eq_eq, Ordering.then_eq_eq, Ordering.then_eq_eq] at hcompare
    exact absurd (Std.LawfulEqCmp.eq_of_compare hcompare.2.2.1) hlinks

end LinkCandidates

theorem PendingStop.Own.nodup {net : Network α} {p : PendingStop α} {c : LinkCandidates α}
    (h : p.Own net c) (hset : p.set.links.Nodup) : c.links.Nodup := by
  by_cases hloop : p.settings.artificialOnly = true ∨ p.set.links = []
  · obtain ⟨ix, -, -, hlinks⟩ := h.loop hloop
    rw [hlinks]
    exact List.nodup_singleton ix
  · obtain ⟨hsearched, hne⟩ := not_or.1 hloop
    exact (h.found (Bool.eq_false_iff.2 hsearched) hne).nodup_iff.2 hset

/-! ## Entry by entry -/

variable [DecimalText α]

namespace ManualLinks

variable {m : ManualLinks} {net : Network α} {c : LinkCandidates α} {ix : LinkIx}
  {pending : List (PendingStop α)} {key : String}

/-- An entry that is merged into a list settles how often a link is listed if it lists the link, or
replaces the list by others. -/
def Decides (m : ManualLinks) (net : Network α) (ix : LinkIx) : Prop :=
  ix ∈ m.resolve net ∨ m.replace = true ∧ m.resolve net ≠ []

/-- The links of a list that an entry was merged into. -/
theorem links_mergeInto (p : PendingStop α) :
    (m.mergeInto net c p).links.Perm
      (if m.replace then if m.resolve net = [] then c.links else m.resolve net
      else (c.links.filter fun ix => ix ∉ m.resolve net) ++ m.resolve net) := by
  have hempty : (m.candidates net p).isEmpty = true ↔ m.resolve net = [] := by
    rw [List.isEmpty_iff, ← map_link_candidates m net p, List.map_eq_nil_iff]
  have hmerge := c.links_merge (m.candidates net p) m.replace
  rw [map_link_candidates] at hmerge
  unfold mergeInto
  cases hreplace : m.replace with
  | true =>
    rw [Bool.true_and, if_pos rfl]
    rw [hreplace, if_pos rfl] at hmerge
    by_cases hnil : m.resolve net = []
    · rw [if_pos (hempty.2 hnil), if_pos hnil]
    · rw [if_neg (mt hempty.1 hnil), if_neg hnil]
      exact hmerge
  | false =>
    rw [hreplace] at hmerge
    exact hmerge

/-- After an entry, a link is listed as often as the entry says if it settles the link, and as often
as before if it does not. -/
theorem count_mergeInto (p : PendingStop α) :
    (m.Decides net ix → (m.mergeInto net c p).links.count ix = (m.resolve net).count ix) ∧
      (¬ m.Decides net ix → (m.mergeInto net c p).links.count ix = c.links.count ix) := by
  rw [(links_mergeInto p).count_eq]
  unfold Decides
  cases m.replace with
  | true =>
    by_cases hnil : m.resolve net = []
    · simp [hnil]
    · simp [hnil]
  | false =>
    rw [if_neg Bool.false_ne_true, List.count_append]
    by_cases hmem : ix ∈ m.resolve net
    · have hnone : ix ∉ c.links.filter fun ix => ix ∉ m.resolve net := by simp [hmem]
      rw [List.count_eq_zero.2 hnone]
      simp [hmem]
    · rw [List.count_eq_zero.2 hmem, List.count_filter (by simpa using hmem)]
      simp [hmem]

/-- An entry is meant for one of some visits with a key. -/
def Reaches (m : ManualLinks) (visits : List (Mode × Occurrence α)) (key : String) : Prop :=
  ∃ mode o, (mode, o) ∈ visits ∧ o.key = key ∧ m.MeantFor o.facility.id mode

/-- An entry settles how often a link is listed under a key. -/
def Settles (m : ManualLinks) (visits : List (Mode × Occurrence α)) (net : Network α) (key : String)
    (ix : LinkIx) : Prop :=
  m.Reaches visits key ∧ m.Decides net ix

variable {s : Settings α} {start : Network α} {visits : List (Mode × Occurrence α)}

theorem servedAt_eq_nil_iff
    (hvisits : List.Forall₂ (fun v p => s.Refines start v.1 v.2 p) visits pending) :
    m.servedAt pending key = [] ↔ ¬ m.Reaches visits key := by
  unfold servedAt served Reaches
  rw [List.filter_eq_nil_iff]
  constructor
  · rintro hnone ⟨mode, o, hvisit, hkey, hmeant⟩
    obtain ⟨p, hp, hrefines⟩ := exists_of_forall₂_right hvisits.flip hvisit
    obtain ⟨rfl, -, rfl, -⟩ := Settings.Refines.frame hrefines
    exact hnone p (List.mem_filter.2 ⟨hp, appliesTo_iff.2 hmeant⟩) (decide_eq_true hkey)
  · intro hnone p hp hkey
    obtain ⟨hp, happlies⟩ := List.mem_filter.1 hp
    obtain ⟨⟨mode, o⟩, hvisit, hrefines⟩ := exists_of_forall₂_right hvisits hp
    obtain ⟨rfl, -, rfl, -⟩ := hrefines.frame
    exact hnone ⟨_, _, hvisit, of_decide_eq_true hkey, appliesTo_iff.1 happlies⟩

/-- Merged into a list for several stops, an entry settles a link just as well. -/
theorem count_foldl_mergeInto {stops : List (PendingStop α)} (hne : stops ≠ [])
    (h : m.Decides net ix) :
    (stops.foldl (m.mergeInto net) c).links.count ix = (m.resolve net).count ix := by
  -- The last stop is enough.
  rw [← List.dropLast_append_getLast hne, List.foldl_concat]
  exact (count_mergeInto _).1 h

theorem count_foldl_mergeInto_of_not_decides (stops : List (PendingStop α))
    (h : ¬ m.Decides net ix) :
    (stops.foldl (m.mergeInto net) c).links.count ix = c.links.count ix := by
  refine List.foldlRecOn stops (m.mergeInto net)
    (motive := fun d => d.links.count ix = c.links.count ix) rfl ?_
  intro d hd p _
  rw [(count_mergeInto p).2 h, hd]

/-- An entry that does not settle a link under a key leaves it as often as it was. -/
theorem count_foldl_servedAt_of_not_settles
    (hvisits : List.Forall₂ (fun v p => s.Refines start v.1 v.2 p) visits pending)
    (h : ¬ m.Settles visits net key ix) :
    ((m.servedAt pending key).foldl (m.mergeInto net) c).links.count ix = c.links.count ix := by
  by_cases hreaches : m.Reaches visits key
  · exact count_foldl_mergeInto_of_not_decides _ fun hdecides => h ⟨hreaches, hdecides⟩
  · rw [(servedAt_eq_nil_iff hvisits).2 hreaches, List.foldl_nil]

end ManualLinks

namespace Settings

variable {s : Settings α} {net start : Network α} {visits : List (Mode × Occurrence α)}
  {pending : List (PendingStop α)} {key : String} {ix : LinkIx} {c : LinkCandidates α}

/-- Of some entries, the last one that settles a link under a key. -/
def SettledBy (entries : List ManualLinks) (visits : List (Mode × Occurrence α)) (net : Network α)
    (key : String) (ix : LinkIx) (m : ManualLinks) : Prop :=
  ∃ front back, entries = front ++ m :: back ∧ m.Settles visits net key ix ∧
    ∀ later ∈ back, ¬ later.Settles visits net key ix

/-- Entries that do not settle a link leave it as often as it was. -/
theorem count_editAll_of_not_settles
    (hvisits : List.Forall₂ (fun v p => s.Refines start v.1 v.2 p) visits pending)
    {entries : List ManualLinks} (h : ∀ m ∈ entries, ¬ m.Settles visits net key ix) :
    (ManualLinks.editAll entries net pending key c).links.count ix = c.links.count ix := by
  unfold ManualLinks.editAll
  refine List.foldlRecOn entries _
    (motive := fun d : LinkCandidates α => d.links.count ix = c.links.count ix) rfl ?_
  intro d hd m hm
  rw [ManualLinks.count_foldl_servedAt_of_not_settles hvisits (h m hm), hd]

/-- **The last entry that settles a link has it listed as often as it says.** -/
theorem count_editAll
    (hvisits : List.Forall₂ (fun v p => s.Refines start v.1 v.2 p) visits pending)
    {entries : List ManualLinks} {m : ManualLinks} (h : SettledBy entries visits net key ix m) :
    (ManualLinks.editAll entries net pending key c).links.count ix = (m.resolve net).count ix := by
  obtain ⟨front, back, rfl, ⟨hreaches, hdecides⟩, hback⟩ := h
  have hlater := count_editAll_of_not_settles (c := (m.servedAt pending key).foldl
    (m.mergeInto net) (ManualLinks.editAll front net pending key c)) hvisits hback
  unfold ManualLinks.editAll at hlater ⊢
  rw [List.foldl_append, List.foldl_cons, hlater]
  exact ManualLinks.count_foldl_mergeInto
    (mt (ManualLinks.servedAt_eq_nil_iff hvisits).1 (not_not_intro hreaches)) hdecides

omit [DecimalText α] in
/-- The links left for a stop differ, as they are in different chains. -/
theorem nodup_of_mem_refineRoutes {schedule : Schedule α} (hstart : start.Consistent)
    (hrefine : s.refineRoutes start schedule.routes = .ok pending) {p : PendingStop α}
    (hp : p ∈ pending) : p.set.links.Nodup := by
  refine (pairwise_refineRoutes hstart hrefine p hp).imp fun {a b} hne heq => hne ?_
  rw [heq]
  exact hstart.mem_chain_self b

variable {schedule : Schedule α} {diagnostics : Diagnostics} {before store : CandidateStore α}
  {result : BuildResult α}

/-- Before the manual entries no list holds a link twice. -/
theorem Staged.nodup_before (hstart : start.Reachable)
    (h : s.Staged start schedule diagnostics pending before store result)
    (hc : before[key]? = some c) : c.links.Nodup := by
  obtain ⟨p, hp, rfl⟩ := h.serving.exists_stop hc
  obtain ⟨pending', hlisted⟩ := build_listed hstart (h.outcome (.inOrder _ _ _))
  obtain rfl : pending' = pending := Except.ok.inj (hlisted.refined.symm.trans h.refined)
  obtain ⟨front, back, hsplit⟩ := List.append_of_mem hp
  obtain ⟨q, c', hlast⟩ := hlisted.lastListed rfl hsplit
  obtain rfl : c' = c := Option.some.inj (hlast.list.symm.trans hc)
  obtain ⟨between, after, hq, -, -⟩ := hlast.last
  have hmem : q ∈ pending' := by simp [hsplit, hq]
  exact hlast.own.nodup (nodup_of_mem_refineRoutes hstart.consistent h.refined hmem)

/-- After them every list is one of those, changed by the entries. -/
theorem Staged.exists_editAll
    (h : s.Staged start schedule diagnostics pending before store result)
    (hc : store[key]? = some c) :
    c.InOrder ∧ ∃ old, before[key]? = some old ∧
      c = ManualLinks.editAll s.manual result.network pending key old := by
  have hserving := applyManual_serving (s := s) h.reachable.consistent h.serving
  rw [← h.store] at hserving
  obtain ⟨p, hp, rfl⟩ := hserving.exists_stop hc
  obtain ⟨old, hold, -⟩ := h.serving.exists_list hp
  refine ⟨(hserving.serves _ c hc).sorted, old, hold, ?_⟩
  rw [h.store, getElem?_applyManual hold] at hc
  exact (Option.some.inj hc).symm

/-- **A list holds no link twice exactly if no entry that settles a link for good lists it twice**, so
if entries list no id twice. It is strictly ascending then. -/
theorem build_nodup_iff (hnet : net.Reachable) {workers : s.Refinement net schedule.routes}
    (hbuild : (s.build net schedule diagnostics workers).outcome = .ok store)
    (hc : store[key]? = some c) :
    (c.links.Nodup ↔ ∀ ix m,
        SettledBy s.manual schedule.visits (s.build net schedule diagnostics workers).network key ix
          m → (m.resolve (s.build net schedule diagnostics workers).network).count ix ≤ 1) ∧
      (c.links.Nodup → c.toList.Pairwise fun a b => a.compare b = .lt) ∧
      ((∀ m ∈ s.manual, m.links.Nodup) → c.links.Nodup) := by
  obtain ⟨pending, before, hstaged⟩ := build_staged hnet hbuild
  generalize s.build net schedule diagnostics workers = result at hstaged ⊢
  have hvisits := refineRoutes_visits hstaged.refined
  obtain ⟨horder, old, hold, rfl⟩ := hstaged.exists_editAll hc
  have hiff : (ManualLinks.editAll s.manual result.network pending key old).links.Nodup ↔
      ∀ ix m, SettledBy s.manual schedule.visits result.network key ix m →
        (m.resolve result.network).count ix ≤ 1 := by
    rw [List.nodup_iff_count_le_one]
    refine forall_congr' fun ix => ⟨fun hle m hm => ?_, fun hle => ?_⟩
    · rwa [count_editAll hvisits hm] at hle
    · by_cases hsettles : ∃ m ∈ s.manual, m.Settles schedule.visits result.network key ix
      · obtain ⟨front, m, back, hlast⟩ := exists_last hsettles
        have hm : SettledBy s.manual schedule.visits result.network key ix m := ⟨front, back, hlast⟩
        rw [count_editAll hvisits hm]
        exact hle m hm
      · rw [count_editAll_of_not_settles hvisits fun m hm h => hsettles ⟨m, hm, h⟩]
        exact List.nodup_iff_count_le_one.1 (hstaged.nodup_before hnet hold) ix
  refine ⟨hiff, horder.ascending, fun hlinks => hiff.2 ?_⟩
  rintro ix m ⟨front, back, hsplit, -⟩
  -- Different ids belong to different links.
  have hmem : m ∈ s.manual := by simp [hsplit]
  have hgrown := hstaged.reachable.consistent
  have hresolve : (m.resolve result.network).Nodup := by
    refine (hlinks m hmem).filterMap fun id id' ix hid hid' => ?_
    rw [← (hgrown.of_linkIx? hid).2, ← (hgrown.of_linkIx? hid').2]
  exact List.nodup_iff_count_le_one.1 hresolve ix

/-! ## An entry that lists a link twice -/

/-- Settings that give the second stop the link that leads back, and name it twice. -/
def repeatedManual : Settings Double :=
  triangleSettings.withManual { facility := "t", links := ["ba", "ba"] }

/-- What a build along the triangle gives with these settings. -/
def repeatedBuild : BuildResult Double := repeatedManual.build .triangle triangleSchedule .empty

/-- The list of the second stop, and whether it is strictly ascending. -/
theorem links_repeatedBuild :
    (repeatedBuild.outcome.toOption.bind fun store =>
      store["line.out.t.60.-"]?.map fun c =>
        (c.links, decide (c.toList.Pairwise fun a b => a.compare b = .lt))) =
          some ([0, 3, 3], false) := by
  decide +kernel

/-- The list of the second stop holds the link twice, since the only entry lists it twice. -/
theorem build_nodup_iff_repeated :
    Network.triangle.Reachable ∧ ∃ store c, repeatedBuild.outcome = .ok store ∧
      store["line.out.t.60.-"]? = some c ∧
      (c.links.Nodup ↔ ∀ ix m, SettledBy repeatedManual.manual triangleSchedule.visits
        repeatedBuild.network "line.out.t.60.-" ix m →
          (m.resolve repeatedBuild.network).count ix ≤ 1) ∧
      (c.links.Nodup → c.toList.Pairwise fun a b => a.compare b = .lt) ∧
      ((∀ m ∈ repeatedManual.manual, m.links.Nodup) → c.links.Nodup) := by
  have hreach : Network.triangle.Reachable := .ofParts Network.ofParts_triangle
  obtain ⟨store, hstore, hlinks⟩ := Option.bind_eq_some_iff.1 links_repeatedBuild
  obtain ⟨c, hc, -⟩ := Option.map_eq_some_iff.1 hlinks
  have hbuild := toOption_eq_some_iff.1 hstore
  exact ⟨hreach, store, c, hbuild, hc, build_nodup_iff hreach hbuild hc⟩

/-- A build can list a link twice, and then the list is not strictly ascending. -/
theorem not_nodup_repeated :
    ∃ store c, repeatedBuild.outcome = .ok store ∧ store["line.out.t.60.-"]? = some c ∧
      c.links = [0, 3, 3] ∧ ¬ c.links.Nodup ∧
      ¬ c.toList.Pairwise fun a b => a.compare b = .lt := by
  obtain ⟨store, hstore, hlinks⟩ := Option.bind_eq_some_iff.1 links_repeatedBuild
  obtain ⟨c, hc, heq⟩ := Option.map_eq_some_iff.1 hlinks
  obtain ⟨hlinks, hascending⟩ := Prod.mk.inj heq
  refine ⟨store, c, toOption_eq_some_iff.1 hstore, hc, hlinks, ?_, of_decide_eq_false hascending⟩
  rw [hlinks]
  decide

end Settings

end TransitMatching
