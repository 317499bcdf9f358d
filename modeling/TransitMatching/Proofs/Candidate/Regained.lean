import TransitMatching.Proofs.Candidate.Refinement
import TransitMatching.Proofs.Network.LoopGrowth

/-!
# Sets found again in a grown network

A search in a network that has grown may find new links beside the old ones. Separation
and reduction decide link by link and chain by chain, and the new links are in chains of
their own. So whatever becomes of the new links, of the old ones the same are left.

* `RawSet.Regains`: a set that holds the entries of another one, and perhaps others of
  new links.
* `Regains.separate`, `Regains.reduce`: what either step preserves.
* `Settings.refineRoutes_regains`: **where the sets found for all stops are regained, so
  are those left by refinement.**
-/

namespace TransitMatching

variable {α : Type}

namespace RawSet

variable {n : Nat} {s s' previous previous' current current' : RawSet α}

/-- A set of which the entries of links below a number are those of another one. It may hold
entries of other links beside, and if it holds no others, it may be pre-assigned or not. -/
structure Regains (n : Nat) (s s' : RawSet α) : Prop where
  entries : (s'.entries.filter fun e => e.link < n) = s.entries
  preassigned : s.entries ≠ [] → s'.preassigned = s.preassigned

instance [DecidableEq α] : Decidable (Regains n s s') :=
  decidable_of_iff ((s'.entries.filter fun e => e.link < n) = s.entries ∧
      (s.entries ≠ [] → s'.preassigned = s.preassigned))
    ⟨fun h => ⟨h.1, h.2⟩, fun h => ⟨h.entries, h.preassigned⟩⟩

namespace Regains

theorem mem_entries (h : Regains n s s') {e : RawCandidate α} :
    e ∈ s.entries ↔ e ∈ s'.entries ∧ e.link < n := by
  rw [← h.entries, List.mem_filter, decide_eq_true_eq]

theorem links (h : Regains n s s') : s'.links.filter (· < n) = s.links := by
  unfold RawSet.links
  rw [← h.entries, List.filter_map]
  rfl

theorem get? (h : Regains n s s') {ix : LinkIx} (hix : ix < n) : s'.get? ix = s.get? ix := by
  unfold RawSet.get?
  rw [← h.entries, List.find?_filter]
  refine List.find?_congr fun e _ => ?_
  by_cases heq : e.link = ix
  · simp [heq, hix]
  · simp [heq]

/-- Sets that lose the same old links still differ by new links only. -/
theorem without (h : Regains n s s') {links links' : List LinkIx}
    (hlinks : ∀ ix < n, ix ∈ links' ↔ ix ∈ links) :
    Regains n (s.without links) (s'.without links') where
  entries := by
    unfold RawSet.without
    dsimp only
    rw [← h.entries, List.filter_filter, List.filter_filter]
    refine List.filter_congr fun e _ => ?_
    by_cases hlt : e.link < n
    · simp [hlt, hlinks e.link hlt]
    · simp [hlt]
  preassigned hne := h.preassigned fun hnil => hne (by simp [RawSet.without, hnil])

/-! ## Separation -/

/-- Two sets share the old links that they shared before, in entries that are as they were. -/
theorem exists_shared_iff (hprev : Regains n previous previous') (hcur : Regains n current current')
    {ix : LinkIx} (hix : ix < n) (Q : Bool → Bool → RawCandidate α × RawCandidate α → Bool) :
    (∃ before ∈ previous'.entries, before.link = ix ∧ ∃ after, current'.get? ix = some after ∧
        Q previous'.preassigned current'.preassigned (before, after) = true) ↔
      ∃ before ∈ previous.entries, before.link = ix ∧ ∃ after, current.get? ix = some after ∧
        Q previous.preassigned current.preassigned (before, after) = true := by
  -- Sets that share an old link are pre-assigned as they were.
  have hflags : ∀ before ∈ previous.entries, ∀ after, current.get? ix = some after →
      previous'.preassigned = previous.preassigned ∧
        current'.preassigned = current.preassigned := fun before hbefore after hafter =>
    ⟨hprev.preassigned (List.ne_nil_of_mem hbefore),
      hcur.preassigned (List.ne_nil_of_mem (get?_eq_some hafter).1)⟩
  rw [hcur.get? hix]
  constructor
  · rintro ⟨before, hbefore, rfl, after, hafter, hQ⟩
    have hbefore := hprev.mem_entries.2 ⟨hbefore, hix⟩
    obtain ⟨hp, hc⟩ := hflags before hbefore after hafter
    rw [hp, hc] at hQ
    exact ⟨before, hbefore, rfl, after, hafter, hQ⟩
  · rintro ⟨before, hbefore, rfl, after, hafter, hQ⟩
    obtain ⟨hp, hc⟩ := hflags before hbefore after hafter
    rw [← hp, ← hc] at hQ
    exact ⟨before, (hprev.mem_entries.1 hbefore).1, rfl, after, hafter, hQ⟩

variable [Scalar α] {net net' : Network α}

/-- **Separation treats old links as before**, whatever new ones two sets hold. -/
theorem separate (hprev : Regains n previous previous') (hcur : Regains n current current')
    (hdrawn : Drawn net previous ∧ Drawn net current)
    (hdrawn' : Drawn net' previous' ∧ Drawn net' current') :
    Regains n (RawSet.separate net previous current).previous
        (RawSet.separate net' previous' current').previous ∧
      Regains n (RawSet.separate net previous current).current
        (RawSet.separate net' previous' current').current := by
  rw [separate_eq hdrawn.1 hdrawn.2, separate_eq hdrawn'.1 hdrawn'.2]
  refine ⟨hprev.without fun ix hix => ?_, hcur.without fun ix hix => ?_⟩
  · rw [mem_previousLosses, mem_previousLosses]
    exact hprev.exists_shared_iff hcur hix fun p c e =>
      !p && (c || decide (e.2.distance < e.1.distance))
  · rw [mem_currentLosses, mem_currentLosses]
    exact hprev.exists_shared_iff hcur hix fun p c e =>
      !c && (p || !decide (e.2.distance < e.1.distance))

/-! ## Reduction -/

/-- The link kept of the chain of an old link is the one that was kept before. -/
theorem keeper (h : Regains net.links.size s s') (hgrows : net.GrowsByLoops net')
    (hnet : net.Consistent) (hnet' : net'.Consistent) {ix : LinkIx} (hix : ix < net.links.size) :
    s'.keeper net' ix = s.keeper net ix := by
  have hmembers : s'.chainMembers net' ix = s.chainMembers net ix := by
    unfold chainMembers
    dsimp only
    rw [← h.entries, List.filter_filter]
    refine List.filter_congr fun e _ => ?_
    -- No new link is in the chain of an old one.
    rw [Bool.eq_iff_iff, Bool.and_eq_true, decide_eq_true_eq, decide_eq_true_eq, decide_eq_true_eq,
      hgrows.mem_chain_iff hnet hnet' hix]
    exact ⟨fun hchain => ⟨hchain, hnet.lt_of_sameChain hix (hnet.mem_chain_iff.1 hchain)⟩, And.left⟩
  unfold RawSet.keeper
  rw [hmembers]

/-- **Reduction keeps the old links that it kept before.** -/
theorem reduce (h : Regains net.links.size s s') (hgrows : net.GrowsByLoops net')
    (hnet : net.Consistent) (hnet' : net'.Consistent) :
    Regains net.links.size (s.reduce net) (s'.reduce net') := by
  have hnarrows := narrows_reduce net s
  have hnarrows' := narrows_reduce net' s'
  by_cases hnil : s.entries = []
  · -- There are new links only, so none of the old ones is left.
    have hnone : (s'.entries.filter fun e => e.link < net.links.size) = [] := h.entries.trans hnil
    have hleft : (s.reduce net).entries = [] :=
      List.sublist_nil.1 (hnil ▸ hnarrows.sublist)
    refine ⟨?_, fun hne => absurd hleft hne⟩
    rw [hleft]
    exact List.sublist_nil.1 (hnone ▸ hnarrows'.sublist.filter _)
  · have hpre := h.preassigned hnil
    refine ⟨?_, fun _ => hnarrows'.preassigned.trans (hpre.trans hnarrows.preassigned.symm)⟩
    cases hs : s.preassigned with
    | true =>
      rw [hnarrows.kept hs, hnarrows'.kept (hpre.trans hs)]
      exact h.entries
    | false =>
      rw [entries_reduce hnet hs, entries_reduce hnet' (hpre.trans hs), ← h.entries,
        List.filter_filter, List.filter_filter]
      refine List.filter_congr fun e _ => ?_
      by_cases hlt : e.link < net.links.size
      · rw [h.keeper hgrows hnet hnet' hlt, Bool.and_comm]
      · simp [hlt]

end Regains

variable [Scalar α] {net net' : Network α}

/-- What separation leaves for the stops of a route is regained with what was found for them. -/
theorem regains_separateFrom {rest rest' : List (RawSet α)}
    (hrest : List.Forall₂ (Regains n) rest rest') {out out' : List (RawSet α)}
    (hprev : Regains n previous previous') (hdrawn : ∀ s ∈ previous :: rest, Drawn net s)
    (hdrawn' : ∀ s ∈ previous' :: rest', Drawn net' s)
    (hout : separateFrom net previous rest = .ok out)
    (hout' : separateFrom net' previous' rest' = .ok out') :
    List.Forall₂ (Regains n) out out' := by
  induction hrest generalizing previous previous' out out' with
  | nil =>
    cases hout
    cases hout'
    exact .cons hprev .nil
  | @cons current current' rest rest' hcur hrest ih =>
    obtain ⟨hp, hc⟩ := List.forall_mem_cons.1 hdrawn
    obtain ⟨hc, htail⟩ := List.forall_mem_cons.1 hc
    obtain ⟨hp', hc'⟩ := List.forall_mem_cons.1 hdrawn'
    obtain ⟨hc', htail'⟩ := List.forall_mem_cons.1 hc'
    obtain ⟨hmismatch, hsep⟩ := separated_separate hp hc
    obtain ⟨hmismatch', hsep'⟩ := separated_separate hp' hc'
    obtain ⟨hprevious, hcurrent⟩ := hprev.separate hcur ⟨hp, hc⟩ ⟨hp', hc'⟩
    unfold separateFrom at hout hout'
    simp only [hmismatch] at hout
    simp only [hmismatch'] at hout'
    obtain ⟨tail, htail, rfl⟩ := map_eq_ok_iff.1 hout
    obtain ⟨tail', htail', rfl⟩ := map_eq_ok_iff.1 hout'
    refine .cons hprevious (ih hcurrent ?_ ?_ ‹_› ‹_›)
    · exact List.forall_mem_cons.2 ⟨hc.narrows hsep.current_narrows, ‹_›⟩
    · exact List.forall_mem_cons.2 ⟨hc'.narrows hsep'.current_narrows, ‹_›⟩

theorem regains_separateRun {raw raw' out out' : List (RawSet α)}
    (hraw : List.Forall₂ (Regains n) raw raw') (hdrawn : ∀ s ∈ raw, Drawn net s)
    (hdrawn' : ∀ s ∈ raw', Drawn net' s) (hout : separateRun net raw = .ok out)
    (hout' : separateRun net' raw' = .ok out') : List.Forall₂ (Regains n) out out' := by
  cases hraw with
  | nil =>
    cases hout
    cases hout'
    exact .nil
  | cons hprev hrest => exact regains_separateFrom hrest hprev hdrawn hdrawn' hout hout'

end RawSet

/-! ## Refinement -/

variable [Scalar α]

/-- A stop that was refined again: only its links may differ, and only by new ones. -/
structure PendingStop.Regains (n : Nat) (p p' : PendingStop α) : Prop where
  frame : p' = p.withSet p'.set
  set : p.set.Regains n p'.set

theorem PendingStop.Regains.same {n : Nat} {p p' : PendingStop α} (h : p.Regains n p') :
    p'.occurrence = p.occurrence ∧ p'.position = p.position ∧ p'.mode = p.mode ∧
      p'.settings = p.settings := by
  rw [h.frame]
  exact ⟨rfl, rfl, rfl, rfl⟩

namespace Settings

variable {s : Settings α} {net net' : Network α}

/-- The links found for a stop in a network are found again in another one. -/
def FindsAgain (s : Settings α) (net net' : Network α) (mode : Mode) (o : Occurrence α) : Prop :=
  ∀ position ∈ o.position,
    (s.rawSet net (s.modeOrDefault mode) o.facility position).Regains net.links.size
      (s.rawSet net' (s.modeOrDefault mode) o.facility position)

instance [DecidableEq α] {mode : Mode} {o : Occurrence α} :
    Decidable (s.FindsAgain net net' mode o) :=
  inferInstanceAs (Decidable (∀ position ∈ o.position, RawSet.Regains _ _ _))

theorem exists_pend_regains {mode : Mode} {os : List (Occurrence α)} {raw : List (PendingStop α)}
    (hraw : List.Forall₂ (fun o p => s.pend net mode o = .ok p) os raw)
    (hfound : ∀ o ∈ os, s.FindsAgain net net' mode o) :
    ∃ raw', List.Forall₂ (fun o p => s.pend net' mode o = .ok p) os raw' ∧
      List.Forall₂ (PendingStop.Regains net.links.size) raw raw' := by
  induction hraw with
  | nil => exact ⟨[], .nil, .nil⟩
  | @cons o _ _ _ hp _ ih =>
    obtain ⟨ho, hos⟩ := List.forall_mem_cons.1 hfound
    obtain ⟨raw', hraw', hregains⟩ := ih hos
    obtain ⟨position, hposition, rfl⟩ := pend_eq_ok_iff.1 hp
    exact ⟨s.pendingAt net' mode o position :: raw',
      .cons (pend_eq_ok_iff.2 ⟨position, hposition, rfl⟩) hraw',
      .cons ⟨rfl, ho position hposition⟩ hregains⟩

theorem regains_zipWith (hgrows : net.GrowsByLoops net') (hnet : net.Consistent)
    (hnet' : net'.Consistent) {raw raw' : List (PendingStop α)} {out out' : List (RawSet α)}
    (hraw : List.Forall₂ (PendingStop.Regains net.links.size) raw raw')
    (hout : List.Forall₂ (RawSet.Regains net.links.size) out out') :
    List.Forall₂ (PendingStop.Regains net.links.size)
      (raw.zipWith (fun p set => p.withSet (set.reduce net)) out)
      (raw'.zipWith (fun p set => p.withSet (set.reduce net')) out') := by
  induction hraw generalizing out out' with
  | nil => exact .nil
  | cons hp _ ih =>
    cases hout with
    | nil => exact .nil
    | cons hset hsets =>
      refine .cons ⟨?_, hset.reduce hgrows hnet hnet'⟩ (ih hsets)
      rw [hp.frame]
      rfl

/-- A route can be refined again. -/
theorem refineRoute_regains (hgrows : net.GrowsByLoops net') (hnet : net.Consistent)
    (hnet' : net'.Consistent) {line : String} {route : Route α} {pending : List (PendingStop α)}
    (hfound : ∀ o ∈ route.occurrences line, s.FindsAgain net net' route.mode o)
    (h : s.refineRoute net line route = .ok pending) :
    ∃ pending', s.refineRoute net' line route = .ok pending' ∧
      List.Forall₂ (PendingStop.Regains net.links.size) pending pending' := by
  obtain ⟨raw, hraw, h⟩ := bind_eq_ok_iff.1 h
  obtain ⟨out, hout, rfl⟩ := map_eq_ok_iff.1 h
  obtain ⟨raw', hraw', hregains⟩ := exists_pend_regains (mapM_eq_ok_iff.1 hraw) hfound
  have hraw' := mapM_eq_ok_iff.2 hraw'
  have hdrawn := forall_mem_pend hraw fun _ _ => rawSet_drawn
  have hdrawn' := forall_mem_pend hraw' fun _ _ => rawSet_drawn
  obtain ⟨out', hout', -⟩ := RawSet.separateRun_separated _ hdrawn'
  have hsets : List.Forall₂ (RawSet.Regains net.links.size) (raw.map PendingStop.set)
      (raw'.map PendingStop.set) :=
    List.forall₂_map_left_iff.2 <| List.forall₂_map_right_iff.2 <| hregains.imp fun _ _ h => h.set
  refine ⟨_, ?_, regains_zipWith hgrows hnet hnet' hregains
    (RawSet.regains_separateRun hsets hdrawn hdrawn' hout hout')⟩
  unfold refineRoute
  rw [hraw']
  exact map_eq_ok_iff.2 ⟨out', hout', rfl⟩

/-- **All routes can be refined again, and of the old links the same are left for every stop.** -/
theorem refineRoutes_regains (hgrows : net.GrowsByLoops net') (hnet : net.Consistent)
    (hnet' : net'.Consistent) {routes : List (Line α × Route α)} {pending : List (PendingStop α)}
    (hfound : ∀ line route, (line, route) ∈ routes → ∀ o ∈ route.occurrences line.id,
      s.FindsAgain net net' route.mode o)
    (h : s.refineRoutes net routes = .ok pending) :
    ∃ pending', s.refineRoutes net' routes = .ok pending' ∧
      List.Forall₂ (PendingStop.Regains net.links.size) pending pending' := by
  obtain ⟨parts, hparts, rfl⟩ := refineRoutes_eq_ok_iff.1 h
  have hagain : ∃ parts', List.Forall₂ (fun e part => s.refineRoute net' e.1.id e.2 = .ok part)
      routes parts' ∧
        List.Forall₂ (List.Forall₂ (PendingStop.Regains net.links.size)) parts parts' := by
    clear h
    induction hparts with
    | nil => exact ⟨[], .nil, .nil⟩
    | @cons e _ _ _ hpart _ ih =>
      obtain ⟨parts', hparts', hregains⟩ := ih fun line route hmem =>
        hfound line route (List.mem_cons_of_mem _ hmem)
      obtain ⟨part', hpart', hregain⟩ := refineRoute_regains hgrows hnet hnet'
        (hfound e.1 e.2 List.mem_cons_self) hpart
      exact ⟨part' :: parts', .cons hpart' hparts', .cons hregain hregains⟩
  obtain ⟨parts', hparts', hregains⟩ := hagain
  exact ⟨parts'.flatten, refineRoutes_eq_ok_iff.2 ⟨parts', hparts', rfl⟩, List.rel_flatten hregains⟩

end Settings

end TransitMatching
