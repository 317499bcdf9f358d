import TransitMatching.Proofs.Candidate.Separation
import TransitMatching.Proofs.Network.Chains

/-!
# Links that two sets share

Separation settles the shared links of two sets one after the other, changing both sets as
it goes, and stops at a link that was found from two different nodes. What it has settled
it finds no longer shared, so that starting over comes to the same point.

* `separate_resumed`: settling the first shared links beforehand changes nothing.
* `Failed`, `Settled`: the two outcomes, for sets of any entries.
* `separate_outcome`: **separation fails exactly if a shared link was found from two nodes**,
  names the first such link, and otherwise leaves each shared link in one set.
-/

namespace TransitMatching.RawSet

variable {α : Type} {previous current : RawSet α}

/-! ## What two sets share -/

theorem get?_eq_some_iff {s : RawSet α} (hnodup : s.links.Nodup) {ix : LinkIx}
    {e : RawCandidate α} : s.get? ix = some e ↔ e ∈ s.entries ∧ e.link = ix := by
  refine ⟨get?_eq_some, ?_⟩
  rintro ⟨he, rfl⟩
  obtain ⟨e', he'⟩ := get?_isSome_of_mem (mem_links.2 ⟨e, he, rfl⟩)
  obtain ⟨hmem, hlink⟩ := get?_eq_some he'
  rw [he', List.inj_on_of_nodup_map hnodup hmem he hlink]

theorem get?_without (s : RawSet α) (links : List LinkIx) (ix : LinkIx) :
    (s.without links).get? ix = if ix ∈ links then none else s.get? ix := by
  unfold get? without
  rw [List.find?_filter]
  split
  · next hix =>
    refine List.find?_eq_none.2 fun e _ => ?_
    rw [decide_eq_true_eq, decide_eq_true_eq, decide_eq_true_eq]
    rintro ⟨hnot, rfl⟩
    exact hnot hix
  · next hix =>
    congr 1
    funext e
    by_cases heq : e.link = ix <;> simp [heq, hix]

/-- Two sets without some links share what they shared, without these links. -/
theorem shared_without (previous current : RawSet α) (lost gone : List LinkIx) :
    shared (previous.without lost) (current.without gone) =
      (shared previous current).filter fun e => e.1.link ∉ lost ++ gone := by
  unfold shared
  rw [List.filter_filterMap]
  change (previous.entries.filter _).filterMap _ = _
  rw [List.filterMap_filter]
  refine List.filterMap_congr fun before _ => ?_
  rw [get?_without]
  by_cases hlost : before.link ∈ lost <;> by_cases hgone : before.link ∈ gone <;>
    cases current.get? before.link <;> simp [hlost, hgone, Option.filter]

/-- The entries of the first set that are shared, in their order. -/
theorem map_fst_shared (previous current : RawSet α) :
    (shared previous current).map Prod.fst =
      previous.entries.filter fun e => (current.get? e.link).isSome := by
  unfold shared
  rw [List.map_filterMap, ← List.filterMap_eq_filter]
  refine List.filterMap_congr fun before _ => ?_
  cases hget : current.get? before.link <;> simp [hget, Option.guard]

/-- No link is shared twice. -/
theorem nodup_shared (current : RawSet α) (hnodup : previous.links.Nodup) :
    ((shared previous current).map fun e => e.1.link).Nodup := by
  have hlinks : (shared previous current).map (fun e => e.1.link) =
      ((shared previous current).map Prod.fst).map RawCandidate.link := by
    rw [List.map_map]
    rfl
  rw [hlinks, map_fst_shared]
  exact (List.filter_sublist.map _).nodup hnodup

/-- Two entries of one link that was found from two nodes. -/
def Clash (before after : RawCandidate α) : Prop :=
  before.link = after.link ∧ before.source ≠ after.source

instance (before after : RawCandidate α) : Decidable (Clash before after) :=
  inferInstanceAs (Decidable (_ ∧ _))

/-- Shared entries agree about where their link starts, unless entries of the sets clash. -/
theorem forall_shared_iff (hcur : current.links.Nodup) :
    (∀ e ∈ shared previous current, e.1.source = e.2.source) ↔
      ∀ before ∈ previous.entries, ∀ after ∈ current.entries, ¬ Clash before after := by
  constructor
  · rintro h before hbefore after hafter ⟨hlink, hsource⟩
    have hget := (get?_eq_some_iff hcur).2 ⟨hafter, hlink.symm⟩
    exact hsource (h (before, after) (mem_shared.2 ⟨hbefore, hget⟩))
  · rintro h ⟨before, after⟩ he
    obtain ⟨hbefore, hget⟩ := mem_shared.1 he
    obtain ⟨hafter, hlink⟩ := get?_eq_some hget
    by_contra hsource
    exact h before hbefore after hafter ⟨hlink.symm, hsource⟩

variable [Scalar α] {net : Network α} {good rest : List (RawCandidate α × RawCandidate α)}

/-! ## Starting over -/

/-- Sets that are both pre-assigned lose nothing. -/
theorem losses_of_both (hprev : previous.preassigned = true) (hcur : current.preassigned = true)
    (l : List (RawCandidate α × RawCandidate α)) :
    previousLosses previous current l = [] ∧ currentLosses previous current l = [] := by
  have hleaves : ∀ e, leavesPrevious previous current e = false ∧
      leavesCurrent previous current e = false := by
    simp [leavesPrevious, leavesCurrent, hprev, hcur]
  constructor
  · refine List.map_eq_nil_iff.2 (List.filter_eq_nil_iff.2 fun e _ => ?_)
    rw [(hleaves e).1]
    exact Bool.false_ne_true
  · refine List.map_eq_nil_iff.2 (List.filter_eq_nil_iff.2 fun e _ => ?_)
    rw [(hleaves e).2]
    exact Bool.false_ne_true

/-- A link that was settled is lost by one of the sets, if not both are pre-assigned. -/
theorem mem_losses_of_mem (hpre : ¬ (previous.preassigned = true ∧ current.preassigned = true))
    (hshared : shared previous current = good ++ rest) {e : RawCandidate α × RawCandidate α}
    (he : e ∈ good) :
    e.1.link ∈ previousLosses previous current good ++ currentLosses previous current good := by
  have hmem : e ∈ shared previous current := by
    rw [hshared]
    exact List.mem_append_left _ he
  obtain ⟨-, hlink⟩ := get?_eq_some (mem_shared.1 hmem).2
  rw [List.mem_append]
  cases hleaves : leavesPrevious previous current e with
  | true => exact .inl (List.mem_map_of_mem (List.mem_filter.2 ⟨he, hleaves⟩))
  | false =>
    right
    rw [← hlink]
    refine List.mem_map_of_mem (List.mem_filter.2 ⟨he, ?_⟩)
    rw [leavesCurrent_eq e hpre, hleaves]
    rfl

/-- A link that was not settled is lost by neither set. -/
theorem not_mem_losses_of_mem (hprev : previous.links.Nodup)
    (hshared : shared previous current = good ++ rest) {e : RawCandidate α × RawCandidate α}
    (he : e ∈ rest) :
    e.1.link ∉ previousLosses previous current good ++ currentLosses previous current good := by
  have hnodup := nodup_shared current hprev
  rw [hshared, List.map_append, List.nodup_append] at hnodup
  have hnew : ∀ e' ∈ good, e'.1.link ≠ e.1.link := fun e' he' =>
    hnodup.2.2 _ (List.mem_map_of_mem he') _ (List.mem_map_of_mem he)
  rw [List.mem_append]
  rintro (hlost | hlost)
  · obtain ⟨e', he', heq⟩ := List.mem_map.1 hlost
    exact hnew e' (List.mem_of_mem_filter he') heq
  · obtain ⟨e', he', heq⟩ := List.mem_map.1 hlost
    have hgood := List.mem_of_mem_filter he'
    have hmem : e' ∈ shared previous current := by
      rw [hshared]
      exact List.mem_append_left _ hgood
    obtain ⟨-, hlink⟩ := get?_eq_some (mem_shared.1 hmem).2
    exact hnew e' hgood (hlink.symm.trans heq)

/-- **Settling the first shared links beforehand changes nothing**: they are not shared any more,
and all others still are. -/
theorem separate_resumed (net : Network α) (hprev : previous.links.Nodup)
    (hshared : shared previous current = good ++ rest)
    (hgood : ∀ e ∈ good, e.1.source = e.2.source) :
    separate net (previous.without (previousLosses previous current good))
        (current.without (currentLosses previous current good)) =
      separate net previous current := by
  by_cases hpre : previous.preassigned = true ∧ current.preassigned = true
  · obtain ⟨hlost, hgone⟩ := losses_of_both hpre.1 hpre.2 good
    rw [hlost, hgone, without_nil, without_nil]
  · unfold separate
    rw [shared_without, hshared, settleAll_append good rest previous current hgood,
      List.filter_append]
    have hgone : good.filter (fun e => e.1.link ∉ previousLosses previous current good ++
        currentLosses previous current good) = [] := by
      refine List.filter_eq_nil_iff.2 fun e he => ?_
      rw [decide_eq_true_eq, not_not]
      exact mem_losses_of_mem hpre hshared he
    have hstay : rest.filter (fun e => e.1.link ∉ previousLosses previous current good ++
        currentLosses previous current good) = rest :=
      List.filter_eq_self.2 fun e he => decide_eq_true (not_mem_losses_of_mem hprev hshared he)
    rw [hgone, hstay, List.nil_append]

/-! ## The two outcomes -/

/-- The first of two sets keeps a link that both have: against one that is not pre-assigned if it
is, and where neither is, unless the link is nearer in the second. -/
def KeptByPrevious (previous current : RawSet α) (before after : RawCandidate α) : Prop :=
  previous.preassigned = true ∨
    current.preassigned = false ∧ ¬ after.distance < before.distance

theorem keptByPrevious_iff (before after : RawCandidate α) :
    KeptByPrevious previous current before after ↔
      leavesPrevious previous current (before, after) = false := by
  unfold KeptByPrevious leavesPrevious
  cases previous.preassigned <;> cases current.preassigned <;> simp

/-- Separation that has failed at the first clash, in the order of the first set. -/
structure Failed (net : Network α) (previous current : RawSet α) (out : Separation α) : Prop where
  first : ∃ passed before more, previous.entries = passed ++ before :: more ∧
    (∀ e ∈ passed, ∀ e' ∈ current.entries, ¬ Clash e e') ∧
    ∃ after ∈ current.entries, Clash before after ∧
      out.mismatch = some (.separationMismatch (net.link before.link).id
        (net.node before.source).id (net.node after.source).id)
  /-- A second attempt fails alike, and leaves the sets as the first has left them. -/
  again : separate net out.previous out.current = out

/-- Separation that has come to its end. -/
structure Settled (net : Network α) (previous current : RawSet α) (out : Separation α) : Prop where
  mismatch : out.mismatch = none
  both : previous.preassigned = true → current.preassigned = true →
    out.previous = previous ∧ out.current = current
  kept : ¬ (previous.preassigned = true ∧ current.preassigned = true) →
    ∀ before ∈ previous.entries, ∀ after ∈ current.entries, before.link = after.link →
      KeptByPrevious previous current before after →
        before ∈ out.previous.entries ∧ after.link ∉ out.current.links
  yielded : ¬ (previous.preassigned = true ∧ current.preassigned = true) →
    ∀ before ∈ previous.entries, ∀ after ∈ current.entries, before.link = after.link →
      ¬ KeptByPrevious previous current before after →
        before.link ∉ out.previous.links ∧ after ∈ out.current.entries
  /-- What is left of a set is left in its order, and nothing is lost that is not shared. -/
  previous_narrows : previous.Narrows out.previous
  current_narrows : current.Narrows out.current
  previous_alone : ∀ e ∈ previous.entries, e.link ∉ current.links → e ∈ out.previous.entries
  current_alone : ∀ e ∈ current.entries, e.link ∉ previous.links → e ∈ out.current.entries
  again : separate net out.previous out.current = out

/-- A shared link is among the losses of the set that it leaves. -/
theorem mem_losses_iff (hprev : previous.links.Nodup) (hcur : current.links.Nodup)
    {before after : RawCandidate α} (hbefore : before ∈ previous.entries)
    (hafter : after ∈ current.entries) (hlink : before.link = after.link) :
    (before.link ∈ previousLosses previous current (shared previous current) ↔
        leavesPrevious previous current (before, after) = true) ∧
      (before.link ∈ currentLosses previous current (shared previous current) ↔
        leavesCurrent previous current (before, after) = true) := by
  have hget := (get?_eq_some_iff hcur).2 ⟨hafter, hlink.symm⟩
  have hunique {leaves : RawCandidate α × RawCandidate α → Bool} :
      (∃ e ∈ previous.entries, e.link = before.link ∧ ∃ e', current.get? before.link = some e' ∧
        leaves (e, e') = true) ↔ leaves (before, after) = true := by
    constructor
    · rintro ⟨e, he, heq, e', hget', hleaves⟩
      obtain rfl : e = before := List.inj_on_of_nodup_map hprev he hbefore heq
      obtain rfl : after = e' := Option.some.inj (hget.symm.trans hget')
      exact hleaves
    · exact fun hleaves => ⟨before, hbefore, rfl, after, hget, hleaves⟩
  rw [mem_previousLosses, mem_currentLosses]
  exact ⟨hunique, hunique⟩

/-- Without a clash, separation comes to its end. -/
theorem settled_separate (net : Network α) (hprev : previous.links.Nodup)
    (hcur : current.links.Nodup)
    (hagree : ∀ e ∈ shared previous current, e.1.source = e.2.source) :
    Settled net previous current (separate net previous current) := by
  have hout : separate net previous current = _ :=
    settleAll_eq (shared previous current) previous current hagree
  have hagain := separate_resumed net hprev (List.append_nil _).symm hagree
  rw [hout] at hagain ⊢
  have hstays {s : RawSet α} {links : List LinkIx} {e : RawCandidate α} (he : e ∈ s.entries)
      (hlink : e.link ∉ links) : e ∈ (s.without links).entries :=
    List.mem_filter.2 ⟨he, decide_eq_true hlink⟩
  refine
    { mismatch := rfl
      both := ?both
      kept := ?kept
      yielded := ?yielded
      previous_narrows := narrows_without fun hpre => ?_
      current_narrows := narrows_without fun hpre => ?_
      previous_alone := fun e he hnot => hstays he fun hlost => ?_
      current_alone := fun e he hnot => hstays he fun hlost => ?_
      again := hagain }
  case both =>
    intro hp hc
    obtain ⟨hlost, hgone⟩ := losses_of_both hp hc (shared previous current)
    rw [hlost, hgone]
    exact ⟨without_nil previous, without_nil current⟩
  case kept =>
    intro hpre before hbefore after hafter hlink hkept
    obtain ⟨hlost, hgone⟩ := mem_losses_iff hprev hcur hbefore hafter hlink
    have hleaves := (keptByPrevious_iff before after).1 hkept
    refine ⟨hstays hbefore fun h => ?_, fun h => (mem_links_without.1 h).2 ?_⟩
    · rw [hlost, hleaves] at h
      cases h
    · rw [← hlink, hgone, leavesCurrent_eq _ hpre, hleaves]
      rfl
  case yielded =>
    intro hpre before hbefore after hafter hlink hkept
    obtain ⟨hlost, hgone⟩ := mem_losses_iff hprev hcur hbefore hafter hlink
    have hleaves : leavesPrevious previous current (before, after) = true := by
      rwa [keptByPrevious_iff, Bool.not_eq_false] at hkept
    refine ⟨fun h => (mem_links_without.1 h).2 (hlost.2 hleaves), hstays hafter fun h => ?_⟩
    rw [← hlink, hgone, leavesCurrent_eq _ hpre, hleaves] at h
    cases h
  · simp [previousLosses, leavesPrevious, hpre]
  · simp [currentLosses, leavesCurrent, hpre]
  · obtain ⟨-, -, -, after, hget, -⟩ := mem_previousLosses.1 hlost
    obtain ⟨hafter, hlink⟩ := get?_eq_some hget
    exact hnot (mem_links.2 ⟨after, hafter, hlink⟩)
  · obtain ⟨before, hbefore, hlink, -⟩ := mem_currentLosses.1 hlost
    exact hnot (mem_links.2 ⟨before, hbefore, hlink⟩)

/-- With a clash, separation fails at the first one. -/
theorem failed_separate (net : Network α) (hprev : previous.links.Nodup)
    (hcur : current.links.Nodup)
    (hclash : ∃ before ∈ previous.entries, ∃ after ∈ current.entries, Clash before after) :
    Failed net previous current (separate net previous current) := by
  -- The first entry that clashes splits the set, and with it what the two sets share.
  obtain ⟨b, hb, hclash⟩ := hclash
  have hfound : (previous.entries.find? fun e =>
      decide (∃ after ∈ current.entries, Clash e after)).isSome :=
    List.find?_isSome.2 ⟨b, hb, decide_eq_true hclash⟩
  obtain ⟨before, hfind⟩ := Option.isSome_iff_exists.1 hfound
  obtain ⟨hclash, passed, more, hsplit, hpassed⟩ := List.find?_eq_some_iff_append.1 hfind
  obtain ⟨after, hafter, hlink, hsource⟩ := of_decide_eq_true hclash
  have hpassed : ∀ e ∈ passed, ∀ e' ∈ current.entries, ¬ Clash e e' := by
    intro e he e' he' hclash
    have hnone := hpassed e he
    rw [Bool.not_eq_true', decide_eq_false_iff_not] at hnone
    exact hnone ⟨e', he', hclash⟩
  have hget := (get?_eq_some_iff hcur).2 ⟨hafter, hlink.symm⟩
  have hshared : shared previous current =
      shared { previous with entries := passed } current ++
        (before, after) :: shared { previous with entries := more } current := by
    unfold shared
    rw [hsplit, List.filterMap_append, List.filterMap_cons, hget]
    rfl
  have hgood : ∀ e ∈ shared { previous with entries := passed } current, e.1.source = e.2.source :=
    (forall_shared_iff hcur).2 hpassed
  have hagain := separate_resumed net hprev hshared hgood
  have hout : separate net previous current = _ :=
    (congrArg (settleAll net · previous current) hshared).trans
      (settleAll_append _ _ previous current hgood)
  rw [settleAll, if_pos hsource] at hout
  rw [hout] at hagain ⊢
  exact ⟨⟨passed, before, more, hsplit, hpassed, after, hafter, ⟨hlink, hsource⟩, rfl⟩, hagain⟩

/-- **Separation fails exactly if a shared link was found from two nodes.** It names the first such
link of the first set then, and fails again on what it has left. Otherwise every shared link is left
in one of the two sets, if not both are pre-assigned, and a second separation changes nothing. -/
theorem separate_outcome (net : Network α) (hprev : previous.links.Nodup)
    (hcur : current.links.Nodup) :
    ((separate net previous current).mismatch ≠ none ↔
        ∃ before ∈ previous.entries, ∃ after ∈ current.entries, Clash before after) ∧
      ((separate net previous current).mismatch ≠ none →
        Failed net previous current (separate net previous current)) ∧
      ((separate net previous current).mismatch = none →
        Settled net previous current (separate net previous current)) := by
  by_cases hclash : ∃ before ∈ previous.entries, ∃ after ∈ current.entries, Clash before after
  · have hfailed := failed_separate net hprev hcur hclash
    obtain ⟨_, _, _, _, _, _, _, _, hmismatch⟩ := hfailed.first
    have hsome : (separate net previous current).mismatch ≠ none := by
      rw [hmismatch]
      exact Option.some_ne_none _
    exact ⟨iff_of_true hsome hclash, fun _ => hfailed, fun h => absurd h hsome⟩
  · have hagree : ∀ e ∈ shared previous current, e.1.source = e.2.source :=
      (forall_shared_iff hcur).2 fun before hbefore after hafter h =>
        hclash ⟨before, hbefore, after, hafter, h⟩
    have hsettled := settled_separate net hprev hcur hagree
    exact ⟨iff_of_false (not_not.2 hsettled.mismatch) hclash,
      fun h => absurd hsettled.mismatch h, fun _ => hsettled⟩

/-- Three links around the triangle, as found for one stop. -/
def earlierSet : RawSet Double := { entries := [⟨0, 0, 20⟩, ⟨1, 1, 10⟩, ⟨2, 2, 30⟩] }

/-- Links found for the next stop: one is as near as before, and one nearer. -/
def laterSet : RawSet Double := { entries := [⟨1, 1, 10⟩, ⟨0, 0, 5⟩, ⟨3, 1, 7⟩] }

/-- The same, but for one link found from another node. -/
def mistakenSet : RawSet Double := { entries := [⟨1, 2, 10⟩, ⟨0, 0, 5⟩, ⟨3, 1, 7⟩] }

/-- The nearer link is handed on and the tied one is not. With the mistaken set the first is handed
on too before separation fails at the other. -/
theorem separate_outcome_triangle :
    earlierSet.links.Nodup ∧ laterSet.links.Nodup ∧ mistakenSet.links.Nodup ∧
      (separate .triangle earlierSet laterSet).previous.links = [1, 2] ∧
      (separate .triangle earlierSet laterSet).current.links = [0, 3] ∧
      Settled .triangle earlierSet laterSet (separate .triangle earlierSet laterSet) ∧
      (separate .triangle earlierSet mistakenSet).mismatch =
        some (.separationMismatch "bc" "b" "c") ∧
      (separate .triangle earlierSet mistakenSet).previous.links = [1, 2] ∧
      Failed .triangle earlierSet mistakenSet (separate .triangle earlierSet mistakenSet) := by
  have hearlier : earlierSet.links.Nodup := by decide
  have hlater : laterSet.links.Nodup := by decide
  have hmistaken : mistakenSet.links.Nodup := by decide
  have hmismatch : (separate .triangle earlierSet mistakenSet).mismatch =
      some (.separationMismatch "bc" "b" "c") := by decide +kernel
  obtain ⟨-, -, hsettled⟩ := separate_outcome .triangle hearlier hlater
  obtain ⟨-, hfailed, -⟩ := separate_outcome .triangle hearlier hmistaken
  refine ⟨hearlier, hlater, hmistaken, by decide +kernel, by decide +kernel,
    hsettled (by decide +kernel), hmismatch, by decide +kernel, hfailed ?_⟩
  rw [hmismatch]
  exact Option.some_ne_none _

end TransitMatching.RawSet
