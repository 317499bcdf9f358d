import Mathlib.Data.List.Forall2
import Mathlib.Data.List.Nodup
import TransitMatching.Candidate.Separation
import TransitMatching.Proofs.Network.Consistency

/-!
# Separated sets

Which links two sets lose to each other depends on the sets as they were before:
links that have been settled do not bear on those to come. So `separate` takes a
list of links out of either set (`separate_eq`), and along a route every pair of
neighbours ends up separated, although most sets are compared twice.

* `separateFrom_separated`: **consecutive sets share no link afterwards, a
  pre-assigned set is what it was, and every link is still in some set.**
-/

namespace TransitMatching.RawSet

variable {α : Type}

/-- The set without some links. -/
def without (s : RawSet α) (links : List LinkIx) : RawSet α :=
  { s with entries := s.entries.filter fun e => e.link ∉ links }

theorem remove_eq_without (s : RawSet α) (ix : LinkIx) : s.remove ix = s.without [ix] := by
  simp [remove, without]

@[simp]
theorem without_nil (s : RawSet α) : s.without [] = s := by
  simp [without]

theorem without_without (s : RawSet α) (links more : List LinkIx) :
    (s.without links).without more = s.without (links ++ more) := by
  simp only [without, List.filter_filter, RawSet.mk.injEq, and_true]
  refine List.filter_congr fun e _ => ?_
  simp [not_or, Bool.and_comm]

theorem mem_links {s : RawSet α} {ix : LinkIx} :
    ix ∈ s.links ↔ ∃ e ∈ s.entries, e.link = ix := by
  simp [links]

theorem mem_links_without {s : RawSet α} {links : List LinkIx} {ix : LinkIx} :
    ix ∈ (s.without links).links ↔ ix ∈ s.links ∧ ix ∉ links := by
  simp only [mem_links, without, List.mem_filter, decide_eq_true_eq]
  constructor
  · rintro ⟨e, ⟨he, hnot⟩, rfl⟩
    exact ⟨⟨e, he, rfl⟩, hnot⟩
  · rintro ⟨⟨e, he, rfl⟩, hnot⟩
    exact ⟨e, ⟨he, hnot⟩, rfl⟩

theorem get?_eq_some {s : RawSet α} {ix : LinkIx} {e : RawCandidate α} (h : s.get? ix = some e) :
    e ∈ s.entries ∧ e.link = ix :=
  ⟨List.mem_of_find?_eq_some h, by simpa using List.find?_some h⟩

theorem get?_isSome_of_mem {s : RawSet α} {ix : LinkIx} (h : ix ∈ s.links) :
    ∃ e, s.get? ix = some e := by
  obtain ⟨e, he, rfl⟩ := mem_links.1 h
  refine Option.isSome_iff_exists.1 (List.find?_isSome.2 ⟨e, he, by simp⟩)

theorem mem_shared {previous current : RawSet α} {before after : RawCandidate α} :
    (before, after) ∈ shared previous current ↔
      before ∈ previous.entries ∧ current.get? before.link = some after := by
  simp [shared]

/-- What is left of a set: some of its entries in their order, and all of them if the set is
pre-assigned. -/
structure Narrows (before after : RawSet α) : Prop where
  sublist : after.entries.Sublist before.entries
  preassigned : after.preassigned = before.preassigned
  kept : before.preassigned = true → after = before

theorem Narrows.refl (s : RawSet α) : s.Narrows s := ⟨List.Sublist.refl _, rfl, fun _ => rfl⟩

theorem Narrows.trans {r s t : RawSet α} (h : r.Narrows s) (h' : s.Narrows t) : r.Narrows t where
  sublist := h'.sublist.trans h.sublist
  preassigned := h'.preassigned.trans h.preassigned
  kept hr := (h'.kept (h.preassigned.trans hr)).trans (h.kept hr)

theorem Narrows.links_subset {r s : RawSet α} (h : r.Narrows s) : s.links ⊆ r.links :=
  (h.sublist.map _).subset

theorem narrows_without {s : RawSet α} {links : List LinkIx}
    (h : s.preassigned = true → links = []) : s.Narrows (s.without links) where
  sublist := List.filter_sublist
  preassigned := rfl
  kept hs := by rw [h hs, without_nil]

/-- Sets of which neighbours have no link in common, unless both are pre-assigned. -/
def Apart (previous current : RawSet α) : Prop :=
  ¬ (previous.preassigned = true ∧ current.preassigned = true) →
    ∀ ix ∈ previous.links, ix ∉ current.links

/-- Sets that are apart stay apart when they are narrowed. -/
theorem Apart.narrows {s s' t t' : RawSet α} (h : s.Apart t) (hs : s.Narrows s')
    (ht : t.Narrows t') : s'.Apart t' := by
  intro hpre ix hix hix'
  rw [hs.preassigned, ht.preassigned] at hpre
  exact h hpre ix (hs.links_subset hix) (ht.links_subset hix')

variable [Scalar α] {net : Network α} {previous current : RawSet α}

/-- A set as a search gives it: with the sources that its links have, and no link twice. -/
structure Drawn (net : Network α) (s : RawSet α) : Prop where
  source : ∀ e ∈ s.entries, e.source = (net.link e.link).source
  nodup : s.links.Nodup

theorem Drawn.narrows {s t : RawSet α} (h : Drawn net s) (hst : s.Narrows t) : Drawn net t where
  source e he := h.source e (hst.sublist.subset he)
  nodup := (hst.sublist.map _).nodup h.nodup

/-- In a drawn set a link determines its entry. -/
theorem Drawn.eq_of_link {s : RawSet α} (h : Drawn net s) {e e' : RawCandidate α}
    (he : e ∈ s.entries) (he' : e' ∈ s.entries) (hlink : e.link = e'.link) : e = e' :=
  List.inj_on_of_nodup_map h.nodup he he' hlink

/-! ## Two sets -/

/-- Whether a shared link leaves the first set. -/
def leavesPrevious (previous current : RawSet α) (e : RawCandidate α × RawCandidate α) : Bool :=
  !previous.preassigned && (current.preassigned || decide (e.2.distance < e.1.distance))

/-- Whether a shared link leaves the second set. -/
def leavesCurrent (previous current : RawSet α) (e : RawCandidate α × RawCandidate α) : Bool :=
  !current.preassigned && (previous.preassigned || !decide (e.2.distance < e.1.distance))

/-- The links that the first of two sets loses, of a list of shared entries. -/
def previousLosses (previous current : RawSet α) (l : List (RawCandidate α × RawCandidate α)) :
    List LinkIx :=
  (l.filter (leavesPrevious previous current)).map fun e => e.1.link

/-- The links that the second of two sets loses. -/
def currentLosses (previous current : RawSet α) (l : List (RawCandidate α × RawCandidate α)) :
    List LinkIx :=
  (l.filter (leavesCurrent previous current)).map fun e => e.2.link

theorem settle_eq (before after : RawCandidate α) (previous current : RawSet α) :
    settle before after previous current =
      (previous.without (previousLosses previous current [(before, after)]),
        current.without (currentLosses previous current [(before, after)])) := by
  unfold settle previousLosses currentLosses leavesPrevious leavesCurrent
  cases previous.preassigned <;> cases current.preassigned
  · by_cases hlt : after.distance < before.distance <;> simp [hlt, remove_eq_without]
  · simp [remove_eq_without]
  · simp [remove_eq_without]
  · simp

/-- Entries that agree about where their link starts are settled one by one, and each set loses what
it was told to lose at first. -/
theorem settleAll_append (l rest : List (RawCandidate α × RawCandidate α))
    (previous current : RawSet α) (h : ∀ e ∈ l, e.1.source = e.2.source) :
    settleAll net (l ++ rest) previous current =
      settleAll net rest (previous.without (previousLosses previous current l))
        (current.without (currentLosses previous current l)) := by
  induction l generalizing previous current with
  | nil => simp [previousLosses, currentLosses]
  | cons e l ih =>
    obtain ⟨before, after⟩ := e
    have hsource : before.source = after.source := h _ List.mem_cons_self
    rw [List.cons_append, settleAll, if_neg (not_not.2 hsource), settle_eq]
    dsimp only
    rw [ih _ _ fun e he => h e (List.mem_cons_of_mem _ he), without_without, without_without]
    -- Losing links changes nothing about which links are to be lost.
    congr 2
    · rw [previousLosses, previousLosses, ← List.map_append]
      exact congrArg (List.map _) (List.filter_append [_] l).symm
    · rw [currentLosses, currentLosses, ← List.map_append]
      exact congrArg (List.map _) (List.filter_append [_] l).symm

/-- If no link was found from two nodes, each set loses what the two were told to lose at first. -/
theorem settleAll_eq (l : List (RawCandidate α × RawCandidate α)) (previous current : RawSet α)
    (h : ∀ e ∈ l, e.1.source = e.2.source) :
    settleAll net l previous current =
      { previous := previous.without (previousLosses previous current l)
        current := current.without (currentLosses previous current l) } := by
  have happend : settleAll net (l ++ []) previous current = _ := settleAll_append l [] _ _ h
  rwa [List.append_nil, settleAll] at happend

/-- Entries of drawn sets never disagree about where a link starts. -/
theorem Drawn.source_eq (hprev : Drawn net previous) (hcur : Drawn net current)
    {e : RawCandidate α × RawCandidate α} (he : e ∈ shared previous current) :
    e.1.source = e.2.source := by
  obtain ⟨before, after⟩ := e
  obtain ⟨hbefore, hafter⟩ := mem_shared.1 he
  obtain ⟨hafter, hlink⟩ := get?_eq_some hafter
  rw [hprev.source before hbefore, hcur.source after hafter, hlink]

/-- **Separation takes from each set the links that it is to lose**, and does not fail. -/
theorem separate_eq (hprev : Drawn net previous) (hcur : Drawn net current) :
    separate net previous current =
      { previous := previous.without (previousLosses previous current (shared previous current))
        current := current.without (currentLosses previous current (shared previous current)) } :=
  settleAll_eq _ _ _ fun _ he => hprev.source_eq hcur he

theorem mem_previousLosses {ix : LinkIx} :
    ix ∈ previousLosses previous current (shared previous current) ↔
      ∃ before ∈ previous.entries, before.link = ix ∧ ∃ after, current.get? ix = some after ∧
        leavesPrevious previous current (before, after) = true := by
  simp only [previousLosses, List.mem_map, List.mem_filter]
  constructor
  · rintro ⟨⟨before, after⟩, ⟨he, hleaves⟩, rfl⟩
    obtain ⟨hbefore, hafter⟩ := mem_shared.1 he
    exact ⟨before, hbefore, rfl, after, hafter, hleaves⟩
  · rintro ⟨before, hbefore, rfl, after, hafter, hleaves⟩
    exact ⟨(before, after), ⟨mem_shared.2 ⟨hbefore, hafter⟩, hleaves⟩, rfl⟩

theorem mem_currentLosses {ix : LinkIx} :
    ix ∈ currentLosses previous current (shared previous current) ↔
      ∃ before ∈ previous.entries, before.link = ix ∧ ∃ after, current.get? ix = some after ∧
        leavesCurrent previous current (before, after) = true := by
  simp only [currentLosses, List.mem_map, List.mem_filter]
  constructor
  · rintro ⟨⟨before, after⟩, ⟨he, hleaves⟩, rfl⟩
    obtain ⟨hbefore, hafter⟩ := mem_shared.1 he
    obtain ⟨-, hlink⟩ := get?_eq_some hafter
    rw [← hlink] at hafter
    exact ⟨before, hbefore, hlink.symm, after, hafter, hleaves⟩
  · rintro ⟨before, hbefore, rfl, after, hafter, hleaves⟩
    exact ⟨(before, after), ⟨mem_shared.2 ⟨hbefore, hafter⟩, hleaves⟩, (get?_eq_some hafter).2⟩

/-- What two sets are after separation. -/
structure Separated (previous current previous' current' : RawSet α) : Prop where
  previous_narrows : previous.Narrows previous'
  current_narrows : current.Narrows current'
  apart : previous'.Apart current'
  kept_previous : ∀ ix ∈ previous.links, ix ∈ previous'.links ∨ ix ∈ current'.links
  kept_current : ∀ ix ∈ current.links, ix ∈ previous'.links ∨ ix ∈ current'.links

/-- A shared link leaves at most one of two sets. -/
theorem not_leaves_both {e : RawCandidate α × RawCandidate α}
    (h : leavesPrevious previous current e = true) : leavesCurrent previous current e ≠ true := by
  revert h
  unfold leavesCurrent leavesPrevious
  cases previous.preassigned <;> cases current.preassigned <;> simp

/-- A shared link leaves exactly one of two sets, if not both are pre-assigned. -/
theorem leavesCurrent_eq (e : RawCandidate α × RawCandidate α)
    (h : ¬ (previous.preassigned = true ∧ current.preassigned = true)) :
    leavesCurrent previous current e = !leavesPrevious previous current e := by
  unfold leavesCurrent leavesPrevious
  revert h
  cases previous.preassigned <;> cases current.preassigned <;> simp

/-- A link that one set loses is not lost by the other. -/
theorem Drawn.not_lost_both (hprev : Drawn net previous) {ix : LinkIx}
    (h : ix ∈ previousLosses previous current (shared previous current)) :
    ix ∉ currentLosses previous current (shared previous current) := by
  intro h'
  obtain ⟨before, hbefore, hlink, after, hafter, hleaves⟩ := mem_previousLosses.1 h
  obtain ⟨before', hbefore', hlink', after', hafter', hleaves'⟩ := mem_currentLosses.1 h'
  obtain rfl := hprev.eq_of_link hbefore hbefore' (hlink.trans hlink'.symm)
  obtain rfl : after = after' := Option.some.inj (hafter.symm.trans hafter')
  exact not_leaves_both hleaves hleaves'

/-- Separation does not fail, and does what it is meant to do. -/
theorem separated_separate (hprev : Drawn net previous) (hcur : Drawn net current) :
    (separate net previous current).mismatch = none ∧
      Separated previous current (separate net previous current).previous
        (separate net previous current).current := by
  rw [separate_eq hprev hcur]
  refine ⟨rfl, narrows_without fun hpre => ?_, narrows_without fun hpre => ?_, ?_, ?_, ?_⟩
  · simp [previousLosses, leavesPrevious, hpre]
  · simp [currentLosses, leavesCurrent, hpre]
  · intro hpre ix hix hix'
    have hboth : ¬ (previous.preassigned = true ∧ current.preassigned = true) := hpre
    obtain ⟨hix, hstays⟩ := mem_links_without.1 hix
    obtain ⟨hix', hstays'⟩ := mem_links_without.1 hix'
    obtain ⟨before, hbefore, hlink⟩ := mem_links.1 hix
    obtain ⟨after, hafter⟩ := get?_isSome_of_mem hix'
    cases hleaves : leavesPrevious previous current (before, after) with
    | true => exact hstays (mem_previousLosses.2 ⟨before, hbefore, hlink, after, hafter, hleaves⟩)
    | false =>
      refine hstays' (mem_currentLosses.2 ⟨before, hbefore, hlink, after, hafter, ?_⟩)
      rw [leavesCurrent_eq _ hboth, hleaves]
      rfl
  · intro ix hix
    by_cases hlost : ix ∈ previousLosses previous current (shared previous current)
    · obtain ⟨before, -, -, after, hafter, -⟩ := mem_previousLosses.1 hlost
      obtain ⟨hafter, hlink⟩ := get?_eq_some hafter
      exact .inr (mem_links_without.2 ⟨mem_links.2 ⟨after, hafter, hlink⟩,
        hprev.not_lost_both hlost⟩)
    · exact .inl (mem_links_without.2 ⟨hix, hlost⟩)
  · intro ix hix
    by_cases hlost : ix ∈ currentLosses previous current (shared previous current)
    · obtain ⟨before, hbefore, hlink, -⟩ := mem_currentLosses.1 hlost
      exact .inl (mem_links_without.2 ⟨mem_links.2 ⟨before, hbefore, hlink⟩,
        fun hlost' => hprev.not_lost_both hlost' hlost⟩)
    · exact .inr (mem_links_without.2 ⟨hix, hlost⟩)

/-! ## The sets of a route -/

/-- What the sets of the stops of a route are after separation. -/
structure RunSeparated (raw out : List (RawSet α)) : Prop where
  narrows : List.Forall₂ Narrows raw out
  apart : out.IsChain Apart
  kept : ∀ s ∈ raw, ∀ ix ∈ s.links, ∃ t ∈ out, ix ∈ t.links

/-- **Separating the sets of a route from the first pair to the last leaves all neighbours apart.**
A set is compared with the one before it and then with the one after; the second comparison only
takes links out of it, so the first stays good. -/
theorem separateFrom_separated (previous : RawSet α) (rest : List (RawSet α))
    (h : ∀ s ∈ previous :: rest, Drawn net s) :
    ∃ out, separateFrom net previous rest = .ok out ∧ RunSeparated (previous :: rest) out := by
  induction rest generalizing previous with
  | nil =>
    refine ⟨[previous], rfl, .cons (.refl previous) .nil, .singleton _, ?_⟩
    intro s hs ix hix
    exact ⟨s, hs, hix⟩
  | cons current rest ih =>
    obtain ⟨hprev, hrest⟩ := List.forall_mem_cons.1 h
    obtain ⟨hcur, hrest⟩ := List.forall_mem_cons.1 hrest
    obtain ⟨hmismatch, hsep⟩ := separated_separate hprev hcur
    obtain ⟨out, hout, hrun⟩ := ih (separate net previous current).current
      (List.forall_mem_cons.2 ⟨hcur.narrows hsep.current_narrows, hrest⟩)
    refine ⟨(separate net previous current).previous :: out, ?_, ?_, ?_, ?_⟩
    · unfold separateFrom
      simp only [hmismatch, hout]
      rfl
    · obtain ⟨s, tail, hs, htail, rfl⟩ := List.forall₂_cons_left_iff.1 hrun.narrows
      exact .cons hsep.previous_narrows (.cons (hsep.current_narrows.trans hs) htail)
    · obtain ⟨s, tail, hs, -, rfl⟩ := List.forall₂_cons_left_iff.1 hrun.narrows
      exact List.isChain_cons_cons.2 ⟨hsep.apart.narrows (.refl _) hs, hrun.apart⟩
    · -- A link of the first two sets is left in the first, or handed on to the rest of the route.
      have hhand : ∀ ix, ix ∈ (separate net previous current).previous.links ∨
          ix ∈ (separate net previous current).current.links →
          ∃ t ∈ (separate net previous current).previous :: out, ix ∈ t.links := by
        rintro ix (hix | hix)
        · exact ⟨_, List.mem_cons_self, hix⟩
        · obtain ⟨t, ht, hix⟩ := hrun.kept _ List.mem_cons_self ix hix
          exact ⟨t, List.mem_cons_of_mem _ ht, hix⟩
      intro s hs ix hix
      rcases List.mem_cons.1 hs with rfl | hs
      · exact hhand ix (hsep.kept_previous ix hix)
      rcases List.mem_cons.1 hs with rfl | hs
      · exact hhand ix (hsep.kept_current ix hix)
      obtain ⟨t, ht, hix⟩ := hrun.kept s (List.mem_cons_of_mem _ hs) ix hix
      exact ⟨t, List.mem_cons_of_mem _ ht, hix⟩

theorem separateRun_separated (raw : List (RawSet α)) (h : ∀ s ∈ raw, Drawn net s) :
    ∃ out, separateRun net raw = .ok out ∧ RunSeparated raw out := by
  cases raw with
  | nil => exact ⟨[], rfl, .nil, .nil, fun s hs => absurd hs List.not_mem_nil⟩
  | cons previous rest => exact separateFrom_separated previous rest h

end TransitMatching.RawSet
