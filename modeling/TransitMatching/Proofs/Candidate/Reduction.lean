import TransitMatching.Candidate.Reduction
import TransitMatching.Proofs.Candidate.Separation
import TransitMatching.Proofs.Network.Chains

/-!
# Reduced sets

Reduction settles one chain after another and drops all but one link of each. Since
chains partition the links, it does not matter from which link of a chain that is
done: an entry stays exactly if its link is the one kept of its own chain.

* `mem_reduce`: the entries that stay.
* `exists_mem_chain`: **of every chain in the set, a link stays.**
-/

namespace TransitMatching.RawSet

variable {α : Type} [Scalar α] {net : Network α} {s : RawSet α}

theorem mem_chainMembers {ix : LinkIx} {e : RawCandidate α} :
    e ∈ s.chainMembers net ix ↔ e ∈ s.entries ∧ e.link ∈ net.chain ix := by
  simp [chainMembers]

theorem chainMembers_congr (hnet : net.Consistent) {a b : LinkIx} (h : b ∈ net.chain a) :
    s.chainMembers net a = s.chainMembers net b := by
  refine List.filter_congr fun e _ => ?_
  rw [decide_eq_decide]
  exact hnet.mem_chain_congr h e.link

/-- The link of a set that is kept of the chain of a link. -/
def keeper (net : Network α) (s : RawSet α) (ix : LinkIx) : Option LinkIx :=
  (leastBy? RawCandidate.compare (s.chainMembers net ix)).map RawCandidate.link

theorem keeper_congr (hnet : net.Consistent) {a b : LinkIx} (h : b ∈ net.chain a) :
    s.keeper net a = s.keeper net b := by
  rw [keeper, chainMembers_congr hnet h, keeper]

/-- Each chain with a link in a set has a link that is kept. -/
theorem exists_keeper (hnet : net.Consistent) {e : RawCandidate α} (he : e ∈ s.entries) :
    ∃ k ∈ s.entries, s.keeper net e.link = some k.link ∧ k.link ∈ net.chain e.link := by
  have hself : e ∈ s.chainMembers net e.link := mem_chainMembers.2 ⟨he, hnet.mem_chain_self _⟩
  cases hleast : leastBy? RawCandidate.compare (s.chainMembers net e.link) with
  | none =>
    rw [leastBy?_eq_none_iff.1 hleast] at hself
    exact absurd hself List.not_mem_nil
  | some k =>
    obtain ⟨hk, hchain⟩ := mem_chainMembers.1 (leastBy?_mem hleast)
    exact ⟨k, hk, by rw [keeper, hleast]; rfl, hchain⟩

/-- What is settled and dropped after some of the entries of a set. -/
structure Sifted (net : Network α) (s : RawSet α) (done : List (RawCandidate α)) (r : Sifting) :
    Prop where
  settled : ∀ ix, ix ∈ r.settled ↔ ix ∈ s.links ∧ ∃ e ∈ done, ix ∈ net.chain e.link
  dropped : ∀ ix, ix ∈ r.dropped ↔ ix ∈ r.settled ∧ s.keeper net ix ≠ some ix

theorem Sifted.sift (hnet : net.Consistent) {done : List (RawCandidate α)} {r : Sifting}
    (h : Sifted net s done r) (e : RawCandidate α) :
    Sifted net s (done ++ [e]) (s.sift net r e) := by
  unfold RawSet.sift
  split
  · next hsettled =>
    refine ⟨fun ix => ?_, h.dropped⟩
    rw [h.settled]
    refine and_congr_right fun _ => ?_
    constructor
    · rintro ⟨e', he', hix⟩
      exact ⟨e', List.mem_append_left _ he', hix⟩
    · rintro ⟨e', he', hix⟩
      rcases List.mem_append.1 he' with he' | he'
      · exact ⟨e', he', hix⟩
      · -- The chain of this entry has been settled from another entry.
        rw [List.mem_singleton.1 he'] at hix
        obtain ⟨-, e₀, he₀, hchain⟩ := (h.settled _).1 hsettled
        exact ⟨e₀, he₀, (hnet.mem_chain_congr hchain ix).2 hix⟩
  · have hmembers : ∀ ix, ix ∈ (s.chainMembers net e.link).map RawCandidate.link ↔
        ix ∈ s.links ∧ ix ∈ net.chain e.link := by
      intro ix
      simp only [List.mem_map, mem_chainMembers, mem_links]
      constructor
      · rintro ⟨e', ⟨he', hchain⟩, rfl⟩
        exact ⟨⟨e', he', rfl⟩, hchain⟩
      · rintro ⟨⟨e', he', rfl⟩, hchain⟩
        exact ⟨e', ⟨he', hchain⟩, rfl⟩
    refine ⟨fun ix => ?_, fun ix => ?_⟩
    · simp only [List.mem_append, h.settled, hmembers, List.mem_singleton]
      grind
    · simp only [List.mem_append, h.dropped, List.mem_filter, decide_eq_true_eq]
      rw [or_and_right]
      refine or_congr_right (and_congr_right fun hix => ?_)
      have hkeep : s.keeper net e.link = s.keeper net ix :=
        keeper_congr hnet ((hmembers ix).1 hix).2
      rw [← hkeep]
      exact ne_comm

theorem sifted_foldl (hnet : net.Consistent) (rest done : List (RawCandidate α)) (r : Sifting)
    (h : Sifted net s done r) : Sifted net s (done ++ rest) (rest.foldl (s.sift net) r) := by
  induction rest generalizing done r with
  | nil => rwa [List.append_nil]
  | cons e rest ih =>
    have := ih _ _ (h.sift hnet e)
    rwa [List.append_assoc] at this

/-- **An entry stays exactly if its link is kept of its chain.** -/
theorem mem_reduce (hnet : net.Consistent) (hpre : s.preassigned = false) {e : RawCandidate α} :
    e ∈ (s.reduce net).entries ↔ e ∈ s.entries ∧ s.keeper net e.link = some e.link := by
  unfold reduce
  split
  · next hshort =>
    -- A set of one entry keeps it.
    refine ⟨fun he => ⟨he, ?_⟩, fun he => he.1⟩
    obtain ⟨k, hk, hkeeper, -⟩ := exists_keeper hnet he
    have hlen : s.entries.length ≤ 1 := by simpa [hpre, Nat.lt_succ_iff] using hshort
    obtain ⟨a, ha⟩ := List.length_eq_one_iff.1 (Nat.le_antisymm hlen (List.length_pos_of_mem he))
    rw [ha, List.mem_singleton] at he hk
    rw [hkeeper, hk, he]
  · have hnone : Sifted net s [] {} := ⟨by simp, by simp⟩
    have h := sifted_foldl hnet s.entries [] {} hnone
    rw [List.nil_append] at h
    rw [List.mem_filter, decide_eq_true_eq]
    refine and_congr_right fun he => ?_
    have hsettled : e.link ∈ (s.entries.foldl (s.sift net) {}).settled :=
      (h.settled _).2 ⟨mem_links.2 ⟨e, he, rfl⟩, e, he, hnet.mem_chain_self _⟩
    rw [h.dropped]
    simp [hsettled]

/-- The entries that stay, in their order. -/
theorem entries_reduce (hnet : net.Consistent) (hpre : s.preassigned = false) :
    (s.reduce net).entries = s.entries.filter fun e => s.keeper net e.link = some e.link := by
  have hfilter : ∃ stays : RawCandidate α → Bool, (s.reduce net).entries = s.entries.filter stays := by
    unfold reduce
    split
    · exact ⟨fun _ => true, by simp⟩
    · exact ⟨_, rfl⟩
  obtain ⟨stays, hstays⟩ := hfilter
  rw [hstays]
  refine List.filter_congr fun e he => ?_
  have hmem := mem_reduce hnet hpre (e := e)
  rw [hstays, List.mem_filter, and_congr_right_iff] at hmem
  rw [Bool.eq_iff_iff, hmem he, decide_eq_true_eq]

/-- **No two links that stay are in one chain.** -/
theorem pairwise_reduce (hnet : net.Consistent) (hpre : s.preassigned = false)
    (hnodup : s.links.Nodup) :
    (s.reduce net).links.Pairwise fun a b => b ∉ net.chain a := by
  have hsub : (s.reduce net).links.Sublist s.links := by
    unfold reduce
    split
    · exact List.Sublist.refl _
    · exact List.filter_sublist.map _
  refine (hsub.nodup hnodup).imp_of_mem ?_
  intro a b ha hb hne hchain
  obtain ⟨e, he, rfl⟩ := mem_links.1 ha
  obtain ⟨e', he', rfl⟩ := mem_links.1 hb
  -- Both are the link kept of the one chain.
  have hkeeper := ((mem_reduce hnet hpre).1 he).2
  rw [keeper_congr hnet hchain, ((mem_reduce hnet hpre).1 he').2] at hkeeper
  exact hne (Option.some.inj hkeeper).symm

theorem narrows_reduce (net : Network α) (s : RawSet α) : s.Narrows (s.reduce net) := by
  unfold reduce
  split
  · exact .refl s
  · next hpre =>
    refine ⟨List.filter_sublist, rfl, fun h => ?_⟩
    simp [h] at hpre

/-- **Of every chain with a link in a set, reduction keeps a link.** -/
theorem exists_mem_chain (hnet : net.Consistent) {ix : LinkIx} (h : ix ∈ s.links) :
    ∃ kept ∈ (s.reduce net).links, kept ∈ net.chain ix := by
  cases hpre : s.preassigned with
  | true =>
    rw [(narrows_reduce net s).kept hpre]
    exact ⟨ix, h, hnet.mem_chain_self ix⟩
  | false =>
    obtain ⟨e, he, rfl⟩ := mem_links.1 h
    obtain ⟨k, hk, hkeeper, hchain⟩ := exists_keeper hnet he
    refine ⟨k.link, mem_links.2 ⟨k, (mem_reduce hnet hpre).2 ⟨hk, ?_⟩, rfl⟩, hchain⟩
    rw [← keeper_congr hnet hchain, hkeeper]

end TransitMatching.RawSet
