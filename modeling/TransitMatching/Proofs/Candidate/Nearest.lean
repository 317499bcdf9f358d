import TransitMatching.Proofs.Candidate.Reduction
import TransitMatching.Proofs.Number.Order

/-!
# The nearest of each chain

Reduction goes through a set entry by entry and settles chains as it meets them. What it
keeps can be said without that order: of each chain the nearest entry, and of equally near
ones that of the lowest link.

* `NearestOfChain`: the entries that no other of their chain comes before.
* `reduce_nearest`: **reduction keeps exactly these**, so that a second reduction changes
  nothing and the order of the entries does not matter.
-/

namespace TransitMatching

variable {α : Type} [Scalar α]

namespace RawCandidate

instance : Std.TransCmp (compare : RawCandidate α → RawCandidate α → Ordering) :=
  Scalar.transCmp_order_then distance link

/-- Entries that neither comes before the other name one link. -/
theorem link_eq_of_isLE {a b : RawCandidate α} (hab : (compare a b).isLE)
    (hba : (compare b a).isLE) : a.link = b.link :=
  Scalar.place_eq_of_isLE distance link hab hba

/-- Nearer, or equally near and of no greater number. -/
def NoLater (a b : RawCandidate α) : Prop :=
  Scalar.order a.distance b.distance = .lt ∨
    Scalar.order a.distance b.distance = .eq ∧ a.link ≤ b.link

instance (a b : RawCandidate α) : Decidable (a.NoLater b) :=
  inferInstanceAs (Decidable (_ ∨ _ ∧ _))

/-- Entries are compared by distance and then by number. -/
theorem noLater_iff {a b : RawCandidate α} : a.NoLater b ↔ (compare a b).isLE := by
  unfold NoLater compare
  rw [Ordering.isLE_then_iff_or, Nat.isLE_compare]

end RawCandidate

namespace RawSet

variable {net : Network α} {s t : RawSet α}

/-- No entry of the set in the chain of this one comes before it. -/
def NearestOfChain (net : Network α) (s : RawSet α) (e : RawCandidate α) : Prop :=
  ∀ e' ∈ s.entries, e'.link ∈ net.chain e.link → e.NoLater e'

instance (net : Network α) (s : RawSet α) (e : RawCandidate α) :
    Decidable (s.NearestOfChain net e) :=
  inferInstanceAs (Decidable (∀ e' ∈ s.entries, _))

/-- Which entry is the nearest depends on what is in the set, not on its order. -/
theorem nearestOfChain_congr (h : ∀ e, e ∈ t.entries ↔ e ∈ s.entries) (e : RawCandidate α) :
    t.NearestOfChain net e ↔ s.NearestOfChain net e :=
  forall_congr' fun _ => imp_congr (h _) Iff.rfl

/-- The link that is kept of a chain is that of the nearest entry. -/
theorem keeper_eq_iff (hnet : net.Consistent) (hnodup : s.links.Nodup) {e : RawCandidate α}
    (he : e ∈ s.entries) : s.keeper net e.link = some e.link ↔ s.NearestOfChain net e := by
  have hself : e ∈ s.chainMembers net e.link := mem_chainMembers.2 ⟨he, hnet.mem_chain_self _⟩
  unfold keeper
  cases hleast : leastBy? RawCandidate.compare (s.chainMembers net e.link) with
  | none =>
    rw [leastBy?_eq_none_iff.1 hleast] at hself
    exact absurd hself List.not_mem_nil
  | some k =>
    obtain ⟨hk, hchain⟩ := mem_chainMembers.1 (leastBy?_mem hleast)
    have hfirst := leastBy?_isLE hleast
    rw [Option.map_some, Option.some.injEq]
    constructor
    · intro hlink e' he' hchain'
      obtain rfl : k = e := List.inj_on_of_nodup_map hnodup hk he hlink
      exact RawCandidate.noLater_iff.2 (hfirst e' (mem_chainMembers.2 ⟨he', hchain'⟩))
    · intro hnearest
      exact RawCandidate.link_eq_of_isLE (hfirst e hself)
        (RawCandidate.noLater_iff.1 (hnearest k hk hchain))

/-- **Reduction keeps the nearest entry of each chain**, in the order of the set. -/
theorem entries_reduce_eq (hnet : net.Consistent) (hnodup : s.links.Nodup)
    (hpre : s.preassigned = false) :
    (s.reduce net).entries = s.entries.filter fun e => s.NearestOfChain net e := by
  rw [entries_reduce hnet hpre]
  refine List.filter_congr fun e he => ?_
  rw [decide_eq_decide]
  exact keeper_eq_iff hnet hnodup he

/-- An entry that is nearest in a set is nearest in what is left of it. -/
theorem NearestOfChain.narrows {e : RawCandidate α} (h : s.NearestOfChain net e)
    (hst : s.Narrows t) : t.NearestOfChain net e :=
  fun e' he' => h e' (hst.sublist.subset he')

omit [Scalar α] in
/-- A set that has lost no entry is what it was. -/
theorem Narrows.eq_of_entries (h : s.Narrows t) (hentries : t.entries = s.entries) : t = s := by
  obtain ⟨entries, preassigned⟩ := t
  obtain rfl : entries = s.entries := hentries
  obtain rfl : preassigned = s.preassigned := h.preassigned
  rfl

/-- What a set without a pre-assigned link is after reduction. -/
structure Reduced (net : Network α) (s r : RawSet α) : Prop where
  entries : r.entries = s.entries.filter fun e => s.NearestOfChain net e
  preassigned : r.preassigned = s.preassigned
  /-- The entry that comes before all others stays. -/
  nearest : ∀ e ∈ s.entries, (∀ e' ∈ s.entries, e.NoLater e') → e ∈ r.entries
  ne_nil : s.entries ≠ [] → r.entries ≠ []
  again : r.reduce net = r
  /-- From a set with the same entries in another order the same ones stay. -/
  anyOrder : ∀ t : RawSet α, t.preassigned = s.preassigned → t.entries.Perm s.entries →
    (t.reduce net).entries.Perm r.entries

/-- **Of each chain in a set, reduction keeps the nearest entry and no other.** A pre-assigned set
is left as it is. -/
theorem reduce_nearest (hnet : net.Reachable) (hnodup : s.links.Nodup) :
    (s.preassigned = false → Reduced net s (s.reduce net)) ∧
      (s.preassigned = true → s.reduce net = s) := by
  have hnarrows := narrows_reduce net s
  refine ⟨fun hpre => ?_, hnarrows.kept⟩
  have hentries := entries_reduce_eq hnet.consistent hnodup hpre
  refine
    { entries := hentries
      preassigned := hnarrows.preassigned
      nearest := ?nearest
      ne_nil := ?ne_nil
      again := ?again
      anyOrder := ?anyOrder }
  case nearest =>
    intro e he hfirst
    rw [hentries]
    exact List.mem_filter.2 ⟨he, decide_eq_true fun e' he' _ => hfirst e' he'⟩
  case ne_nil =>
    intro hne
    obtain ⟨e, he⟩ := List.exists_mem_of_ne_nil _ hne
    obtain ⟨ix, hix, -⟩ := exists_mem_chain hnet.consistent (mem_links.2 ⟨e, he, rfl⟩)
    obtain ⟨k, hk, -⟩ := mem_links.1 hix
    exact List.ne_nil_of_mem hk
  case again =>
    have hleft : (s.reduce net).links.Nodup := (hnarrows.sublist.map _).nodup hnodup
    have hpre' : (s.reduce net).preassigned = false := hnarrows.preassigned.trans hpre
    have hall : ((s.reduce net).reduce net).entries = (s.reduce net).entries := by
      rw [entries_reduce_eq hnet.consistent hleft hpre']
      refine List.filter_eq_self.2 fun e he => decide_eq_true ?_
      rw [hentries, List.mem_filter, decide_eq_true_eq] at he
      exact he.2.narrows hnarrows
    exact (narrows_reduce net _).eq_of_entries hall
  case anyOrder =>
    intro t hsame hperm
    have hnodup' : t.links.Nodup := (hperm.map _).nodup_iff.2 hnodup
    rw [entries_reduce_eq hnet.consistent hnodup' (hsame.trans hpre), hentries]
    have hcongr : t.entries.filter (fun e => t.NearestOfChain net e) =
        t.entries.filter fun e => s.NearestOfChain net e := by
      refine List.filter_congr fun e _ => ?_
      rw [decide_eq_decide]
      exact nearestOfChain_congr (fun _ => hperm.mem_iff) e
    rw [hcongr]
    exact hperm.filter _

/-- Two links around the triangle, equally near, and the link that leads back. -/
def triangleSet : RawSet Double := { entries := [⟨2, 2, 20⟩, ⟨3, 1, 35⟩, ⟨0, 0, 20⟩] }

/-- Of the two links of one chain that are equally near, the lower one stays. -/
theorem reduce_nearest_triangle :
    Network.triangle.Reachable ∧ triangleSet.links.Nodup ∧ triangleSet.preassigned = false ∧
      (triangleSet.reduce .triangle).links = [3, 0] ∧
      Reduced .triangle triangleSet (triangleSet.reduce .triangle) := by
  have hreach : Network.triangle.Reachable := .ofParts Network.ofParts_triangle
  have hnodup : triangleSet.links.Nodup := by decide
  exact ⟨hreach, hnodup, rfl, by decide +kernel, (reduce_nearest hreach hnodup).1 rfl⟩

end RawSet

end TransitMatching
