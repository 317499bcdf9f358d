import TransitMatching.Heap

/-!
# The front of a heap

A heap is ordered if no entry comes before the one above it. Where an entry moves
up, or down, the order is broken at one place only, and the entries around that
place are in order among themselves. `Rising` and `Sinking` say so.

* `Ordered.push`, `Ordered.pop?`: an ordered heap stays ordered.
* `Ordered.front`: **no entry comes before the one that is popped.**
-/

namespace TransitMatching.Heap

variable {β : Type}

/-- An order in which entries can be ranked: of two entries at most one comes before the other, and
an entry that is not after another is not after what comes later than that. -/
structure Ranks (before : β → β → Bool) : Prop where
  asymm : ∀ {x y}, before x y = true → before y x = false
  trans : ∀ {x y z}, before y x = false → before z y = false → before z x = false

theorem Ranks.irrefl {before : β → β → Bool} (hb : Ranks before) (x : β) :
    before x x = false := by
  cases h : before x x with
  | false => rfl
  | true => exact h.symm.trans (hb.asymm h)

/-- Whether place `j` is below place `i`. -/
def Below (i j : Nat) : Prop := 0 < j ∧ (j - 1) / 2 = i

theorem Below.lt {i j : Nat} (h : Below i j) : i < j := by
  unfold Below at h
  omega

theorem below_iff {i j : Nat} : Below i j ↔ j = 2 * i + 1 ∨ j = 2 * i + 2 := by
  unfold Below
  omega

variable {before : β → β → Bool} {a : Array β}

/-- The entry at place `j` does not come before the one at place `i`. -/
def InOrder (before : β → β → Bool) (a : Array β) (i j : Nat) : Prop :=
  ∀ x y, a[i]? = some x → a[j]? = some y → before y x = false

theorem inOrder_of_getElem? {i j : Nat} {x y : β} (hi : a[i]? = some x) (hj : a[j]? = some y)
    (h : before y x = false) : InOrder before a i j := by
  intro u v hu hv
  rw [hi] at hu
  rw [hj] at hv
  cases hu
  cases hv
  exact h

theorem inOrder_of_none {i j : Nat} (hj : a[j]? = none) : InOrder before a i j := by
  intro u v _ hv
  rw [hj] at hv
  cases hv

theorem inOrder_self (hb : Ranks before) (i : Nat) : InOrder before a i i :=
  fun x _ hx hy => inOrder_of_getElem? hx hx (hb.irrefl x) _ _ hx hy

theorem InOrder.trans (hb : Ranks before) {i j k : Nat} {y : β} (hj : a[j]? = some y)
    (h : InOrder before a i j) (h' : InOrder before a j k) : InOrder before a i k :=
  fun x z hx hz => hb.trans (h x y hx hj) (h' y z hj hz)

/-- No entry comes before the one above it. -/
def ArrayOrdered (before : β → β → Bool) (a : Array β) : Prop :=
  ∀ i j, Below i j → InOrder before a i j

theorem ArrayOrdered.front (hb : Ranks before) (h : ArrayOrdered before a) (j : Nat) :
    InOrder before a 0 j := by
  induction j using Nat.strongRecOn with
  | ind j ih =>
    rcases Nat.eq_zero_or_pos j with rfl | hpos
    · exact inOrder_self hb 0
    · have hbelow : Below ((j - 1) / 2) j := ⟨hpos, rfl⟩
      intro x y hx hy
      obtain ⟨hlt, -⟩ := Array.getElem?_eq_some_iff.1 hy
      have hsize : (j - 1) / 2 < a.size := Nat.lt_trans hbelow.lt hlt
      exact (ih _ hbelow.lt).trans hb (Array.getElem?_eq_getElem hsize) (h _ _ hbelow) x y hx hy

/-- The place whose entry is at place `k` after places `i` and `j` have been exchanged. -/
def exchanged (i j k : Nat) : Nat := if k = i then j else if k = j then i else k

theorem getElem?_swap {i j : Nat} {x y : β} (hi : a[i]? = some x) (hj : a[j]? = some y)
    (k : Nat) : (a.swapIfInBounds i j)[k]? = a[exchanged i j k]? := by
  obtain ⟨hi', rfl⟩ := Array.getElem?_eq_some_iff.1 hi
  obtain ⟨hj', rfl⟩ := Array.getElem?_eq_some_iff.1 hj
  rw [Array.swapIfInBounds_def, dif_pos hi', dif_pos hj', Array.getElem?_swap]
  unfold exchanged
  by_cases hki : k = i
  · by_cases hkj : k = j
    · subst hki hkj
      simp
    · subst hki
      simp [Ne.symm hkj, hj]
  · by_cases hkj : k = j
    · subst hkj
      simp [hki, hi]
    · simp [hki, hkj, Ne.symm hki, Ne.symm hkj]

theorem inOrder_swap {i j k l : Nat} {x y : β} (hi : a[i]? = some x) (hj : a[j]? = some y)
    (h : InOrder before a (exchanged i j k) (exchanged i j l)) :
    InOrder before (a.swapIfInBounds i j) k l := by
  intro u v hu hv
  rw [getElem?_swap hi hj] at hu hv
  exact h u v hu hv

/-! ## Entries on their way up -/

/-- Only the entry at place `i` may come before the one above it. -/
structure Rising (before : β → β → Bool) (a : Array β) (i : Nat) : Prop where
  others : ∀ p j, Below p j → j ≠ i → InOrder before a p j
  around : ∀ p j, Below p i → Below i j → InOrder before a p j

theorem Rising.swap (hb : Ranks before) {i above : Nat} {x y : β} (h : Rising before a i)
    (hup : Below above i) (hi : a[i]? = some x) (habove : a[above]? = some y)
    (hbefore : before x y = true) : Rising before (a.swapIfInBounds i above) above := by
  have hne : above ≠ i := Nat.ne_of_lt hup.lt
  have hxy : InOrder before a i above := inOrder_of_getElem? hi habove (hb.asymm hbefore)
  constructor
  · intro p j hpj hj
    refine inOrder_swap hi habove ?_
    unfold exchanged
    by_cases hji : j = i
    · -- The two entries themselves.
      obtain rfl : above = p := by rw [← hup.2, ← hpj.2, hji]
      simpa [hji, hne] using hxy
    · by_cases hpi : p = i
      · -- What was below the risen entry is now below the one that was above it.
        rw [hpi] at hpj
        simpa [hpi, hji, hj, hne] using h.around above j hup hpj
      · by_cases hpa : p = above
        · -- The sibling was in order with the entry above, which the risen entry comes before.
          rw [hpa] at hpj
          simpa [hpa, hne, hji, hj] using hxy.trans hb habove (h.others above j hpj hji)
        · simpa [hpi, hpa, hji, hj] using h.others p j hpj hji
  · intro p j hpa haj
    have hp : p ≠ above := Nat.ne_of_lt hpa.lt
    have hpi : p ≠ i := Nat.ne_of_lt (Nat.lt_trans hpa.lt hup.lt)
    have hja : j ≠ above := Nat.ne_of_gt haj.lt
    have hover : InOrder before a p above := h.others p above hpa hne
    refine inOrder_swap hi habove ?_
    unfold exchanged
    by_cases hji : j = i
    · simpa [hji, hp, hpi] using hover
    · simpa [hp, hpi, hji, hja] using hover.trans hb habove (h.others above j haj hji)

theorem ordered_rise (hb : Ranks before) (fuel i : Nat) (a : Array β) (hfuel : i ≤ fuel)
    (h : Rising before a i) : ArrayOrdered before (rise before fuel i a) := by
  induction fuel generalizing i a with
  | zero =>
    -- There is no place above the front.
    intro p j hpj
    exact h.others p j hpj (Nat.ne_of_gt (Nat.lt_of_le_of_lt hfuel hpj.1))
  | succ fuel ih =>
    -- Where the entry stays, it does not come before the one above it.
    have hstay : (∀ p, Below p i → InOrder before a p i) → ArrayOrdered before a := by
      intro hup p j hpj
      by_cases hji : j = i
      · exact hji ▸ hup p (hji ▸ hpj)
      · exact h.others p j hpj hji
    unfold rise
    dsimp only
    split
    · next x y hi habove =>
      split
      · next hbefore =>
        have hpos : 0 < i := by
          rcases Nat.eq_zero_or_pos i with rfl | hpos
          · obtain rfl : x = y := Option.some.inj (hi.symm.trans habove)
            rw [hb.irrefl] at hbefore
            cases hbefore
          · exact hpos
        exact ih _ _ (by omega) (h.swap hb ⟨hpos, rfl⟩ hi habove hbefore)
      · next hbefore =>
        refine hstay fun p hp => ?_
        rw [← hp.2]
        exact inOrder_of_getElem? habove hi (by simpa using hbefore)
    · next hmissing =>
      refine hstay fun p hp u v hu hv => ?_
      rw [← hp.2] at hu
      exact absurd hu (hmissing v u hv)

/-! ## Entries on their way down -/

/-- Nothing is known of the entry at place `i`. -/
structure Sinking (before : β → β → Bool) (a : Array β) (i : Nat) : Prop where
  others : ∀ p j, Below p j → p ≠ i → j ≠ i → InOrder before a p j
  around : ∀ p j, Below p i → Below i j → InOrder before a p j

theorem below?_eq_none {i : Nat} (h : below? before a i = none) (j : Nat) (hj : Below i j) :
    a[j]? = none := by
  unfold below? at h
  split at h
  · next hleft =>
    refine Array.getElem?_eq_none (Nat.le_trans (Array.getElem?_eq_none_iff.1 hleft) ?_)
    rcases below_iff.1 hj with rfl | rfl <;> omega
  · cases h
  · cases h

/-- The place to move up from is one of the two, and the entry at the other does not come first. -/
theorem below?_eq_some (hb : Ranks before) {i k : Nat} (h : below? before a i = some k) :
    Below i k ∧ (∃ x, a[k]? = some x) ∧ ∀ j, Below i j → InOrder before a k j := by
  have hself : InOrder before a k k := inOrder_self hb k
  unfold below? at h
  split at h
  · cases h
  · next x hleft hright =>
    cases h
    refine ⟨below_iff.2 (.inl rfl), ⟨x, hleft⟩, fun j hj => ?_⟩
    rcases below_iff.1 hj with rfl | rfl
    · exact hself
    · exact inOrder_of_none hright
  · next x y hleft hright =>
    cases hbefore : before x y with
    | true =>
      rw [hbefore] at h
      cases h
      refine ⟨below_iff.2 (.inl rfl), ⟨x, hleft⟩, fun j hj => ?_⟩
      rcases below_iff.1 hj with rfl | rfl
      · exact hself
      · exact inOrder_of_getElem? hleft hright (hb.asymm hbefore)
    | false =>
      rw [hbefore] at h
      cases h
      refine ⟨below_iff.2 (.inr rfl), ⟨y, hright⟩, fun j hj => ?_⟩
      rcases below_iff.1 hj with rfl | rfl
      · exact inOrder_of_getElem? hright hleft hbefore
      · exact hself

theorem Sinking.swap {i k : Nat} {x y : β} (h : Sinking before a i) (hdown : Below i k)
    (hleast : ∀ j, Below i j → InOrder before a k j) (hi : a[i]? = some x)
    (hk : a[k]? = some y) : Sinking before (a.swapIfInBounds i k) k := by
  have hne : i ≠ k := Nat.ne_of_lt hdown.lt
  constructor
  · intro p j hpj hp hj
    refine inOrder_swap hi hk ?_
    unfold exchanged
    by_cases hji : j = i
    · -- The entry that moves up was in order with the one two places up.
      rw [hji] at hpj
      have hpi : p ≠ i := Nat.ne_of_lt hpj.lt
      simpa [hji, hpi, hp] using h.around p k hpj hdown
    · by_cases hpi : p = i
      · -- Its sibling does not come before it.
        rw [hpi] at hpj
        simpa [hpi, hji, hj] using hleast j hpj
      · simpa [hpi, hp, hji, hj] using h.others p j hpj hpi hji
  · intro p j hpk hkj
    obtain rfl : i = p := hdown.2.symm.trans hpk.2
    have hjk : j ≠ k := Nat.ne_of_gt hkj.lt
    have hji : j ≠ i := Nat.ne_of_gt (Nat.lt_trans hdown.lt hkj.lt)
    refine inOrder_swap hi hk ?_
    unfold exchanged
    simpa [hji, hjk] using h.others k j hkj (Ne.symm hne) hji

/-- Where nothing is below, an entry can only be out of order with the one above it. -/
theorem Sinking.rising {i : Nat} (h : Sinking before a i)
    (hnone : ∀ j, Below i j → a[j]? = none) : Rising before a i := by
  have hbelow : ∀ p j, Below i j → InOrder before a p j :=
    fun p j hj => inOrder_of_none (hnone j hj)
  constructor
  · intro p j hpj hji
    by_cases hpi : p = i
    · exact hbelow p j (hpi ▸ hpj)
    · exact h.others p j hpj hpi hji
  · intro p j _ hij
    exact hbelow p j hij

theorem ordered_sink (hb : Ranks before) (fuel i : Nat) (a : Array β) (hfuel : a.size ≤ fuel + i)
    (h : Sinking before a i) : ArrayOrdered before (sink before fuel i a) := by
  induction fuel generalizing i a with
  | zero =>
    refine ordered_rise hb i i a (Nat.le_refl i) (h.rising fun j hj => ?_)
    have := hj.lt
    exact Array.getElem?_eq_none (by omega)
  | succ fuel ih =>
    unfold sink
    split
    · next hnone => exact ordered_rise hb i i a (Nat.le_refl i) (h.rising (below?_eq_none hnone))
    · next k hsome =>
      obtain ⟨hdown, ⟨y, hk⟩, hleast⟩ := below?_eq_some hb hsome
      have hlt := hdown.lt
      obtain ⟨hksize, -⟩ := Array.getElem?_eq_some_iff.1 hk
      have hi : a[i]? = some a[i] := Array.getElem?_eq_getElem (Nat.lt_trans hlt hksize)
      refine ih _ _ ?_ (h.swap hdown hleast hi hk)
      rw [Array.size_swapIfInBounds]
      omega

/-! ## Heaps -/

/-- An ordered heap has an entry at its front that no other comes before. -/
def Ordered (h : Heap β before) : Prop := ArrayOrdered before h.entries

theorem ordered_empty : (∅ : Heap β before).Ordered := by
  intro i j _ x y hx _
  cases hx

theorem Ordered.push (hb : Ranks before) {h : Heap β before} (ho : h.Ordered) (x : β) :
    (h.push x).Ordered := by
  refine ordered_rise hb _ _ _ (Nat.le_refl _) ⟨fun p j hpj hj u v hu hv => ?_, ?_⟩
  · have hp := hpj.lt
    obtain ⟨hlt, -⟩ := Array.getElem?_eq_some_iff.1 hv
    rw [Array.size_push] at hlt
    rw [Array.getElem?_push, if_neg (by omega)] at hu hv
    exact ho p j hpj u v hu hv
  · intro p j _ hj u v _ hv
    have hlt := hj.lt
    rw [Array.getElem?_eq_none (by rw [Array.size_push]; omega)] at hv
    cases hv

theorem Ordered.pop? (hb : Ranks before) {h rest : Heap β before} {x : β} (ho : h.Ordered)
    (hpop : h.pop? = some (x, rest)) : rest.Ordered := by
  unfold Heap.pop? at hpop
  split at hpop
  · cases hpop
  next front hfront =>
  cases hpop
  obtain ⟨hpos, -⟩ := Array.getElem?_eq_some_iff.1 hfront
  have hlast : h.entries[h.entries.size - 1]? = some h.entries[h.entries.size - 1] :=
    Array.getElem?_eq_getElem _
  -- Away from the front, entries are where they were.
  have hsame : ∀ k y, k ≠ 0 →
      (h.entries.swapIfInBounds 0 (h.entries.size - 1)).pop[k]? = some y →
        h.entries[k]? = some y := by
    intro k y hk hy
    rw [Array.getElem?_pop] at hy
    split at hy
    · next hlt =>
      rw [Array.size_swapIfInBounds] at hlt
      rw [getElem?_swap hfront hlast, exchanged, if_neg hk, if_neg (by omega)] at hy
      exact hy
    · cases hy
  refine ordered_sink hb _ 0 _ (by simp) ⟨fun p j hpj hp hj u v hu hv => ?_, ?_⟩
  · exact ho p j hpj u v (hsame p u hp hu) (hsame j v hj hv)
  · intro p j hp _
    exact absurd hp.lt (Nat.not_lt_zero _)

/-- **No entry comes before the one at the front.** -/
theorem Ordered.front (hb : Ranks before) {h rest : Heap β before} {x : β} (ho : h.Ordered)
    (hpop : h.pop? = some (x, rest)) : ∀ y ∈ h.toList, before y x = false := by
  intro y hy
  have hfront : h.entries[0]? = some x := by
    unfold Heap.pop? at hpop
    split at hpop
    · cases hpop
    next hfront =>
    cases hpop
    exact hfront
  obtain ⟨j, hj⟩ := List.getElem?_of_mem hy
  rw [toList, Array.getElem?_toList] at hj
  exact ArrayOrdered.front hb ho j x y hfront hj

end TransitMatching.Heap
