/-!
# Lists in order

A list is sorted by inserting its elements one by one. Elements that compare as
equal keep their order.

* `sortBy_perm`: sorting only rearranges.
* `sortBy_sorted`: no element comes after one that is greater.
* `sortBy_of_sorted`: a list that is in order stays as it is.
* `sortBy_eq_of_perm`: where no two elements tie, there is one list in order.
* `leastBy?_mem`, `leastBy?_eq_none_iff`: the least element is one of the list.
* `leastBy?_isLE`: no element of the list is less than it.
-/

namespace TransitMatching

variable {β : Type}

/-- Inserts an element before the first one that is not less. -/
def insertBy (cmp : β → β → Ordering) (a : β) : List β → List β
  | [] => [a]
  | b :: rest => if (cmp a b).isLE then a :: b :: rest else b :: insertBy cmp a rest

/-- The elements of a list in ascending order. -/
def sortBy (cmp : β → β → Ordering) : List β → List β
  | [] => []
  | a :: rest => insertBy cmp a (sortBy cmp rest)

/-- The first element of a list that no other is less than. -/
def leastBy? (cmp : β → β → Ordering) : List β → Option β
  | [] => none
  | a :: rest => some (rest.foldl (fun least b => if cmp b least = .lt then b else least) a)

theorem insertBy_perm (cmp : β → β → Ordering) (a : β) (l : List β) :
    (insertBy cmp a l).Perm (a :: l) := by
  induction l with
  | nil => exact .refl _
  | cons b rest ih =>
    unfold insertBy
    split
    · exact .refl _
    · exact (ih.cons b).trans (.swap a b rest)

theorem sortBy_perm (cmp : β → β → Ordering) (l : List β) : (sortBy cmp l).Perm l := by
  induction l with
  | nil => exact .refl _
  | cons a rest ih => exact (insertBy_perm cmp a _).trans (ih.cons a)

@[simp]
theorem mem_sortBy {cmp : β → β → Ordering} {a : β} {l : List β} : a ∈ sortBy cmp l ↔ a ∈ l :=
  (sortBy_perm cmp l).mem_iff

/-- A list that is in order stays as it is. -/
theorem sortBy_of_sorted {cmp : β → β → Ordering} {l : List β}
    (h : l.Pairwise fun x y => (cmp x y).isLE) : sortBy cmp l = l := by
  induction l with
  | nil => rfl
  | cons a rest ih =>
    obtain ⟨hle, hrest⟩ := List.pairwise_cons.1 h
    unfold sortBy
    rw [ih hrest]
    cases rest with
    | nil => rfl
    | cons b rest => exact if_pos (hle b List.mem_cons_self)

theorem leastBy?_mem {cmp : β → β → Ordering} {l : List β} {a : β}
    (h : leastBy? cmp l = some a) : a ∈ l := by
  cases l with
  | nil => cases h
  | cons b rest =>
    obtain rfl := Option.some.inj h
    clear h
    -- The fold gives back what it starts with or an element that it comes across.
    induction rest generalizing b with
    | nil => exact List.mem_cons_self
    | cons c rest ih =>
      rw [List.foldl_cons]
      rcases List.mem_cons.1 (ih (if cmp c b = .lt then c else b)) with h | h
      · rw [h]
        split
        · exact List.mem_cons_of_mem _ List.mem_cons_self
        · exact List.mem_cons_self
      · exact List.mem_cons_of_mem _ (List.mem_cons_of_mem _ h)

theorem leastBy?_eq_none_iff {cmp : β → β → Ordering} {l : List β} :
    leastBy? cmp l = none ↔ l = [] := by
  cases l <;> simp [leastBy?]

variable {cmp : β → β → Ordering} [Std.TransCmp cmp]

theorem insertBy_sorted (a : β) {l : List β} (h : l.Pairwise fun x y => (cmp x y).isLE) :
    (insertBy cmp a l).Pairwise fun x y => (cmp x y).isLE := by
  induction l with
  | nil => simp [insertBy]
  | cons b rest ih =>
    rw [List.pairwise_cons] at h
    unfold insertBy
    split
    · next le =>
      refine List.pairwise_cons.2 ⟨fun c hc => ?_, List.pairwise_cons.2 h⟩
      rcases List.mem_cons.1 hc with rfl | hc
      · exact le
      · exact Std.TransCmp.isLE_trans le (h.1 c hc)
    · next nle =>
      refine List.pairwise_cons.2 ⟨fun c hc => ?_, ih h.2⟩
      rcases List.mem_cons.1 ((insertBy_perm cmp a rest).mem_iff.1 hc) with rfl | hc
      · have swap : cmp b c = (cmp c b).swap := Std.OrientedCmp.eq_swap
        rw [swap]
        cases hcmp : cmp c b <;> simp_all
      · exact h.1 c hc

theorem sortBy_sorted (l : List β) : (sortBy cmp l).Pairwise fun x y => (cmp x y).isLE := by
  induction l with
  | nil => exact .nil
  | cons a rest ih => exact insertBy_sorted a ih

/-- A list in order is what sorting its elements gives, if no two of them tie. -/
theorem sortBy_eq_of_perm {l l' : List β}
    (hties : ∀ a b, (cmp a b).isLE → (cmp b a).isLE → a = b) (hperm : l.Perm l')
    (hsorted : l'.Pairwise fun x y => (cmp x y).isLE) : sortBy cmp l = l' :=
  List.Perm.eq_of_pairwise (fun a b _ _ => hties a b) (sortBy_sorted l) hsorted
    ((sortBy_perm cmp l).trans hperm)

theorem isLE_of_ne_lt {a b : β} (h : cmp b a ≠ .lt) : (cmp a b).isLE := by
  have hswap : cmp a b = (cmp b a).swap := Std.OrientedCmp.eq_swap
  rw [hswap]
  cases hcmp : cmp b a with
  | lt => exact absurd hcmp h
  | eq => rfl
  | gt => rfl

theorem leastBy?_isLE {l : List β} {a : β} (h : leastBy? cmp l = some a) :
    ∀ b ∈ l, (cmp a b).isLE := by
  cases l with
  | nil => cases h
  | cons c rest =>
    obtain rfl := Option.some.inj h
    clear h
    induction rest generalizing c with
    | nil =>
      intro b hb
      obtain rfl := List.mem_singleton.1 hb
      exact Std.ReflCmp.isLE_rfl
    | cons d rest ih =>
      -- What the fold goes on with is not greater than either of the first two.
      have hless : (cmp (if cmp d c = .lt then d else c) c).isLE ∧
          (cmp (if cmp d c = .lt then d else c) d).isLE := by
        split
        · next hlt => exact ⟨by rw [hlt]; rfl, Std.ReflCmp.isLE_rfl⟩
        · next hne => exact ⟨Std.ReflCmp.isLE_rfl, isLE_of_ne_lt hne⟩
      obtain ⟨hfirst, hleast⟩ := List.forall_mem_cons.1 (ih (if cmp d c = .lt then d else c))
      rw [List.foldl_cons]
      exact List.forall_mem_cons.2 ⟨Std.TransCmp.isLE_trans hfirst hless.1,
        List.forall_mem_cons.2 ⟨Std.TransCmp.isLE_trans hfirst hless.2, hleast⟩⟩

end TransitMatching
