/-!
# Heaps

A heap keeps its entries in an array. The entries below place `i` are at places
`2 * i + 1` and `2 * i + 2`, and none of them comes before the entry at `i`, so
no entry comes before the one at the front.

* `push_perm`: a push adds one entry.
* `pop?_perm`: a pop takes one entry away.
* `pop?_eq_none_iff`: only the empty heap has nothing to pop.
-/

namespace TransitMatching

/-- Entries of which one that no other comes before is at hand. -/
structure Heap (β : Type) (before : β → β → Bool) where
  entries : Array β := #[]

namespace Heap

variable {β : Type}

/-- Moves the entry at a place up, as long as it comes before the one above it. The place is fuel
enough. -/
def rise (before : β → β → Bool) : Nat → Nat → Array β → Array β
  | 0, _, a => a
  | fuel + 1, i, a =>
    let above := (i - 1) / 2
    match a[i]?, a[above]? with
    | some x, some y =>
      if before x y then rise before fuel above (a.swapIfInBounds i above) else a
    | _, _ => a

/-- The place below another from which an entry is to move up. Of two places it is the left one
only if its entry comes before the other. -/
def below? (before : β → β → Bool) (a : Array β) (i : Nat) : Option Nat :=
  match a[2 * i + 1]?, a[2 * i + 2]? with
  | none, _ => none
  | some _, none => some (2 * i + 1)
  | some x, some y => some (if before x y then 2 * i + 1 else 2 * i + 2)

/-- Moves the entry at a place down until nothing is below it, and from there up to where it
belongs. -/
def sink (before : β → β → Bool) : Nat → Nat → Array β → Array β
  | 0, i, a => rise before i i a
  | fuel + 1, i, a =>
    match below? before a i with
    | none => rise before i i a
    | some j => sink before fuel j (a.swapIfInBounds i j)

variable {before : β → β → Bool}

/-- The heap without entries. -/
def empty : Heap β before := {}

instance : EmptyCollection (Heap β before) := ⟨empty⟩

/-- The entries from the front on. -/
def toList (h : Heap β before) : List β := h.entries.toList

/-- Adds an entry. -/
def push (h : Heap β before) (x : β) : Heap β before :=
  let last := h.entries.size
  ⟨rise before last last (h.entries.push x)⟩

/-- The entry at the front, and the heap without it. The last entry takes its place and sinks. -/
def pop? (h : Heap β before) : Option (β × Heap β before) :=
  match h.entries[0]? with
  | none => none
  | some x =>
    -- The entry to be taken away goes to the end, where it can be dropped.
    let rest := (h.entries.swapIfInBounds 0 (h.entries.size - 1)).pop
    some (x, ⟨sink before rest.size 0 rest⟩)

theorem swapIfInBounds_perm (a : Array β) (i j : Nat) : (a.swapIfInBounds i j).Perm a := by
  unfold Array.swapIfInBounds
  split
  · split
    · exact Array.swap_perm _ _
    · exact .refl _
  · exact .refl _

theorem rise_perm (fuel i : Nat) (a : Array β) : (rise before fuel i a).Perm a := by
  induction fuel generalizing i a with
  | zero => exact .refl _
  | succ fuel ih =>
    unfold rise
    dsimp only
    split
    · split
      · exact (ih _ _).trans (swapIfInBounds_perm _ _ _)
      · exact .refl _
    · exact .refl _

theorem sink_perm (fuel i : Nat) (a : Array β) : (sink before fuel i a).Perm a := by
  induction fuel generalizing i a with
  | zero => exact rise_perm _ _ _
  | succ fuel ih =>
    unfold sink
    split
    · exact rise_perm _ _ _
    · exact (ih _ _).trans (swapIfInBounds_perm _ _ _)

@[simp]
theorem toList_empty : (∅ : Heap β before).toList = [] := rfl

theorem push_perm (h : Heap β before) (x : β) : (h.push x).toList.Perm (x :: h.toList) := by
  have p := (@rise_perm β before h.entries.size h.entries.size (h.entries.push x)).toList
  rw [Array.toList_push] at p
  exact p.trans (List.perm_append_singleton x _)

theorem pop?_eq_none_iff (h : Heap β before) : h.pop? = none ↔ h.toList = [] := by
  unfold pop? toList
  cases e : h.entries[0]? with
  | none => simpa using e
  | some x =>
    have ne : h.entries.toList ≠ [] := by
      rintro eq
      rw [← Array.getElem?_toList, eq] at e
      cases e
    simp [ne]

theorem cons_pop_perm {a : Array β} {x : β} (pos : 0 < a.size) (last : a[a.size - 1] = x) :
    (x :: a.pop.toList).Perm a.toList := by
  have ne : a.toList ≠ [] := List.ne_nil_of_length_pos (by simpa using pos)
  have e := List.dropLast_concat_getLast ne
  rw [List.getLast_eq_getElem] at e
  simp only [Array.length_toList, Array.getElem_toList, last] at e
  rw [Array.toList_pop]
  exact (List.perm_append_singleton x _).symm.trans (.of_eq e)

theorem pop?_perm {h rest : Heap β before} {x : β} (e : h.pop? = some (x, rest)) :
    h.toList.Perm (x :: rest.toList) := by
  unfold pop? at e
  split at e
  · cases e
  · next y front =>
    obtain ⟨lt, front⟩ := Array.getElem?_eq_some_iff.1 front
    have sub : h.entries.size - 1 < h.entries.size := by omega
    rw [Array.swapIfInBounds_def, dif_pos lt, dif_pos sub] at e
    cases e
    have p := fun fuel => (@sink_perm β before fuel 0
      (h.entries.swap 0 (h.entries.size - 1) lt sub).pop).toList
    have q := cons_pop_perm (a := h.entries.swap 0 (h.entries.size - 1) lt sub) (x := x)
      (by simpa using lt) (by simp [front])
    exact (Array.swap_perm lt sub).toList.symm.trans (q.symm.trans ((p _).symm.cons x))

end Heap

end TransitMatching
