import Mathlib.Data.List.Basic
import Mathlib.Data.List.Flatten
import Mathlib.Data.List.Induction
import Mathlib.Data.List.Infix
import TransitMatching.Proofs.Network.Nearby
import TransitMatching.Proofs.Number.Product

/-!
# What a bounded search admits

A bounded search goes through the buckets from the nearest one on, and fixes its soft
cutoff on the way, with the bucket that makes up the number of links asked for. What it
admits can be told from all buckets at once: a bucket is in if it is within the greatest
distance and, unless the links are still too few before it, within the soft cutoff.

* `Buckets.reach?_append`: where the number is reached is decided by the buckets up to there.
* `SearchBounds.admittedFrom_eq_takeWhile`: the search admits the buckets that are allowed,
  up to the first one that is not.
* `SearchBounds.Allows.of_lt`: what is nearer than an allowed bucket is allowed.
* `Buckets.admitted_allowed`: **a bounded search admits the allowed buckets**, whole and
  from the front.
* `Buckets.admitted_prefix_of_looser`: **looser bounds never lose a link**.
-/

namespace TransitMatching

variable {α : Type} [Scalar α]

/-! ## How many links come before a distance -/

namespace Buckets

/-- Buckets in the order of their distances. -/
def Ascending (buckets : List (α × List LinkIx)) : Prop :=
  buckets.Pairwise fun a b => Scalar.order a.1 b.1 = .lt

omit [Scalar α] in
/-- The number of links in buckets. -/
def linkCount (buckets : List (α × List LinkIx)) : Nat := (buckets.flatMap Prod.snd).length

/-- The buckets that are nearer than a distance. -/
def before (buckets : List (α × List LinkIx)) (d : α) : List (α × List LinkIx) :=
  buckets.filter fun e => Scalar.order e.1 d = .lt

/-- Whether the links of a bucket and of those nearer come up to a count. -/
def reaches (buckets : List (α × List LinkIx)) (count : Nat) (e : α × List LinkIx) : Bool :=
  decide (count ≤ linkCount (before buckets e.1) + e.2.length)

/-- The distance of the first bucket that brings the number of links up to a count. -/
def reach? (buckets : List (α × List LinkIx)) (count : Nat) : Option α :=
  (buckets.find? (reaches buckets count)).map Prod.fst

variable {front rest : List (α × List LinkIx)} {e : α × List LinkIx} {count : Nat}

omit [Scalar α] in
@[simp]
theorem linkCount_append : linkCount (front ++ rest) = linkCount front + linkCount rest := by
  simp [linkCount]

omit [Scalar α] in
@[simp]
theorem linkCount_singleton : linkCount [e] = e.2.length := by
  simp [linkCount]

omit [Scalar α] in
theorem linkCount_le_of_sublist (h : front.Sublist rest) : linkCount front ≤ linkCount rest :=
  (h.flatMap Prod.snd).length_le

theorem Ascending.of_append (h : Ascending (front ++ rest)) : Ascending front :=
  (List.pairwise_append.1 h).1

/-- The buckets nearer than one of them are those in front of it. -/
theorem before_append_cons (h : Ascending (front ++ e :: rest)) :
    before (front ++ e :: rest) e.1 = front := by
  obtain ⟨-, hback, hacross⟩ := List.pairwise_append.1 h
  have hfront : front.filter (fun x => Scalar.order x.1 e.1 = .lt) = front := by
    refine List.filter_eq_self.2 fun x hx => ?_
    exact decide_eq_true (hacross x hx e List.mem_cons_self)
  have hrest : (e :: rest).filter (fun x => Scalar.order x.1 e.1 = .lt) = [] := by
    refine List.filter_eq_nil_iff.2 fun x hx => ?_
    have hself : Scalar.order e.1 e.1 = .eq := Std.ReflCmp.compare_self
    rcases List.mem_cons.1 hx with rfl | hx
    · simp [hself]
    · have hlt := (List.pairwise_cons.1 hback).1 x hx
      simp [Std.OrientedCmp.gt_of_lt hlt]
  rw [before, List.filter_append, hfront, hrest, List.append_nil]

/-- What is nearer than a bucket in front does not depend on the buckets behind. -/
theorem before_append_of_mem (h : Ascending (front ++ rest)) (he : e ∈ front) :
    before (front ++ rest) e.1 = before front e.1 := by
  have hrest : rest.filter (fun x => Scalar.order x.1 e.1 = .lt) = [] := by
    refine List.filter_eq_nil_iff.2 fun x hx => ?_
    have hlt := (List.pairwise_append.1 h).2.2 e he x hx
    simp [Std.OrientedCmp.gt_of_lt hlt]
  rw [before, List.filter_append, hrest, List.append_nil]
  rfl

/-- **Where a count is reached is decided by the buckets up to there.** -/
theorem reach?_append (h : Ascending (front ++ rest)) :
    reach? (front ++ rest) count =
      (reach? front count).or ((rest.find? (reaches (front ++ rest) count)).map Prod.fst) := by
  have hfront : front.find? (reaches (front ++ rest) count) =
      front.find? (reaches front count) := by
    rw [← List.head?_filter, ← List.head?_filter]
    congr 1
    refine List.filter_congr fun x hx => ?_
    rw [reaches, reaches, before_append_of_mem h hx]
  unfold reach?
  rw [List.find?_append, hfront, Option.map_or]

theorem reach?_concat (h : Ascending (front ++ [e])) :
    reach? (front ++ [e]) count = (reach? front count).or
      (if count ≤ linkCount front + e.2.length then some e.1 else none) := by
  rw [reach?_append h, List.find?_singleton, reaches, before_append_cons h]
  by_cases hcount : count ≤ linkCount front + e.2.length <;> simp [hcount]

/-- A count is reached if there are so many links. -/
theorem reach?_eq_none_iff (hcount : 1 ≤ count) (h : Ascending front) :
    reach? front count = none ↔ linkCount front < count := by
  -- By induction from the back, since the count is made up from the front.
  induction front using List.reverseRecOn with
  | nil =>
    have hnil : linkCount ([] : List (α × List LinkIx)) = 0 := rfl
    rw [hnil]
    exact iff_of_true rfl (by omega)
  | append_singleton front e ih =>
    rw [reach?_concat h, Option.or_eq_none_iff, ih h.of_append, linkCount_append,
      linkCount_singleton]
    split
    · next hreached => exact iff_of_false (fun hnone => by simp at hnone) (by omega)
    · next hshort => exact iff_of_true ⟨by omega, rfl⟩ (by omega)

/-- What reaches a count reaches every lesser one. -/
theorem reaches_of_le {count' : Nat} (hle : count ≤ count') (h : reaches front count' e = true) :
    reaches front count e = true := by
  unfold reaches at h ⊢
  rw [decide_eq_true_eq] at h ⊢
  omega

theorem exists_mem_of_reach? {far : α} (h : reach? front count = some far) :
    ∃ e ∈ front, reaches front count e = true ∧ e.1 = far := by
  obtain ⟨e, hfind, rfl⟩ := Option.map_eq_some_iff.1 h
  exact ⟨e, List.mem_of_find?_eq_some hfind, List.find?_some hfind, rfl⟩

/-- A greater count is not reached earlier. -/
theorem reach?_mono {count' : Nat} {far far' : α} (h : Ascending front) (hle : count ≤ count')
    (hfar : reach? front count = some far) (hfar' : reach? front count' = some far') :
    (Scalar.order far far').isLE = true := by
  obtain ⟨y, hmem, hcount', rfl⟩ := exists_mem_of_reach? hfar'
  obtain ⟨x, hx, rfl⟩ := Option.map_eq_some_iff.1 hfar
  obtain ⟨-, before, behind, rfl, hshort⟩ := List.find?_eq_some_iff_append.1 hx
  rcases List.mem_append.1 hmem with hy | hy
  · -- Before the first bucket that reaches the lesser count, none reaches the greater one.
    have hmissed := hshort y hy
    rw [reaches_of_le hle hcount'] at hmissed
    cases hmissed
  · rcases List.mem_cons.1 hy with rfl | hy
    · exact Std.ReflCmp.isLE_rfl
    · have hbehind := (List.pairwise_append.1 h).2.1
      exact Ordering.isLE_of_eq_lt ((List.pairwise_cons.1 hbehind).1 y hy)

end Buckets

/-! ## The search, told by the buckets that it has been through -/

namespace SearchBounds

open Buckets

/-- Whether a bucket at a distance is within both cutoffs. The soft one applies where enough links
are nearer, and is the distance at which there were enough, times the tolerance; a tolerance below
one counts as zero. -/
structure Allows (b : SearchBounds α) (buckets : List (α × List LinkIx)) (d : α) : Prop where
  hard : ¬ b.maxDistance < d
  soft : linkCount (before buckets d) < b.count ∨
    ∀ far ∈ reach? buckets b.count, ¬ far * (if b.tolerance < 1 then 0 else b.tolerance) < d

theorem allows_iff {b : SearchBounds α} {buckets : List (α × List LinkIx)} {d : α} :
    b.Allows buckets d ↔ ¬ b.maxDistance < d ∧ (linkCount (before buckets d) < b.count ∨
      ∀ far ∈ reach? buckets b.count, ¬ far * b.slack < d) :=
  ⟨fun h => ⟨h.hard, h.soft⟩, fun h => ⟨h.1, h.2⟩⟩

instance (b : SearchBounds α) (buckets : List (α × List LinkIx)) (d : α) :
    Decidable (b.Allows buckets d) :=
  decidable_of_iff' _ allows_iff

/-- The soft cutoff when buckets have been admitted. -/
def cutoff (b : SearchBounds α) (front : List (α × List LinkIx)) : Option α :=
  (reach? front b.count).map (· * b.slack)

variable {b : SearchBounds α} {front rest : List (α × List LinkIx)} {e : α × List LinkIx}

/-- The cutoff is set with the bucket that makes up the count, and stays. -/
theorem threshold_cutoff (h : Ascending (front ++ [e])) :
    b.threshold (b.cutoff front) (linkCount front + e.2.length) e.1 = b.cutoff (front ++ [e]) := by
  unfold threshold cutoff
  rw [reach?_concat h]
  cases hreach : reach? front b.count with
  | some far => rfl
  | none =>
    by_cases hcount : b.count ≤ linkCount front + e.2.length <;> simp [hcount]

/-- **A bucket ends the search if it is not allowed**, among all the buckets that there are. -/
theorem rejects_cutoff_iff (hcount : 1 ≤ b.count) (h : Ascending (front ++ e :: rest)) :
    b.rejects (b.cutoff front) e.1 = true ↔ ¬ b.Allows (front ++ e :: rest) e.1 := by
  have hnone := reach?_eq_none_iff hcount h.of_append
  unfold rejects cutoff
  rw [allows_iff, before_append_cons h, reach?_append h]
  cases hreach : reach? front b.count with
  | none =>
    -- The links in front are too few, so there is no soft cutoff yet.
    have hshort := hnone.1 hreach
    simp [hshort]
  | some far =>
    have henough : ¬ linkCount front < b.count := fun hshort => by
      rw [hnone.2 hshort] at hreach
      cases hreach
    simp [henough, or_iff_not_imp_left]

/-- **The search admits allowed buckets up to the first that is not.** -/
theorem admittedFrom_eq_takeWhile (hcount : 1 ≤ b.count) (h : Ascending (front ++ rest)) :
    b.admittedFrom (linkCount front) (b.cutoff front) rest =
      flatten (rest.takeWhile fun e => decide (b.Allows (front ++ rest) e.1)) := by
  induction rest generalizing front with
  | nil => rfl
  | cons e rest ih =>
    have hmove : front ++ e :: rest = (front ++ [e]) ++ rest := by simp
    have hends := rejects_cutoff_iff hcount h
    unfold admittedFrom
    by_cases hallows : b.Allows (front ++ e :: rest) e.1
    · have hgoes : ¬ b.rejects (b.cutoff front) e.1 = true := fun hrejects =>
        hends.1 hrejects hallows
      have hnext : Ascending ((front ++ [e]) ++ rest) := hmove ▸ h
      have htail := ih hnext
      rw [linkCount_append, linkCount_singleton, ← threshold_cutoff hnext.of_append,
        ← hmove] at htail
      rw [if_neg hgoes, List.takeWhile_cons, if_pos (decide_eq_true hallows)]
      dsimp only
      rw [htail]
      rfl
    · have hstops : ¬ decide (b.Allows (front ++ e :: rest) e.1) = true := by simpa using hallows
      rw [if_pos (hends.2 hallows), List.takeWhile_cons, if_neg hstops]
      rfl

end SearchBounds

/-! ## Allowed buckets -/

/-- Taking elements while a test holds is filtering, if it does not hold again once it failed. -/
theorem takeWhile_eq_filter {β : Type} {p : β → Bool} {l : List β}
    (h : l.Pairwise fun x y => p y = true → p x = true) : l.takeWhile p = l.filter p := by
  induction l with
  | nil => rfl
  | cons a rest ih =>
    obtain ⟨hfirst, hrest⟩ := List.pairwise_cons.1 h
    by_cases ha : p a = true
    · rw [List.takeWhile_cons_of_pos ha, List.filter_cons_of_pos ha, ih hrest]
    · have hnil : rest.filter p = [] := by
        refine List.filter_eq_nil_iff.2 fun x hx hpx => ?_
        exact ha (hfirst x hx hpx)
      rw [List.takeWhile_cons_of_neg ha, List.filter_cons_of_neg ha, hnil]

namespace SearchBounds

open Buckets

variable {b : SearchBounds α} {buckets : List (α × List LinkIx)}

/-- **What is nearer than an allowed bucket is allowed.** -/
theorem Allows.of_lt {d far : α} (h : b.Allows buckets far) (hlt : Scalar.order d far = .lt)
    (hd : Scalar.IsNumber d) (hfar : Scalar.IsNumber far) : b.Allows buckets d := by
  have hle : d ≤ far := Scalar.le_of_order (Ordering.isLE_of_eq_lt hlt) hd hfar
  constructor
  · intro hbeyond
    exact h.hard (Scalar.lt_of_lt_of_le hbeyond hle)
  · rcases h.soft with hfew | hnear
    · -- No more links come before the nearer distance.
      left
      have hbefore : (before buckets d).Sublist (before buckets far) := by
        refine List.monotone_filter_right _ fun e he => ?_
        rw [decide_eq_true_eq] at he ⊢
        exact Std.TransCmp.lt_trans he hlt
      have hle := linkCount_le_of_sublist hbefore
      omega
    · right
      intro reached hreached hbeyond
      exact hnear reached hreached (Scalar.lt_of_lt_of_le hbeyond hle)

/-- The allowed ones of all buckets. -/
def allowed (b : SearchBounds α) (buckets : List (α × List LinkIx)) : List (α × List LinkIx) :=
  buckets.filter fun e => decide (b.Allows buckets e.1)

theorem takeWhile_eq_allowed (h : Ascending buckets)
    (hnumber : ∀ e ∈ buckets, Scalar.IsNumber e.1) :
    (buckets.takeWhile fun e => decide (b.Allows buckets e.1)) = b.allowed buckets := by
  refine takeWhile_eq_filter (h.imp_of_mem fun {x y} hx hy hlt hallows => ?_)
  rw [decide_eq_true_eq] at hallows ⊢
  exact hallows.of_lt hlt (hnumber x hx) (hnumber y hy)

/-- Allowed buckets come before all others. -/
theorem allowed_prefix (h : Ascending buckets) (hnumber : ∀ e ∈ buckets, Scalar.IsNumber e.1) :
    b.allowed buckets <+: buckets := by
  rw [← takeWhile_eq_allowed h hnumber]
  exact List.takeWhile_prefix _

end SearchBounds

namespace Buckets

theorem ascending_toList (buckets : Buckets α) : Ascending buckets.toList :=
  Std.TreeMap.ordered_keys_toList

theorem admitted_eq_flatten {b : SearchBounds α} {buckets : Buckets α} (hcount : 1 ≤ b.count)
    (hnumber : ∀ e ∈ buckets.toList, Scalar.IsNumber e.1) :
    buckets.admitted b = flatten (b.allowed buckets.toList) := by
  have hascending := ascending_toList buckets
  have hloop : b.admittedFrom 0 none buckets.toList =
      flatten (buckets.toList.takeWhile fun e => decide (b.Allows buckets.toList e.1)) :=
    @SearchBounds.admittedFrom_eq_takeWhile _ _ b [] buckets.toList hcount hascending
  rw [SearchBounds.takeWhile_eq_allowed hascending hnumber] at hloop
  exact hloop

/-- **A bounded search admits exactly the allowed buckets**, nearest first and each of them whole.
They are the first of all buckets, so no link is admitted behind one that is not. -/
theorem admitted_allowed (buckets : Buckets α) (b : SearchBounds α) (hcount : 1 ≤ b.count)
    (hnumber : ∀ e ∈ buckets.toList, Scalar.IsNumber e.1) :
    buckets.admitted b = flatten (b.allowed buckets.toList) ∧
      b.allowed buckets.toList <+: buckets.toList := by
  have hascending := ascending_toList buckets
  exact ⟨admitted_eq_flatten hcount hnumber, SearchBounds.allowed_prefix hascending hnumber⟩

/-- Links at five distances, at one of them none. -/
def scattered : Buckets Double :=
  ((((Buckets.add ∅ 5 [0, 3]).add 8 []).add 10 [2]).add 16 [6, 7]).add 20 [1]

/-- The third link is the one at 10, so links are admitted up to 16, and all of those that are just
there; with a tolerance below one, none beyond 10. -/
theorem admitted_allowed_scattered :
    let b : SearchBounds Double := ⟨100, 3, 1.6, 25⟩
    let b' : SearchBounds Double := ⟨100, 3, 0.5, 25⟩
    1 ≤ b.count ∧ (∀ e ∈ scattered.toList, Scalar.IsNumber e.1) ∧
      b.allowed scattered.toList = [(5, [0, 3]), (8, []), (10, [2]), (16, [6, 7])] ∧
      (scattered.admitted b = flatten (b.allowed scattered.toList) ∧
        b.allowed scattered.toList <+: scattered.toList) ∧
      b'.allowed scattered.toList = [(5, [0, 3]), (8, []), (10, [2])] ∧
      scattered.admitted b' = flatten (b'.allowed scattered.toList) ∧
        b'.allowed scattered.toList <+: scattered.toList := by
  intro b b'
  have hcount : 1 ≤ b.count := by decide
  have hnumber : ∀ e ∈ scattered.toList, Scalar.IsNumber e.1 := by decide +kernel
  exact ⟨hcount, hnumber, by decide +kernel, admitted_allowed scattered b hcount hnumber,
    by decide +kernel, admitted_allowed scattered b' hcount hnumber⟩

end Buckets

/-! ## Looser bounds -/

namespace SearchBounds

open Buckets

/-- The other bounds cut nothing off that these do not, as far as each of them goes. -/
structure Looser (b b' : SearchBounds α) : Prop where
  count : b.count ≤ b'.count
  tolerance : b.tolerance ≤ b'.tolerance
  maxDistance : b.maxDistance ≤ b'.maxDistance

variable {b b' : SearchBounds α} {buckets : List (α × List LinkIx)} {e : α × List LinkIx}

/-- A greater tolerance leaves no less slack. -/
theorem Looser.slack (h : b.Looser b') (hzero : 0 ≤ b.tolerance) :
    0 ≤ b.slack ∧ b.slack ≤ b'.slack ∧ b'.slack ≤ b'.tolerance := by
  have hle := h.tolerance
  have hself : b'.tolerance ≤ b'.tolerance := (Scalar.number_of_le hle).2
  have hnone : (0 : α) ≤ 0 := (Scalar.number_of_le hzero).1
  have hzero' := Scalar.le_trans hzero hle
  unfold SearchBounds.slack
  by_cases hsmall : b.tolerance < 1
  · rw [if_pos hsmall]
    split
    · exact ⟨hnone, hnone, hzero'⟩
    · exact ⟨hnone, hzero', hself⟩
  · have hlarge : ¬ b'.tolerance < 1 := fun hlt => hsmall (Scalar.lt_of_le_of_lt hle hlt)
    rw [if_neg hsmall, if_neg hlarge]
    exact ⟨hzero, hle, hself⟩

/-- **What tighter bounds allow, looser ones allow too.** -/
theorem Allows.looser (h : b.Allows buckets e.1) (hmul : Scalar.MonotoneProduct α)
    (hlooser : b.Looser b') (hcount : 1 ≤ b.count) (hzero : 0 ≤ b.tolerance)
    (htolerance : Scalar.BelowInfinity b'.tolerance)
    (hmax : Scalar.BelowInfinity b'.maxDistance) (hascending : Ascending buckets)
    (hdistance : ∀ e ∈ buckets, 0 ≤ e.1) (he : e ∈ buckets) : b'.Allows buckets e.1 := by
  obtain ⟨front, rest, rfl⟩ := List.append_of_mem he
  have hnumber : Scalar.IsNumber e.1 := (Scalar.number_of_le (hdistance e he)).2
  have hhard : ¬ b'.maxDistance < e.1 := fun hlt =>
    h.hard (Scalar.lt_of_le_of_lt hlooser.maxDistance hlt)
  refine ⟨hhard, ?_⟩
  have hfront := hascending.of_append
  have hless := hlooser.count
  have hsoft := h.soft
  rw [before_append_cons hascending] at hsoft ⊢
  by_cases hfew : linkCount front < b'.count
  · exact .inl hfew
  · right
    intro far' hfar' hbeyond
    -- Both counts are reached in front of the bucket, the lesser one no later.
    have hreached {count : Nat} (hone : 1 ≤ count) (hle : count ≤ b'.count) :
        ∃ far, reach? front count = some far ∧ reach? (front ++ e :: rest) count = some far := by
      cases hreach : reach? front count with
      | none =>
        have hshort := (reach?_eq_none_iff hone hfront).1 hreach
        omega
      | some far => exact ⟨far, rfl, by rw [reach?_append hascending, hreach, Option.some_or]⟩
    obtain ⟨far, hfar, hfarAll⟩ := hreached hcount hless
    obtain ⟨last, hlast, hlastAll⟩ := hreached (Nat.le_trans hcount hless) (Nat.le_refl _)
    obtain rfl : last = far' := Option.some.inj (hlastAll.symm.trans hfar')
    obtain ⟨x, hx, -, rfl⟩ := exists_mem_of_reach? hfar
    obtain ⟨y, hy, -, rfl⟩ := exists_mem_of_reach? hlast
    have hxzero := hdistance x (List.mem_append_left _ hx)
    have hyzero := hdistance y (List.mem_append_left _ hy)
    have hxy : x.1 ≤ y.1 := Scalar.le_of_order (reach?_mono hfront hless hfar hlast)
      (Scalar.number_of_le hxzero).2 (Scalar.number_of_le hyzero).2
    have hye : y.1 ≤ e.1 := by
      have hlt := (List.pairwise_append.1 hascending).2.2 y hy e List.mem_cons_self
      exact Scalar.le_of_order (Ordering.isLE_of_eq_lt hlt) (Scalar.number_of_le hyzero).2 hnumber
    have hbelow : Scalar.BelowInfinity y.1 := by
      have hemax : e.1 ≤ b'.maxDistance := Scalar.le_of_not_lt hmax.isNumber hnumber hhard
      exact hmax.of_le (Scalar.le_trans hye hemax)
    obtain ⟨hslackZero, hslack, hslackTolerance⟩ := hlooser.slack hzero
    have hproduct : x.1 * b.slack ≤ y.1 * b'.slack :=
      hmul.mul_le_mul hxzero hxy hbelow hslackZero hslack (htolerance.of_le hslackTolerance)
    rcases hsoft with hfewer | hnear
    · omega
    · exact hnear x.1 hfarAll (Scalar.lt_of_le_of_lt hproduct hbeyond)

end SearchBounds

namespace Buckets

/-- **Looser bounds never lose a link**: what is admitted within the tighter ones comes first. -/
theorem admitted_prefix_of_looser (hmul : Scalar.MonotoneProduct α) (buckets : Buckets α)
    (b b' : SearchBounds α) (hlooser : b.Looser b') (hcount : 1 ≤ b.count) (hzero : 0 ≤ b.tolerance)
    (htolerance : Scalar.BelowInfinity b'.tolerance)
    (hmax : Scalar.BelowInfinity b'.maxDistance) (hdistance : ∀ e ∈ buckets.toList, 0 ≤ e.1) :
    buckets.admitted b <+: buckets.admitted b' := by
  have hascending := ascending_toList buckets
  have hnumber : ∀ e ∈ buckets.toList, Scalar.IsNumber e.1 := fun e he =>
    (Scalar.number_of_le (hdistance e he)).2
  have hcount' : 1 ≤ b'.count := Nat.le_trans hcount hlooser.count
  have hlength : (b.allowed buckets.toList).length ≤ (b'.allowed buckets.toList).length := by
    unfold SearchBounds.allowed
    rw [← List.countP_eq_length_filter, ← List.countP_eq_length_filter]
    refine List.countP_mono_left fun e he hallows => ?_
    rw [decide_eq_true_eq] at hallows ⊢
    exact hallows.looser hmul hlooser hcount hzero htolerance hmax hascending hdistance he
  -- Both lists of buckets are the front of one list.
  have hprefix : b.allowed buckets.toList <+: b'.allowed buckets.toList :=
    List.prefix_of_prefix_length_le (SearchBounds.allowed_prefix hascending hnumber)
      (SearchBounds.allowed_prefix hascending hnumber) hlength
  rw [admitted_eq_flatten hcount hnumber, admitted_eq_flatten hcount' hnumber]
  exact hprefix.flatMap _

/-- One link and no slack, and three links with some: the cutoff moves from the first bucket to the
third. -/
theorem admitted_prefix_of_looser_scattered :
    let b : SearchBounds Double := ⟨100, 1, 0.5, 12⟩
    let b' : SearchBounds Double := ⟨100, 3, 1.6, 25⟩
    b.Looser b' ∧ 1 ≤ b.count ∧ 0 ≤ b.tolerance ∧ Scalar.BelowInfinity b'.tolerance ∧
      Scalar.BelowInfinity b'.maxDistance ∧ (∀ e ∈ scattered.toList, 0 ≤ e.1) ∧
      scattered.admitted b = [(0, 5), (3, 5)] ∧
      scattered.admitted b' = [(0, 5), (3, 5), (2, 10), (6, 16), (7, 16)] ∧
      scattered.admitted b <+: scattered.admitted b' := by
  intro b b'
  have hlooser : b.Looser b' := ⟨by decide, by decide +kernel, by decide +kernel⟩
  have hcount : 1 ≤ b.count := by decide
  have hzero : 0 ≤ b.tolerance := by decide +kernel
  have htolerance : Scalar.BelowInfinity b'.tolerance := ⟨1.6, by decide +kernel⟩
  have hmax : Scalar.BelowInfinity b'.maxDistance := ⟨25, by decide +kernel⟩
  have hdistance : ∀ e ∈ scattered.toList, 0 ≤ e.1 := by decide +kernel
  exact ⟨hlooser, hcount, hzero, htolerance, hmax, hdistance, by decide +kernel, by decide +kernel,
    admitted_prefix_of_looser Double.monotoneProduct scattered b b' hlooser hcount hzero htolerance
      hmax hdistance⟩

end Buckets

end TransitMatching
