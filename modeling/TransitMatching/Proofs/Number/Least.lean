import Mathlib.Tactic.SplitIfs
import TransitMatching.Proofs.Number.Order

/-!
# The least number of a list

* `mem_of_least?`, `le_of_least?`: it is in the list, and no number of the list is less.
* `exists_least?`: a list that holds a number has one.
-/

namespace TransitMatching.Scalar

variable {α : Type} [Scalar α] {a b m : α} {l : List α}

theorem least_eq_or (a b : α) : least a b = a ∨ least a b = b := by
  unfold least
  split_ifs <;> simp

theorem least_le (ha : IsNumber a) (hb : IsNumber b) : least a b ≤ a ∧ least a b ≤ b := by
  unfold least
  by_cases h : a ≤ b
  · rw [if_pos h]
    exact ⟨ha, h⟩
  · rw [if_neg h, if_pos hb]
    exact ⟨le_of_lt (lt_of_not_le ha hb h), hb⟩

theorem foldl_least_mem (rest : List α) (a : α) : rest.foldl least a ∈ a :: rest := by
  induction rest generalizing a with
  | nil => exact List.mem_cons_self
  | cons b rest ih =>
    rw [List.foldl_cons]
    rcases List.mem_cons.1 (ih (least a b)) with heq | hmem
    · rw [heq]
      rcases least_eq_or a b with hab | hab <;> simp [hab]
    · exact List.mem_cons_of_mem _ (List.mem_cons_of_mem _ hmem)

theorem foldl_least_le {rest : List α} (ha : IsNumber a) (hrest : ∀ b ∈ rest, IsNumber b) :
    ∀ b ∈ a :: rest, rest.foldl least a ≤ b := by
  induction rest generalizing a with
  | nil =>
    intro b hb
    obtain rfl := List.mem_singleton.1 hb
    exact ha
  | cons c rest ih =>
    have hc := hrest c List.mem_cons_self
    obtain ⟨hleft, hright⟩ := least_le ha hc
    have hle := ih (number_of_le hleft).1 fun b hb => hrest b (List.mem_cons_of_mem c hb)
    have hfold := hle _ List.mem_cons_self
    rw [List.foldl_cons]
    intro b hb
    rcases List.mem_cons.1 hb with rfl | hb
    · exact le_trans hfold hleft
    rcases List.mem_cons.1 hb with rfl | hb
    · exact le_trans hfold hright
    · exact hle b (List.mem_cons_of_mem _ hb)

theorem mem_of_least? (h : least? l = some m) : m ∈ l := by
  unfold least? at h
  split at h
  · cases h
  · next a rest hfilter =>
    obtain rfl := Option.some.inj h
    exact (List.mem_filter.1 (hfilter ▸ foldl_least_mem rest a)).1

theorem le_of_least? (h : least? l = some m) (ha : a ∈ l) (hnumber : IsNumber a) : m ≤ a := by
  unfold least? at h
  split at h
  · cases h
  · next b rest hfilter =>
    have hall (c : α) (hc : c ∈ b :: rest) : IsNumber c := by
      rw [← hfilter] at hc
      exact of_decide_eq_true (List.mem_filter.1 hc).2
    obtain rfl := Option.some.inj h
    refine foldl_least_le (hall b List.mem_cons_self)
      (fun c hc => hall c (List.mem_cons_of_mem b hc)) a ?_
    rw [← hfilter]
    exact List.mem_filter.2 ⟨ha, decide_eq_true hnumber⟩

theorem exists_least? (ha : a ∈ l) (hnumber : IsNumber a) : ∃ m, least? l = some m := by
  have hfilter : a ∈ l.filter fun a => decide (IsNumber a) :=
    List.mem_filter.2 ⟨ha, decide_eq_true hnumber⟩
  unfold least?
  split
  · next hnil => cases hnil ▸ hfilter
  · exact ⟨_, rfl⟩

end TransitMatching.Scalar
