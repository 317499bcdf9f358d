import Mathlib.Analysis.Real.Sqrt
import TransitMatching.Proofs.Number.Order

/-!
# Exact arithmetic

The reals are numbers in which everything is computed exactly. All of them are
numbers, and they are sorted as they compare.
-/

namespace TransitMatching

noncomputable instance scalarReal : Scalar ℝ where
  ltDecidable := Classical.decRel _
  leDecidable := Classical.decRel _
  order := compare
  order_trans := inferInstance
  order_lawful := inferInstance
  number_of_le _ := ⟨le_refl _, le_refl _⟩
  le_trans := le_trans
  le_total _ _ := le_total _ _
  lt_iff := lt_iff_le_not_ge
  le_of_order h _ _ := by
    by_contra hne
    rw [compare_gt_iff_gt.2 (not_le.1 hne)] at h
    cases h
  magnitude := abs
  hypot x y := Real.sqrt (x ^ 2 + y ^ 2)
  ceilNat := Nat.ceil
  epsilon := 0
  infinity := 0
  toFinite := id

/-- Sums of reals are as they are taken to be. -/
theorem monotoneSum_real : Scalar.MonotoneSum ℝ where
  add_le_add _ _ hab := add_le_add_left hab _
  le_add _ hc := le_add_of_nonneg_right hc

end TransitMatching
