import Mathlib.Data.EReal.Inv
import TransitMatching.Proofs.Number.Real

/-!
# Exact arithmetic with infinities

No real is beyond all others, as the distance to a shape without points is to be. The
extended reals compute with reals as the reals do, and have an infinity.

* `IsReal`: an extended real that is a real.
* `scalarEReal`: the extended reals as numbers.
* `Scalar.magnitude_coe` and its like: what is computed from reals is what the reals give.
-/

namespace TransitMatching

noncomputable instance ofScientificEReal : OfScientific EReal where
  ofScientific mantissa negative exponent :=
    ((OfScientific.ofScientific mantissa negative exponent : ℝ) : EReal)

/-- An extended real that is a real. -/
def IsReal (x : EReal) : Prop := ∃ r : ℝ, (r : EReal) = x

theorem isReal_of_le_of_lt {a b : ℝ} {x : EReal} (ha : (a : EReal) ≤ x) (hb : x < (b : EReal)) :
    IsReal x := by
  have htop : x ≠ ⊤ := (hb.trans_le le_top).ne
  have hbot : x ≠ ⊥ := ((EReal.bot_lt_coe a).trans_le ha).ne'
  exact ⟨x.toReal, EReal.coe_toReal htop hbot⟩

open Classical in
noncomputable instance scalarEReal : Scalar EReal where
  ltDecidable := Classical.decRel _
  leDecidable := Classical.decRel _
  order := compare
  order_trans := inferInstance
  order_lawful := inferInstance
  number_of_le _ := ⟨le_refl _, le_refl _⟩
  le_trans := le_trans
  le_total _ _ := le_total _ _
  lt_iff := lt_iff_le_not_ge
  le_of_order h _ _ := by
    by_contra hne
    rw [compare_gt_iff_gt.2 (not_le.1 hne)] at h
    cases h
  magnitude x := max x (-x)
  hypot x y :=
    if IsReal x ∧ IsReal y then ((Real.sqrt (x.toReal ^ 2 + y.toReal ^ 2) : ℝ) : EReal) else ⊤
  ceilNat x := ⌈x.toReal⌉₊
  epsilon := 0
  infinity := ⊤
  toFinite := id

namespace Scalar

theorem magnitude_coe (r : ℝ) : magnitude (r : EReal) = (|r| : ℝ) :=
  (EReal.coe_strictMono.monotone.map_max).symm

theorem hypot_coe (x y : ℝ) : hypot (x : EReal) y = (Real.sqrt (x ^ 2 + y ^ 2) : ℝ) :=
  if_pos ⟨⟨x, rfl⟩, ⟨y, rfl⟩⟩

theorem least_coe (x y : ℝ) : least (x : EReal) y = (min x y : ℝ) := by
  unfold least
  split
  · next hle => rw [min_eq_left (EReal.coe_le_coe_iff.1 hle)]
  · next hle =>
    rw [if_pos (show IsNumber (y : EReal) from le_rfl),
      min_eq_right (EReal.coe_le_coe_iff.1 (not_le.1 hle).le)]

theorem greatest_coe (x y : ℝ) : greatest (x : EReal) y = (max x y : ℝ) := by
  unfold greatest
  split
  · next hle => rw [max_eq_left (EReal.coe_le_coe_iff.1 hle)]
  · next hle =>
    rw [if_pos (show IsNumber (y : EReal) from le_rfl),
      max_eq_right (EReal.coe_le_coe_iff.1 (not_le.1 hle).le)]

theorem ceilNat_coe (x : ℝ) : ceilNat (x : EReal) = ⌈x⌉₊ := rfl

theorem same_coe_iff {x y : ℝ} : Same (x : EReal) y ↔ x = y := by
  constructor
  · exact fun hsame => EReal.coe_injective (le_antisymm hsame.1 hsame.2)
  · rintro rfl
    exact ⟨le_rfl, le_rfl⟩

/-- Where nothing is rounded, only what is equal differs by no more than rounding. -/
theorem magnitude_sub_le_epsilon_iff {x y : ℝ} :
    magnitude ((x : EReal) - y) ≤ epsilon ↔ x = y := by
  have hepsilon : (epsilon : EReal) = ((0 : ℝ) : EReal) := rfl
  rw [← EReal.coe_sub, magnitude_coe, hepsilon, EReal.coe_le_coe_iff, abs_nonpos_iff, sub_eq_zero]

end Scalar

end TransitMatching
