import TransitMatching.Proofs.Outcome
import TransitMatching.Settings.Validation

/-!
# What is checked of settings

Settings pass their checks exactly if every quantity lies in its range. Each check has
a lemma that says which range it is.

* `BiasProfile.validate_graded_iff`, `BiasProfile.validate_simple_iff`: the profiles of a
  bias.
* `CostSettings.validate_iff`: the settings of link costs.
* `Settings.validate_iff`: **settings that pass.**
-/

namespace TransitMatching

variable {α : Type} [Scalar α]

theorem requirePositive_iff {quantity : Quantity} {value : α} :
    requirePositive quantity value = .ok () ↔ 0 < value := by
  unfold requirePositive
  split
  · next hpos => exact iff_of_true rfl hpos
  · next hneg => exact iff_of_false nofun hneg

theorem requireNonNegative_iff {quantity : Quantity} {value : α} :
    requireNonNegative quantity value = .ok () ↔ 0 ≤ value := by
  unfold requireNonNegative
  split
  · next hle => exact iff_of_true rfl hle
  · next hneg => exact iff_of_false nofun hneg

namespace BiasProfile

theorem validate_graded_iff {nearDistance farDistance nearFactor farFactor : α} :
    (graded nearDistance farDistance nearFactor farFactor).validate = .ok () ↔
      0 < nearFactor ∧ 0 < farFactor ∧ 0 ≤ nearDistance ∧ 0 < farDistance - nearDistance := by
  unfold validate
  rw [andThen_eq_ok_iff, andThen_eq_ok_iff, andThen_eq_ok_iff, requirePositive_iff,
    requirePositive_iff, requireNonNegative_iff, requirePositive_iff]

theorem validate_simple_iff {nearDistance nearFactor : α} :
    (simple nearDistance nearFactor).validate = .ok () ↔ 0 < nearFactor ∧ 0 ≤ nearDistance := by
  unfold validate
  rw [andThen_eq_ok_iff, requirePositive_iff, requireNonNegative_iff]

end BiasProfile

theorem CostSettings.validate_iff {c : CostSettings α} :
    c.validate = .ok () ↔
      0 < c.osmFactor ∧ 0 ≤ c.uTurnPenalty ∧ 0 ≤ c.candidateDistanceWeight ∧
        ∀ profile ∈ c.shapeBias, profile.validate = .ok () := by
  unfold validate
  rw [andThen_eq_ok_iff, andThen_eq_ok_iff, andThen_eq_ok_iff, requirePositive_iff,
    requireNonNegative_iff, requireNonNegative_iff]
  cases c.shapeBias with
  | none => exact and_congr_right fun _ => and_congr_right fun _ =>
      and_congr_right fun _ => iff_of_true rfl nofun
  | some profile => simp

theorem ModeSettings.validate_iff {mode : Mode} {m : ModeSettings α} :
    m.validate mode = .ok () ↔
      0 ≤ m.maxDistance ∧ 0 ≤ m.tolerance ∧ (m.maxCount = 0 → m.artificialOnly = true) := by
  unfold validate
  split
  · next hdistance => exact iff_of_false nofun fun h => hdistance h.1
  split
  · next htolerance => exact iff_of_false nofun fun h => htolerance h.2.1
  split
  · next hcount => exact iff_of_false nofun fun h => hcount.2 (h.2.2 hcount.1)
  · next hdistance htolerance hcount =>
    refine iff_of_true rfl ⟨not_not.1 hdistance, not_not.1 htolerance, fun hzero => ?_⟩
    exact not_not.1 fun hsearched => hcount ⟨hzero, hsearched⟩

/-- **Settings pass** exactly if the radius is above zero, there is a worker, and the settings of
each mode and of the costs pass. -/
theorem Settings.validate_iff {s : Settings α} :
    s.validate = .ok () ↔
      0 < s.searchRadius ∧ s.threads ≠ 0 ∧
        (∀ mode m, s.mode? mode = some m → m.validate mode = .ok ()) ∧
        s.costs.validate = .ok () := by
  unfold validate
  split
  · next hradius => exact iff_of_false nofun fun h => hradius h.1
  split
  · next hthreads => exact iff_of_false nofun fun h => h.2.1 hthreads
  · next hradius hthreads =>
    rw [andThen_eq_ok_iff, forM_eq_ok_iff, Prod.forall, and_iff_right (not_not.1 hradius),
      and_iff_right hthreads]
    simp only [Std.TreeMap.mem_toList_iff_getElem?_eq_some, mode?]

/-- The settings of costs that were checked with all others. -/
theorem Settings.costs_of_validate {s : Settings α} (h : s.validate = .ok ()) :
    0 < s.costs.osmFactor ∧ 0 ≤ s.costs.uTurnPenalty ∧ 0 ≤ s.costs.candidateDistanceWeight ∧
      ∀ profile ∈ s.costs.shapeBias, profile.validate = .ok () :=
  CostSettings.validate_iff.1 (validate_iff.1 h).2.2.2

end TransitMatching
