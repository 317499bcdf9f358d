import Mathlib.Analysis.Convex.Segment
import Mathlib.Topology.Instances.EReal.Lemmas
import TransitMatching.Proofs.Number.Extended
import TransitMatching.Proofs.Settings.Validation

/-!
# The ramp of a graded bias

Between its two distances a graded bias goes from one factor to the other along a straight
line, and beyond them it stays as it is there. So it is the line, read at a distance that is
first cut to the ramp. That the two ends are compared in different ways does not show.

* `cut`: a distance cut to the ramp.
* `multiplier_graded`: the factor read off the line.
* `multiplier_ramps`: **a graded bias that was checked goes one way, between its two factors, and
  without a jump.**
-/

namespace TransitMatching.BiasProfile

variable {near far : ℝ}

/-! ## Distances cut to the ramp -/

/-- A distance cut to the ramp: what is nearer is put at its foot, what is further at its top. -/
noncomputable def cut (near far : ℝ) (d : EReal) : ℝ :=
  (max (near : EReal) (min (far : EReal) d)).toReal

theorem coe_cut (h : near ≤ far) (d : EReal) :
    (cut near far d : EReal) = max (near : EReal) (min (far : EReal) d) := by
  have hfar : max (near : EReal) (min (far : EReal) d) ≤ far :=
    max_le (EReal.coe_le_coe_iff.2 h) (min_le_left _ _)
  refine EReal.coe_toReal ?_ ?_
  · exact (hfar.trans_lt (EReal.coe_lt_top far)).ne
  · exact ((EReal.bot_lt_coe near).trans_le (le_max_left _ _)).ne'

theorem cut_coe (near far d : ℝ) : cut near far d = max near (min far d) := by
  unfold cut
  rw [← EReal.coe_strictMono.monotone.map_min, ← EReal.coe_strictMono.monotone.map_max,
    EReal.toReal_coe]

theorem near_le_cut (h : near ≤ far) (d : EReal) : near ≤ cut near far d := by
  rw [← EReal.coe_le_coe_iff, coe_cut h]
  exact le_max_left _ _

theorem cut_le_far (h : near ≤ far) (d : EReal) : cut near far d ≤ far := by
  rw [← EReal.coe_le_coe_iff, coe_cut h]
  exact max_le (EReal.coe_le_coe_iff.2 h) (min_le_left _ _)

theorem cut_of_le_near (h : near ≤ far) {d : EReal} (hd : d ≤ near) : cut near far d = near := by
  rw [← EReal.coe_eq_coe_iff, coe_cut h, max_eq_left ((min_le_right _ _).trans hd)]

theorem cut_of_far_le (h : near ≤ far) {d : EReal} (hd : far ≤ d) : cut near far d = far := by
  rw [← EReal.coe_eq_coe_iff, coe_cut h, min_eq_left hd, max_eq_right (EReal.coe_le_coe_iff.2 h)]

theorem cut_mono (h : near ≤ far) {d d' : EReal} (hd : d ≤ d') :
    cut near far d ≤ cut near far d' := by
  rw [← EReal.coe_le_coe_iff, coe_cut h, coe_cut h]
  exact max_le_max le_rfl (min_le_min le_rfl hd)

theorem continuous_cut (h : near ≤ far) : Continuous (cut near far) := by
  have hclamp : Continuous fun d : EReal => max (near : EReal) (min (far : EReal) d) :=
    continuous_const.max (continuous_const.min continuous_id)
  refine EReal.continuousOn_toReal.comp_continuous hclamp fun d => ?_
  rw [← coe_cut h]
  rintro (hbot | htop)
  · exact EReal.coe_ne_bot _ hbot
  · exact EReal.coe_ne_top _ htop

/-- Two distances are no further apart when they are cut. -/
theorem cut_sub_cut_le {d d' : ℝ} (hd : d ≤ d') : cut near far d' - cut near far d ≤ d' - d := by
  rw [cut_coe, cut_coe]
  have hmin : min far d' ≤ min far d + (d' - d) := by
    rw [← min_add_add_right]
    exact min_le_min (by linarith) (by linarith)
  have hmax : max near (min far d') ≤ max near (min far d) + (d' - d) :=
    max_le (by linarith [le_max_left near (min far d)])
      (by linarith [le_max_right near (min far d)])
  linarith

/-! ## The line -/

variable {nearFactor farFactor : ℝ}

/-- The line through the two ends of the ramp. -/
noncomputable def line (near far nearFactor farFactor d : ℝ) : ℝ :=
  nearFactor + (farFactor - nearFactor) * ((d - near) / (far - near))

theorem line_near (near far nearFactor farFactor : ℝ) :
    line near far nearFactor farFactor near = nearFactor := by
  rw [line, sub_self, zero_div, mul_zero, add_zero]

theorem line_far (h : near < far) : line near far nearFactor farFactor far = farFactor := by
  rw [line, div_self (sub_pos.2 h).ne', mul_one, add_sub_cancel]

/-- **The factor at a distance is read off the line**, at the distance cut to the ramp. -/
theorem multiplier_graded (h : near < far) (d : EReal) :
    (graded (near : EReal) far nearFactor farFactor).multiplier d =
      (line near far nearFactor farFactor (cut near far d) : EReal) := by
  rw [multiplier]
  split
  · next hnear => rw [cut_of_le_near h.le hnear.le, line_near]
  split
  · next hfar => rw [cut_of_far_le h.le hfar, line_far h]
  · next hnear hfar =>
    -- Between the ends nothing is cut.
    obtain ⟨d, rfl⟩ := isReal_of_le_of_lt (not_lt.1 hnear) (not_le.1 hfar)
    have hcut : cut near far d = d := by
      rw [cut_coe, min_eq_right (EReal.coe_le_coe_iff.1 (not_le.1 hfar).le),
        max_eq_right (EReal.coe_le_coe_iff.1 (not_lt.1 hnear))]
    rw [hcut, line, EReal.coe_add, EReal.coe_mul, EReal.coe_div, EReal.coe_sub, EReal.coe_sub,
      EReal.coe_sub]

theorem line_sub_line (d d' : ℝ) :
    line near far nearFactor farFactor d' - line near far nearFactor farFactor d =
      (farFactor - nearFactor) * (d' - d) / (far - near) := by
  unfold line
  ring

/-- On the ramp the line keeps between the two factors, whichever is greater. -/
theorem line_mem_uIcc {d : ℝ} (h : near < far) (hnear : near ≤ d) (hfar : d ≤ far) :
    line near far nearFactor farFactor d ∈ Set.uIcc nearFactor farFactor := by
  have hwidth : 0 < far - near := sub_pos.2 h
  rw [← segment_eq_uIcc]
  refine ⟨1 - (d - near) / (far - near), (d - near) / (far - near), ?_, ?_, ?_, ?_⟩
  · exact sub_nonneg.2 ((div_le_one hwidth).2 (by linarith))
  · exact div_nonneg (sub_nonneg.2 hnear) hwidth.le
  · exact sub_add_cancel _ _
  · simp only [line, smul_eq_mul]
    ring

theorem line_mono (h : near < far) (hfactor : nearFactor ≤ farFactor) :
    Monotone (line near far nearFactor farFactor) := by
  intro d d' hd
  rw [← sub_nonneg, line_sub_line]
  exact div_nonneg (mul_nonneg (sub_nonneg.2 hfactor) (sub_nonneg.2 hd)) (sub_pos.2 h).le

theorem line_anti (h : near < far) (hfactor : farFactor ≤ nearFactor) :
    Antitone (line near far nearFactor farFactor) := by
  intro d d' hd
  rw [← sub_nonpos, line_sub_line]
  exact div_nonpos_of_nonpos_of_nonneg
    (mul_nonpos_of_nonpos_of_nonneg (sub_nonpos.2 hfactor) (sub_nonneg.2 hd)) (sub_pos.2 h).le

theorem abs_line_sub_line {d d' : ℝ} (h : near < far) (hd : d ≤ d') :
    |line near far nearFactor farFactor d' - line near far nearFactor farFactor d| =
      |farFactor - nearFactor| * (d' - d) / (far - near) := by
  rw [line_sub_line, abs_div, abs_mul, abs_of_nonneg (sub_nonneg.2 hd),
    abs_of_pos (sub_pos.2 h)]

/-! ## The factor at a distance -/

/-- **The factor keeps between the two of the profile**, whichever is greater. -/
theorem multiplier_graded_mem (h : near < far) (d : EReal) :
    (graded (near : EReal) far nearFactor farFactor).multiplier d ∈
      Set.Icc ((min nearFactor farFactor : ℝ) : EReal) (max nearFactor farFactor : ℝ) := by
  have hmem : line near far nearFactor farFactor (cut near far d) ∈
      Set.uIcc nearFactor farFactor :=
    line_mem_uIcc h (near_le_cut h.le d) (cut_le_far h.le d)
  rw [multiplier_graded h]
  exact ⟨EReal.coe_le_coe_iff.2 hmem.1, EReal.coe_le_coe_iff.2 hmem.2⟩

theorem multiplier_graded_pos (h : near < far) (hnearFactor : 0 < nearFactor)
    (hfarFactor : 0 < farFactor) (d : EReal) :
    0 < (graded (near : EReal) far nearFactor farFactor).multiplier d :=
  (EReal.coe_pos.2 (lt_min hnearFactor hfarFactor)).trans_le (multiplier_graded_mem h d).1

theorem near_lt_far_of_validate
    (hvalid : (graded (near : EReal) far nearFactor farFactor).validate = .ok ()) : near < far := by
  have hwidth := (validate_graded_iff.1 hvalid).2.2.2
  rw [← EReal.coe_sub, EReal.coe_pos] at hwidth
  exact sub_pos.1 hwidth

/-- **A graded bias that was checked goes one way, from the one factor to the other, and without a
jump.** It is the near factor up to the near distance and the far factor from the far distance on.
Between them it rises where the far factor is the greater and falls where it is not, and it is no
steeper than the ramp anywhere. -/
theorem multiplier_ramps
    (hvalid : (graded (near : EReal) far nearFactor farFactor).validate = .ok ()) :
    let factor := (graded (near : EReal) far nearFactor farFactor).multiplier
    (∀ d, d ≤ (near : EReal) → factor d = (nearFactor : EReal)) ∧
    (∀ d, (far : EReal) ≤ d → factor d = (farFactor : EReal)) ∧
    (∀ d, (min nearFactor farFactor : ℝ) ≤ factor d ∧ factor d ≤ (max nearFactor farFactor : ℝ) ∧
      0 < factor d) ∧
    (nearFactor ≤ farFactor → ∀ d d', d ≤ d' → factor d ≤ factor d') ∧
    (¬ nearFactor ≤ farFactor → ∀ d d', d ≤ d' → factor d' ≤ factor d) ∧
    (∀ d d' : ℝ, d ≤ d' → Scalar.magnitude (factor d' - factor d) ≤
      (|farFactor - nearFactor| * (d' - d) / (far - near) : ℝ)) ∧
    Continuous factor := by
  intro factor
  have h := near_lt_far_of_validate hvalid
  have hfactor (d : EReal) : factor d = (line near far nearFactor farFactor (cut near far d) : ℝ) :=
    multiplier_graded h d
  refine ⟨?near, ?far, fun d => ?bounds, ?rises, ?falls, ?slope, ?continuous⟩
  case near =>
    intro d hd
    rw [hfactor, cut_of_le_near h.le hd, line_near]
  case far =>
    intro d hd
    rw [hfactor, cut_of_far_le h.le hd, line_far h]
  case bounds =>
    obtain ⟨hnearFactor, hfarFactor, -, -⟩ := validate_graded_iff.1 hvalid
    obtain ⟨hmin, hmax⟩ := multiplier_graded_mem h d
    exact ⟨hmin, hmax, multiplier_graded_pos h (EReal.coe_pos.1 hnearFactor)
      (EReal.coe_pos.1 hfarFactor) d⟩
  case rises =>
    intro hle d d' hd
    rw [hfactor, hfactor]
    exact EReal.coe_le_coe_iff.2 (line_mono h hle (cut_mono h.le hd))
  case falls =>
    intro hle d d' hd
    rw [hfactor, hfactor]
    exact EReal.coe_le_coe_iff.2 (line_anti h (not_le.1 hle).le (cut_mono h.le hd))
  case slope =>
    intro d d' hd
    have hcut := cut_mono h.le (EReal.coe_le_coe_iff.2 hd)
    rw [hfactor, hfactor, ← EReal.coe_sub, Scalar.magnitude_coe, EReal.coe_le_coe_iff,
      abs_line_sub_line h hcut]
    have hshort : cut near far d' - cut near far d ≤ d' - d := cut_sub_cut_le hd
    have hwidth : 0 ≤ far - near := (sub_pos.2 h).le
    gcongr
  case continuous =>
    have hline : Continuous (line near far nearFactor farFactor) := by
      unfold line
      fun_prop
    rw [funext hfactor]
    exact continuous_coe_real_ereal.comp (hline.comp (continuous_cut h.le))

/-- A bias under which links are cheaper the further away they are. Along the first half of the ramp
its factor falls by no more than half of the difference. -/
theorem multiplier_ramps_falling :
    let factor := (graded ((0 : ℝ) : EReal) (10 : ℝ) (2 : ℝ) (1 / 2 : ℝ)).multiplier
    (graded ((0 : ℝ) : EReal) (10 : ℝ) (2 : ℝ) (1 / 2 : ℝ)).validate = .ok () ∧
      factor (0 : ℝ) = (2 : ℝ) ∧ factor ⊤ = (1 / 2 : ℝ) ∧ factor (5 : ℝ) ≤ factor (0 : ℝ) ∧
      Scalar.magnitude (factor (5 : ℝ) - factor (0 : ℝ)) ≤ (3 / 4 : ℝ) := by
  have hvalid : (graded ((0 : ℝ) : EReal) (10 : ℝ) (2 : ℝ) (1 / 2 : ℝ)).validate = .ok () := by
    rw [validate_graded_iff, ← EReal.coe_sub]
    norm_num [EReal.coe_pos, EReal.coe_nonneg]
  obtain ⟨hnear, hfar, -, -, hfalls, hslope, -⟩ := multiplier_ramps hvalid
  have hhalf := hslope 0 5 (by norm_num)
  have hsteep : |(1 / 2 : ℝ) - 2| * (5 - 0) / (10 - 0) = 3 / 4 := by norm_num [abs_of_neg]
  rw [hsteep] at hhalf
  exact ⟨hvalid, hnear _ le_rfl, hfar _ le_top, hfalls (by norm_num) _ _ (by norm_num), hhalf⟩

end TransitMatching.BiasProfile
