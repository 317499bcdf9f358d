import Mathlib.Topology.Algebra.Order.Field
import Mathlib.Topology.MetricSpace.Lipschitz
import TransitMatching.Proofs.Geometry.Lines

/-!
# Links measured at samples

A link is measured against a shape at samples of its line, one every five units. The number of
steps is rounded up and the last one cut to the end, so that the samples lead from one end to the
other without a longer step. Every point of the line is then within half a step of a sample, and
the distance to the shape changes by no more than the distance moved.

* `steps`, `part`: how many steps there are, and where on the way each sample is taken.
* `Along`: points that lead along a segment.
* `exists_isLeast_distanceTo`: a segment has a point nearest to the shape.
* `segmentDistance_sampled`: **samples miss the nearest point by no more than half an interval.**
-/

namespace TransitMatching.Shape

/-! ## Where the samples are -/

theorem sampleInterval_real : (sampleInterval : ℝ) = 5 := Nat.cast_ofNat

theorem sampleInterval_exact : (sampleInterval : EReal) = (sampleInterval : ℝ) := rfl

theorem sampleInterval_pos : 0 < (sampleInterval : ℝ) := sampleInterval_real ▸ by norm_num

/-- The number of steps by which a segment of a length is gone along. -/
noncomputable def steps (length : ℝ) : ℕ := ⌈max (length / sampleInterval) 1⌉₊

/-- The part of the way after a number of steps. -/
noncomputable def part (length : ℝ) (step : ℕ) : ℝ := min (step * sampleInterval / length) 1

/-- The points at which the segment from `a` to `b` is measured. -/
noncomputable def sampled (a b : Point ℝ) : List (Point ℝ) :=
  (List.range (steps (a.distance b) + 1)).map fun step => a.toward b (part (a.distance b) step)

theorem samples_exact (a b : Point ℝ) :
    samples a.exact b.exact = (sampled a b).map Point.exact := by
  have hone : (1 : EReal) = ((1 : ℝ) : EReal) := rfl
  have hstep (step : ℕ) : (step : EReal) = ((step : ℝ) : EReal) := rfl
  unfold samples sampled steps part
  dsimp only
  rw [Point.distance_exact, sampleInterval_exact, hone, ← EReal.coe_div, Scalar.greatest_coe,
    Scalar.ceilNat_coe, List.map_map]
  refine List.map_congr_left fun step _ => ?_
  rw [hstep, ← EReal.coe_mul, ← EReal.coe_div, Scalar.least_coe]
  simp only [Point.exact_x, Point.exact_y, ← EReal.coe_sub, ← EReal.coe_mul, ← EReal.coe_add]
  rfl

variable {length : ℝ} {step : ℕ}

theorem part_zero : part length 0 = 0 := by
  simp [part]

theorem part_mem (h : 0 < length) (step : ℕ) : part length step ∈ Set.Icc (0 : ℝ) 1 := by
  have hway : 0 ≤ step * sampleInterval / length :=
    div_nonneg (mul_nonneg step.cast_nonneg sampleInterval_pos.le) h.le
  exact ⟨le_min hway zero_le_one, min_le_right _ _⟩

/-- The last step reaches the end, though it need not be a whole one. -/
theorem part_steps (h : 0 < length) : part length (steps length) = 1 := by
  have hsteps : length / sampleInterval ≤ steps length := (le_max_left _ _).trans (Nat.le_ceil _)
  exact min_eq_right ((one_le_div h).2 ((div_le_iff₀ sampleInterval_pos).1 hsteps))

/-- No step but the last one reaches the end. -/
theorem mul_sampleInterval_lt (h : 0 < length) (hstep : step < steps length) :
    step * sampleInterval < length := by
  rcases lt_max_iff.1 (Nat.lt_ceil.1 hstep) with hshort | hfirst
  · exact (lt_div_iff₀ sampleInterval_pos).1 hshort
  · obtain rfl : step = 0 := Nat.cast_lt_one.1 hfirst
    rw [Nat.cast_zero, zero_mul]
    exact h

theorem part_eq_of_lt (h : 0 < length) (hstep : step < steps length) :
    part length step = step * sampleInterval / length :=
  min_eq_left ((div_le_one h).2 (mul_sampleInterval_lt h hstep).le)

theorem part_lt_succ (h : 0 < length) (hstep : step < steps length) :
    part length step < part length (step + 1) := by
  have hnext : (step : ℝ) < (step + 1 : ℕ) := Nat.cast_lt.2 step.lt_succ_self
  rw [part_eq_of_lt h hstep]
  refine lt_min ?_ ((div_lt_one h).2 (mul_sampleInterval_lt h hstep))
  exact div_lt_div_of_pos_right (mul_lt_mul_of_pos_right hnext sampleInterval_pos) h

/-- A step is no longer than the interval. -/
theorem part_succ_sub_mul_le (h : 0 < length) (hstep : step < steps length) :
    (part length (step + 1) - part length step) * length ≤ sampleInterval := by
  have hnext : part length (step + 1) ≤ (step + 1 : ℕ) * sampleInterval / length :=
    min_le_left _ _
  calc (part length (step + 1) - part length step) * length
      ≤ ((step + 1 : ℕ) * sampleInterval / length - step * sampleInterval / length) * length := by
        rw [part_eq_of_lt h hstep]
        gcongr
    _ = sampleInterval := by
        push_cast
        field_simp
        ring

/-! ## Points along a segment -/

/-- Points that lead from `a` to `b` along the segment between them, each ahead of the one before
and no further from it than the interval. -/
structure Along (a b : Point ℝ) (points : List (Point ℝ)) : Prop where
  on : ∀ p ∈ points, p ∈ a.segment b
  first : points.head? = some a
  last : points.getLast? = some b
  ahead : points.IsChain fun p q => a.distance p < a.distance q
  close : points.IsChain fun p q => p.distance q ≤ 5

theorem along_sampled {a b : Point ℝ} (h : 0 < a.distance b) : Along a b (sampled a b) where
  on p hp := by
    obtain ⟨step, -, rfl⟩ := List.mem_map.1 hp
    exact ⟨_, part_mem h step, rfl⟩
  first := by
    rw [sampled, List.range_succ_eq_map, List.map_cons, List.head?_cons, part_zero,
      Point.toward_zero]
  last := by
    rw [sampled, List.range_succ, List.map_append, List.map_singleton, List.getLast?_concat,
      part_steps h, Point.toward_one]
  ahead := by
    rw [sampled, List.isChain_map, List.isChain_range_succ]
    intro step hstep
    rw [Point.distance_left_toward (part_mem h step).1,
      Point.distance_left_toward (part_mem h (step + 1)).1]
    exact mul_lt_mul_of_pos_right (part_lt_succ h hstep) h
  close := by
    rw [sampled, List.isChain_map, List.isChain_range_succ]
    intro step hstep
    rw [Point.distance_toward, abs_sub_comm,
      abs_of_pos (sub_pos.2 (part_lt_succ h hstep))]
    exact (part_succ_sub_mul_le h hstep).trans_eq sampleInterval_real

/-- Where a list of numbers leads past `u` in steps that are not too long, one of them is within
half a step of it. -/
theorem exists_near {β : Type} {f : β → ℝ} {gap u : ℝ} {l : List β} {x y : β}
    (hfirst : l.head? = some x) (hlast : l.getLast? = some y)
    (hsteps : l.IsChain fun p q => f q - f p ≤ gap) (hgap : 0 ≤ gap)
    (hx : f x ≤ u) (hy : u ≤ f y) : ∃ p ∈ l, |f p - u| ≤ gap / 2 := by
  induction l generalizing x with
  | nil => cases hfirst
  | cons p rest ih =>
    obtain rfl := Option.some.inj hfirst
    cases rest with
    | nil =>
      obtain rfl := Option.some.inj hlast
      refine ⟨p, List.mem_cons_self, ?_⟩
      rw [le_antisymm hx hy, sub_self, abs_zero]
      exact div_nonneg hgap zero_le_two
    | cons q rest =>
      rw [List.isChain_cons_cons] at hsteps
      rcases le_total u (f q) with hbetween | hbeyond
      · -- The half way point lies behind one of the two or ahead of the other.
        rcases le_total u ((f p + f q) / 2) with hnear | hfar
        · refine ⟨p, List.mem_cons_self, ?_⟩
          rw [abs_of_nonpos (sub_nonpos.2 hx)]
          linarith [hsteps.1]
        · refine ⟨q, List.mem_cons_of_mem _ List.mem_cons_self, ?_⟩
          rw [abs_of_nonneg (sub_nonneg.2 hbetween)]
          linarith [hsteps.1]
      · obtain ⟨r, hr, hnear⟩ := ih rfl hlast hsteps.2 hbeyond
        exact ⟨r, List.mem_cons_of_mem _ hr, hnear⟩

/-- Every point of the segment is within half an interval of one that leads along it. -/
theorem Along.exists_near {a b q : Point ℝ} {points : List (Point ℝ)} (h : Along a b points)
    (hq : q ∈ a.segment b) : ∃ p ∈ points, p.distance q ≤ 5 / 2 := by
  have hsteps : points.IsChain fun p r => a.distance r - a.distance p ≤ 5 :=
    h.close.imp fun p r hclose => by linarith [a.distance_triangle p r]
  have hstart : a.distance a ≤ a.distance q := a.distance_self.trans_le (a.distance_nonneg q)
  obtain ⟨p, hp, hnear⟩ := Shape.exists_near h.first h.last hsteps (by norm_num) hstart
    (Point.distance_le_of_mem_segment hq)
  exact ⟨p, hp, (Point.distance_of_mem_segment (h.on p hp) hq).trans_le hnear⟩

/-! ## The least of the samples -/

/-- The result is the distance of the sample that is nearest to the shape. -/
theorem segmentDistance_least (s : Shape ℝ) (a b : Point ℝ) :
    IsLeast ((fun p => s.exact.distanceTo p.exact) '' {p | p ∈ sampled a b})
      (s.exact.segmentDistance a.exact b.exact) := by
  have hdistance {p : Point ℝ} (hp : p ∈ sampled a b) :
      s.exact.distanceTo p.exact ∈ (samples a.exact b.exact).map s.exact.distanceTo := by
    rw [samples_exact]
    exact List.mem_map_of_mem (List.mem_map_of_mem hp)
  have hfirst : a.toward b (part (a.distance b) 0) ∈ sampled a b :=
    List.mem_map_of_mem (List.mem_range.2 (Nat.succ_pos _))
  obtain ⟨m, hm⟩ := Scalar.exists_least? (hdistance hfirst) le_rfl
  have hresult : s.exact.segmentDistance a.exact b.exact = m := by
    unfold segmentDistance
    rw [hm, Option.getD_some]
  rw [hresult]
  constructor
  · obtain ⟨_, hsample, rfl⟩ := List.mem_map.1 (Scalar.mem_of_least? hm)
    rw [samples_exact] at hsample
    obtain ⟨p, hp, rfl⟩ := List.mem_map.1 hsample
    exact ⟨p, hp, rfl⟩
  · rintro _ ⟨p, hp, rfl⟩
    exact Scalar.le_of_least? hm (hdistance hp) le_rfl

/-- A segment has a point that is nearest to the shape. -/
theorem exists_isLeast_distanceTo (s : Shape ℝ) (a b : Point ℝ) :
    ∃ m, IsLeast ((fun p => s.exact.distanceTo p.exact) '' a.segment b) m := by
  rcases eq_or_ne s.points [] with h | h
  · refine ⟨⊤, ⟨a, a.left_mem_segment b, distanceTo_exact_of_nil h a⟩, ?_⟩
    rintro _ ⟨p, -, rfl⟩
    exact (distanceTo_exact_of_nil h p).ge
  choose d hd hleast using fun p => s.distanceTo_least p h
  have hmoved (p q : Point ℝ) : d p ≤ d q + p.distance q := by
    have hle := s.distanceTo_le_add p q
    rwa [hd, hd, ← EReal.coe_add, EReal.coe_le_coe_iff] at hle
  have hcontinuous : Continuous fun t => d (a.toward b t) := by
    have hlipschitz : LipschitzWith ⟨a.distance b, a.distance_nonneg b⟩ fun t => d (a.toward b t) :=
      LipschitzWith.of_le_add_mul _ fun t u => by
        rw [Real.dist_eq, mul_comm]
        exact (hmoved _ _).trans_eq (congrArg (_ + ·) (Point.distance_toward a b t u))
    exact hlipschitz.continuous
  obtain ⟨t, ht, hmin⟩ :=
    isCompact_Icc.exists_isMinOn (Set.nonempty_Icc.2 zero_le_one) hcontinuous.continuousOn
  refine ⟨d (a.toward b t), ⟨_, ⟨t, ht, rfl⟩, hd _⟩, ?_⟩
  rintro _ ⟨_, ⟨u, hu, rfl⟩, rfl⟩
  dsimp only
  rw [hd, EReal.coe_le_coe_iff]
  exact hmin hu

/-- **Samples miss the nearest point of a segment by no more than half an interval.** They lead from
one end to the other, and the distance to the shape changes by no more than the distance moved. A
segment that is a single point is as far away as the point. The distance of a point is that to the
nearest point of the shape. -/
theorem segmentDistance_sampled (s : Shape ℝ) (a b : Point ℝ) :
    (0 < a.distance b →
      (∃ points, samples a.exact b.exact = points.map Point.exact ∧ Along a b points) ∧
      ∃ m, IsLeast ((fun p => s.exact.distanceTo p.exact) '' a.segment b) m ∧
        m ≤ s.exact.segmentDistance a.exact b.exact ∧
        s.exact.segmentDistance a.exact b.exact ≤ m + (5 / 2 : ℝ)) ∧
    (∀ p : Point ℝ,
      IsGLB ((fun q => (p.distance q : EReal)) '' s.line) (s.exact.distanceTo p.exact)) ∧
    (∀ p q : Point ℝ,
      s.exact.distanceTo p.exact ≤ s.exact.distanceTo q.exact + (p.distance q : ℝ)) ∧
    (a.distance b = 0 →
      s.exact.segmentDistance a.exact b.exact = s.exact.distanceTo a.exact) := by
  obtain ⟨⟨sample, hsample, hresult⟩, hleast⟩ := s.segmentDistance_least a b
  refine ⟨fun hlength => ?_, s.isGLB_distanceTo, s.distanceTo_le_add, fun hlength => ?_⟩
  · have halong := along_sampled hlength
    obtain ⟨m, ⟨q, hq, hqm⟩, hm⟩ := s.exists_isLeast_distanceTo a b
    refine ⟨⟨_, samples_exact a b, halong⟩, m, ⟨⟨q, hq, hqm⟩, hm⟩, ?_, ?_⟩
    · exact (hm ⟨sample, halong.on sample hsample, rfl⟩).trans_eq hresult
    · obtain ⟨p, hp, hnear⟩ := halong.exists_near hq
      calc s.exact.segmentDistance a.exact b.exact ≤ s.exact.distanceTo p.exact :=
            hleast ⟨p, hp, rfl⟩
        _ ≤ s.exact.distanceTo q.exact + (p.distance q : ℝ) := s.distanceTo_le_add p q
        _ ≤ m + (5 / 2 : ℝ) := add_le_add hqm.le (EReal.coe_le_coe_iff.2 hnear)
  · obtain rfl := Point.eq_of_distance_eq_zero hlength
    obtain ⟨_, -, rfl⟩ := List.mem_map.1 hsample
    rw [← hresult, Point.toward_self]

/-- A shape that is a single point. -/
def lone : Shape ℝ := { id := "s", points := [⟨0, 0⟩] }

/-- A link past a single point, with a sample at either end, and one without length, which is
measured where it is. -/
theorem segmentDistance_sampled_lone :
    0 < Point.distance (⟨0, 4⟩ : Point ℝ) ⟨3, 0⟩ ∧
      (∃ m, IsLeast ((fun p => lone.exact.distanceTo p.exact) ''
          Point.segment ⟨0, 4⟩ ⟨3, 0⟩) m ∧
        lone.exact.segmentDistance (Point.exact ⟨0, 4⟩) (Point.exact ⟨3, 0⟩) ≤
          m + (5 / 2 : ℝ)) ∧
      lone.exact.segmentDistance (Point.exact ⟨0, 4⟩) (Point.exact ⟨0, 4⟩) = (4 : ℝ) := by
  have hlength : 0 < Point.distance (⟨0, 4⟩ : Point ℝ) ⟨3, 0⟩ := Real.sqrt_pos.2 (by norm_num)
  obtain ⟨-, m, hm, -, hmiss⟩ := (segmentDistance_sampled lone ⟨0, 4⟩ ⟨3, 0⟩).1 hlength
  refine ⟨hlength, ⟨m, hm, hmiss⟩, ?_⟩
  have hpoint : lone.exact.distanceTo (Point.exact ⟨0, 4⟩) = (4 : ℝ) := by
    have hfour : Point.distance (⟨0, 4⟩ : Point ℝ) ⟨0, 0⟩ = 4 := by
      refine Point.distance_eq_of_sq (by norm_num) ?_
      rw [Point.sq_distance]
      norm_num
    exact (Point.distance_exact _ _).trans (congrArg _ hfour)
  exact ((segmentDistance_sampled lone ⟨0, 4⟩ ⟨0, 4⟩).2.2.2 (Point.distance_self _)).trans hpoint

end TransitMatching.Shape
