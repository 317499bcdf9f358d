import Mathlib.Analysis.Complex.Norm
import TransitMatching.Geometry.Point
import TransitMatching.Proofs.Number.Extended

/-!
# Points and segments of the plane

Exactly computed, distances of points are those of the plane. So they obey the triangle
inequality, and the distance to a segment is the distance to the nearest of its points.

* `exact`: a point of the plane among those whose coordinates may be infinite.
* `toward`, `segment`: the points on the way from one point to another.
* `distance_toward`: how far apart two points of a segment are.
* `sq_distance_toward`: how far away the points of a segment are.
* `segmentDistance_least`: **the distance to a segment is the least distance to its points.**
-/

namespace TransitMatching.Point

/-- The point with the same coordinates among those that may be infinite. -/
noncomputable def exact (p : Point ℝ) : Point EReal := ⟨p.x, p.y⟩

@[simp] theorem exact_x (p : Point ℝ) : p.exact.x = p.x := rfl

@[simp] theorem exact_y (p : Point ℝ) : p.exact.y = p.y := rfl

/-! ## Distances -/

variable {a b p q : Point ℝ}

/-- The place of a point in the plane. -/
def place (p : Point ℝ) : ℂ := ⟨p.x, p.y⟩

theorem distance_eq_norm (p q : Point ℝ) : p.distance q = ‖p.place - q.place‖ :=
  (Complex.norm_eq_sqrt_sq_add_sq (p.place - q.place)).symm

theorem distance_self (p : Point ℝ) : p.distance p = 0 := by
  rw [distance_eq_norm, sub_self, norm_zero]

theorem distance_comm (p q : Point ℝ) : p.distance q = q.distance p := by
  rw [distance_eq_norm, distance_eq_norm, norm_sub_rev]

theorem distance_triangle (p q r : Point ℝ) : p.distance r ≤ p.distance q + q.distance r := by
  simp only [distance_eq_norm]
  exact norm_sub_le_norm_sub_add_norm_sub _ _ _

theorem distance_nonneg (p q : Point ℝ) : 0 ≤ p.distance q := by
  rw [distance_eq_norm]
  exact norm_nonneg _

theorem eq_of_distance_eq_zero (h : p.distance q = 0) : p = q := by
  rw [distance_eq_norm, norm_eq_zero, sub_eq_zero] at h
  obtain ⟨hx, hy⟩ := Complex.mk.inj h
  exact congrArg₂ Point.mk hx hy

theorem sq_distance (p q : Point ℝ) : p.distance q ^ 2 = (p.x - q.x) ^ 2 + (p.y - q.y) ^ 2 :=
  Real.sq_sqrt (add_nonneg (sq_nonneg _) (sq_nonneg _))

theorem distance_eq_of_sq {d : ℝ} (hd : 0 ≤ d) (h : p.distance q ^ 2 = d ^ 2) : p.distance q = d :=
  (pow_left_inj₀ (distance_nonneg p q) hd two_ne_zero).1 h

theorem distance_exact (p q : Point ℝ) : p.exact.distance q.exact = (p.distance q : ℝ) := by
  unfold distance
  rw [exact_x, exact_x, exact_y, exact_y, ← EReal.coe_sub, ← EReal.coe_sub, Scalar.hypot_coe]
  rfl

/-! ## The way from one point to another -/

/-- The point at a part of the way from `a` to `b`. -/
def toward (a b : Point ℝ) (t : ℝ) : Point ℝ := ⟨a.x + (b.x - a.x) * t, a.y + (b.y - a.y) * t⟩

/-- The points from `a` to `b`. -/
def segment (a b : Point ℝ) : Set (Point ℝ) := a.toward b '' Set.Icc 0 1

theorem toward_zero (a b : Point ℝ) : a.toward b 0 = a := by
  simp [toward]

theorem toward_one (a b : Point ℝ) : a.toward b 1 = b := by
  simp [toward]

theorem toward_self (a : Point ℝ) (t : ℝ) : a.toward a t = a := by
  simp [toward]

theorem left_mem_segment (a b : Point ℝ) : a ∈ a.segment b :=
  ⟨0, ⟨le_rfl, zero_le_one⟩, toward_zero a b⟩

theorem right_mem_segment (a b : Point ℝ) : b ∈ a.segment b :=
  ⟨1, ⟨zero_le_one, le_rfl⟩, toward_one a b⟩

/-- Points of one segment are as far apart as their parts of the way. -/
theorem distance_toward (a b : Point ℝ) (t u : ℝ) :
    (a.toward b t).distance (a.toward b u) = |t - u| * a.distance b := by
  refine distance_eq_of_sq (mul_nonneg (abs_nonneg _) (distance_nonneg _ _)) ?_
  rw [mul_pow, sq_abs, sq_distance, sq_distance]
  simp only [toward]
  ring

theorem distance_left_toward {t : ℝ} (ht : 0 ≤ t) :
    a.distance (a.toward b t) = t * a.distance b := by
  have hway := distance_toward a b 0 t
  rwa [toward_zero, zero_sub, abs_neg, abs_of_nonneg ht] at hway

theorem distance_of_mem_segment (hp : p ∈ a.segment b) (hq : q ∈ a.segment b) :
    p.distance q = |a.distance p - a.distance q| := by
  obtain ⟨t, ht, rfl⟩ := hp
  obtain ⟨u, hu, rfl⟩ := hq
  rw [distance_toward, distance_left_toward ht.1, distance_left_toward hu.1, ← sub_mul, abs_mul,
    abs_of_nonneg (a.distance_nonneg b)]

theorem distance_le_of_mem_segment (hp : p ∈ a.segment b) : a.distance p ≤ a.distance b := by
  obtain ⟨t, ht, rfl⟩ := hp
  rw [distance_left_toward ht.1]
  exact mul_le_of_le_one_left (a.distance_nonneg b) ht.2

/-! ## The distance to a segment -/

/-- The square of the length of a segment. -/
def norm (a b : Point ℝ) : ℝ := (b.x - a.x) * (b.x - a.x) + (b.y - a.y) * (b.y - a.y)

/-- The part of the way at which the perpendicular from `p` meets the line through a segment. -/
noncomputable def ratio (p a b : Point ℝ) : ℝ :=
  ((p.x - a.x) * (b.x - a.x) + (p.y - a.y) * (b.y - a.y)) / a.norm b

/-- How far `p` lies beside the line through a segment, as a part of its length. -/
noncomputable def aside (p a b : Point ℝ) : ℝ :=
  ((a.y - p.y) * (b.x - a.x) - (a.x - p.x) * (b.y - a.y)) / a.norm b

theorem norm_eq_sq_distance (a b : Point ℝ) : a.norm b = a.distance b ^ 2 := by
  rw [sq_distance, norm]
  ring

theorem norm_ne_zero (h : a ≠ b) : a.norm b ≠ 0 := by
  rw [norm_eq_sq_distance]
  exact pow_ne_zero 2 fun hzero => h (eq_of_distance_eq_zero hzero)

/-- A point of the line is as far away as the way along the line and the way to it make it. -/
theorem sq_distance_toward (h : a ≠ b) (p : Point ℝ) (t : ℝ) :
    p.distance (a.toward b t) ^ 2 = ((p.ratio a b - t) ^ 2 + p.aside a b ^ 2) * a.norm b := by
  have hnorm := norm_ne_zero h
  rw [sq_distance, ratio, aside]
  field_simp
  simp only [toward, norm]
  ring

/-- The part of the way at which a segment is nearest to `p`. -/
noncomputable def foot (p a b : Point ℝ) : ℝ := max 0 (min (p.ratio a b) 1)

theorem foot_mem (p a b : Point ℝ) : p.foot a b ∈ Set.Icc (0 : ℝ) 1 :=
  ⟨le_max_left _ _, max_le zero_le_one (min_le_right _ _)⟩

theorem foot_of_ratio_nonpos (h : p.ratio a b ≤ 0) : p.foot a b = 0 :=
  max_eq_left ((min_le_left _ _).trans h)

theorem foot_of_one_le_ratio (h : 1 ≤ p.ratio a b) : p.foot a b = 1 := by
  rw [foot, min_eq_right h, max_eq_right zero_le_one]

theorem foot_of_ratio_mem (hzero : 0 ≤ p.ratio a b) (hone : p.ratio a b ≤ 1) :
    p.foot a b = p.ratio a b := by
  rw [foot, min_eq_left hone, max_eq_right hzero]

theorem abs_ratio_sub_foot_le {t : ℝ} (ht : t ∈ Set.Icc (0 : ℝ) 1) :
    |p.ratio a b - p.foot a b| ≤ |p.ratio a b - t| := by
  obtain ⟨hzero, hone⟩ := ht
  rcases le_total (p.ratio a b) 0 with hbefore | hbefore
  · rw [foot_of_ratio_nonpos hbefore, abs_of_nonpos (by linarith), abs_of_nonpos (by linarith)]
    linarith
  rcases le_total (p.ratio a b) 1 with hbehind | hbehind
  · rw [foot_of_ratio_mem hbefore hbehind, sub_self, abs_zero]
    exact abs_nonneg _
  · rw [foot_of_one_le_ratio hbehind, abs_of_nonneg (by linarith), abs_of_nonneg (by linarith)]
    linarith

theorem distance_foot_le {t : ℝ} (ht : t ∈ Set.Icc (0 : ℝ) 1) :
    p.distance (a.toward b (p.foot a b)) ≤ p.distance (a.toward b t) := by
  rcases eq_or_ne a b with rfl | h
  · rw [toward_self, toward_self]
  have hnorm : 0 ≤ a.norm b := (sq_nonneg _).trans_eq (norm_eq_sq_distance a b).symm
  refine (pow_le_pow_iff_left₀ (distance_nonneg _ _) (distance_nonneg _ _) two_ne_zero).1 ?_
  rw [sq_distance_toward h, sq_distance_toward h]
  have hratio := sq_le_sq.2 (abs_ratio_sub_foot_le (p := p) (a := a) (b := b) ht)
  gcongr

theorem same_exact_iff : p.exact.Same q.exact ↔ p = q := by
  constructor
  · rintro ⟨hx, hy⟩
    exact congrArg₂ Point.mk (Scalar.same_coe_iff.1 hx) (Scalar.same_coe_iff.1 hy)
  · rintro rfl
    exact ⟨Scalar.same_coe_iff.2 rfl, Scalar.same_coe_iff.2 rfl⟩

/-- The height of the perpendicular is the distance to the point of the line that it meets. -/
theorem distance_toward_ratio (h : a ≠ b) (p : Point ℝ) :
    p.distance (a.toward b (p.ratio a b)) = |p.aside a b| * a.distance b := by
  refine distance_eq_of_sq (mul_nonneg (abs_nonneg _) (distance_nonneg _ _)) ?_
  rw [sq_distance_toward h, norm_eq_sq_distance, mul_pow, sq_abs, sub_self]
  ring

/-- A segment is as far away as the point at its foot. -/
theorem segmentDistance_exact (p a b : Point ℝ) :
    p.exact.segmentDistance a.exact b.exact = (p.distance (a.toward b (p.foot a b)) : ℝ) := by
  rcases eq_or_ne a b with rfl | h
  · rw [segmentDistance_self _ (same_exact_iff.2 rfl), distance_exact, toward_self, distance_comm]
  have hratio : ((p.exact.x - a.exact.x) * (b.exact.x - a.exact.x) +
      (p.exact.y - a.exact.y) * (b.exact.y - a.exact.y)) /
        ((b.exact.x - a.exact.x) * (b.exact.x - a.exact.x) +
          (b.exact.y - a.exact.y) * (b.exact.y - a.exact.y)) = (p.ratio a b : EReal) := by
    simp only [exact_x, exact_y, ratio, norm, EReal.coe_div, EReal.coe_add, EReal.coe_mul,
      EReal.coe_sub]
  have haside : ((a.exact.y - p.exact.y) * (b.exact.x - a.exact.x) -
      (a.exact.x - p.exact.x) * (b.exact.y - a.exact.y)) /
        ((b.exact.x - a.exact.x) * (b.exact.x - a.exact.x) +
          (b.exact.y - a.exact.y) * (b.exact.y - a.exact.y)) = (p.aside a b : EReal) := by
    simp only [exact_x, exact_y, aside, norm, EReal.coe_div, EReal.coe_add, EReal.coe_mul,
      EReal.coe_sub]
  unfold segmentDistance
  rw [if_neg (mt same_exact_iff.1 h)]
  dsimp only
  rw [hratio, haside]
  split
  · next hbefore =>
    rw [foot_of_ratio_nonpos (EReal.coe_nonpos.1 hbefore), toward_zero, distance_exact,
      distance_comm]
  split
  · next hbehind =>
    rw [foot_of_one_le_ratio (EReal.coe_le_coe_iff.1 hbehind), toward_one, distance_exact,
      distance_comm]
  · next hbefore hbehind =>
    have hfoot : p.foot a b = p.ratio a b :=
      foot_of_ratio_mem (EReal.coe_nonneg.1 (not_le.1 hbefore).le)
        (EReal.coe_le_coe_iff.1 (not_le.1 hbehind).le)
    have hlength : Scalar.hypot (b.exact.x - a.exact.x) (b.exact.y - a.exact.y) =
        (a.distance b : EReal) := by
      rw [distance_comm]
      exact distance_exact b a
    rw [hfoot, distance_toward_ratio h, hlength, Scalar.magnitude_coe, EReal.coe_mul]

/-- **The distance to a segment is the least distance to its points.** -/
theorem segmentDistance_least (p a b : Point ℝ) :
    ∃ d : ℝ, p.exact.segmentDistance a.exact b.exact = d ∧
      IsLeast (p.distance '' a.segment b) d := by
  refine ⟨_, segmentDistance_exact p a b, ⟨_, ⟨_, foot_mem p a b, rfl⟩, rfl⟩, ?_⟩
  rintro _ ⟨_, ⟨t, ht, rfl⟩, rfl⟩
  exact distance_foot_le ht

end TransitMatching.Point
