import Mathlib.Tactic.FieldSimp
import TransitMatching.Geometry.Shape
import TransitMatching.Proofs.Geometry.Plane
import TransitMatching.Proofs.Number.Least

/-!
# The distance to a shape

Exactly computed, the distance of a point to a shape is the distance to the nearest point of its
line. So it changes by no more than the distance that one moves.

* `line`: the points of the line.
* `onSegment_exact_iff`: a point is found to be on a segment if it is.
* `distanceTo_least`: **the distance to a shape is the least distance to the points of its line.**
* `isGLB_distanceTo`: the same, also of a shape without points.
* `distanceTo_le_add`: who moves from one point to another gets no nearer than by the way.
-/

namespace TransitMatching.Shape

variable {p q a b : Point ℝ}

/-- The shape with the same points among those whose coordinates may be infinite. -/
noncomputable def exact (s : Shape ℝ) : Shape EReal where
  id := s.id
  points := s.points.map Point.exact

/-- The points of the line: those given, and all on the segments between them. -/
def line (s : Shape ℝ) : Set (Point ℝ) :=
  {q | q ∈ s.points ∨ ∃ e ∈ segments s.points, q ∈ e.1.segment e.2}

/-! ## Points on a segment -/

/-- The part of the way at which one coordinate is reached, if it tells. -/
theorem relative?_cases (p s e : ℝ) :
    (e - s = 0 ∧ relative? (p : EReal) s e = none) ∨
      ∃ t : ℝ, relative? (p : EReal) s e = some (t : EReal) ∧ ∀ u, p = s + (e - s) * u ↔ t = u := by
  unfold relative?
  split
  · next hsame =>
    rw [← EReal.coe_sub, ← EReal.coe_zero, Scalar.same_coe_iff] at hsame
    exact .inl ⟨hsame, rfl⟩
  · next hdiffer =>
    rw [← EReal.coe_sub, ← EReal.coe_zero, Scalar.same_coe_iff] at hdiffer
    refine .inr ⟨(p - s) / (e - s), ?_, fun u => ?_⟩
    · rw [EReal.coe_div, EReal.coe_sub, EReal.coe_sub]
    · rw [div_eq_iff hdiffer, mul_comm u, sub_eq_iff_eq_add']

theorem mem_segment_iff : p ∈ a.segment b ↔
    ∃ t : ℝ, (0 ≤ t ∧ t ≤ 1) ∧ p.x = a.x + (b.x - a.x) * t ∧ p.y = a.y + (b.y - a.y) * t := by
  constructor
  · rintro ⟨t, ht, rfl⟩
    exact ⟨t, ht, rfl, rfl⟩
  · rintro ⟨t, ht, hx, hy⟩
    exact ⟨t, ht, (congrArg₂ Point.mk hx hy).symm⟩

/-- **A point is found to be on a segment if it is.** -/
theorem onSegment_exact_iff : OnSegment p.exact a.exact b.exact ↔ p ∈ a.segment b := by
  rw [mem_segment_iff]
  unfold OnSegment
  simp only [Point.exact_x, Point.exact_y]
  have hpart (t : ℝ) : (0 : EReal) ≤ t ∧ (t : EReal) ≤ 1 ↔ 0 ≤ t ∧ t ≤ 1 :=
    and_congr EReal.coe_nonneg (EReal.coe_le_coe_iff (y := 1))
  -- Where the ends agree in a coordinate, the point has to agree in it too; elsewhere the
  -- coordinate tells the part of the way.
  rcases relative?_cases p.x a.x b.x with ⟨hx, hnone⟩ | ⟨t, hsome, ht⟩ <;>
    rcases relative?_cases p.y a.y b.y with ⟨hy, hnone'⟩ | ⟨u, hsome', hu⟩
  · simp only [hnone, hnone', hx, hy, zero_mul, add_zero, Point.same_exact_iff]
    constructor
    · rintro rfl
      exact ⟨0, ⟨le_rfl, zero_le_one⟩, rfl, rfl⟩
    · rintro ⟨_, -, hpx, hpy⟩
      exact congrArg₂ Point.mk hpx hpy
  · simp only [hnone, hsome', hx, zero_mul, add_zero, hu, Scalar.same_coe_iff, hpart]
    constructor
    · rintro ⟨hpx, hu⟩
      exact ⟨u, hu, hpx, rfl⟩
    · rintro ⟨_, hu, hpx, rfl⟩
      exact ⟨hpx, hu⟩
  · simp only [hsome, hnone', hy, zero_mul, add_zero, ht, Scalar.same_coe_iff, hpart]
    constructor
    · rintro ⟨hpy, ht⟩
      exact ⟨t, ht, rfl, hpy⟩
    · rintro ⟨_, ht, rfl, hpy⟩
      exact ⟨hpy, ht⟩
  · simp only [hsome, hsome', ht, hu, Scalar.magnitude_sub_le_epsilon_iff, hpart]
    constructor
    · rintro ⟨rfl, ht⟩
      exact ⟨t, ht, rfl, rfl⟩
    · rintro ⟨_, ht, rfl, rfl⟩
      exact ⟨rfl, ht⟩

/-! ## The distance to the line -/

theorem segments_map {α β : Type} (f : Point α → Point β) (points : List (Point α)) :
    segments (points.map f) = (segments points).map (Prod.map f f) := by
  unfold segments
  rw [← List.map_tail, List.zip_map]

/-- Of two or more points, each is on a segment. -/
theorem exists_segment_of_mem {rest : List (Point ℝ)} (hq : q ∈ a :: b :: rest) :
    ∃ e ∈ segments (a :: b :: rest), q ∈ e.1.segment e.2 := by
  induction rest generalizing a b with
  | nil =>
    refine ⟨(a, b), List.mem_cons_self, ?_⟩
    rcases List.mem_cons.1 hq with rfl | hq
    · exact q.left_mem_segment b
    · obtain rfl := List.mem_singleton.1 hq
      exact a.right_mem_segment q
  | cons c rest ih =>
    rcases List.mem_cons.1 hq with rfl | hq
    · exact ⟨(q, b), List.mem_cons_self, q.left_mem_segment b⟩
    · obtain ⟨e, he, hqe⟩ := ih hq
      exact ⟨e, List.mem_cons_of_mem _ he, hqe⟩

/-- A point that is on the line is found there. -/
theorem lineDistance_cases (p : Point ℝ) (points : List (Point ℝ)) :
    (lineDistance p.exact (points.map Point.exact) = 0 ∧
      (p ∈ points ∨ ∃ e ∈ segments points, p ∈ e.1.segment e.2)) ∨
    lineDistance p.exact (points.map Point.exact) =
      (Scalar.least? ((segments points).map fun e =>
        p.exact.segmentDistance e.1.exact e.2.exact)).getD ⊤ := by
  unfold lineDistance
  split
  · next hfound =>
    refine .inl ⟨rfl, ?_⟩
    simp only [segments_map, List.any_map, Bool.or_eq_true, List.any_eq_true, Function.comp_apply,
      decide_eq_true_eq, Prod.map_fst, Prod.map_snd, Point.same_exact_iff,
      onSegment_exact_iff] at hfound
    refine hfound.imp_left ?_
    rintro ⟨q, hq, rfl⟩
    exact hq
  · refine .inr ?_
    rw [segments_map, List.map_map]
    rfl

theorem lineDistance_least (p a b : Point ℝ) (rest : List (Point ℝ)) :
    ∃ d : ℝ, lineDistance p.exact ((a :: b :: rest).map Point.exact) = d ∧
      IsLeast (p.distance '' {q | ∃ e ∈ segments (a :: b :: rest), q ∈ e.1.segment e.2}) d := by
  rcases lineDistance_cases p (a :: b :: rest) with ⟨hzero, hon⟩ | hleast
  · refine ⟨0, hzero, ⟨p, ?_, p.distance_self⟩, ?_⟩
    · exact hon.elim exists_segment_of_mem fun hsegment => hsegment
    · rintro _ ⟨q, -, rfl⟩
      exact p.distance_nonneg q
  · have hdistance {e : Point ℝ × Point ℝ} (he : e ∈ segments (a :: b :: rest)) :
        p.exact.segmentDistance e.1.exact e.2.exact ∈
          (segments (a :: b :: rest)).map fun e => p.exact.segmentDistance e.1.exact e.2.exact :=
      List.mem_map_of_mem he
    obtain ⟨m, hm⟩ := Scalar.exists_least? (hdistance List.mem_cons_self) le_rfl
    obtain ⟨e, he, rfl⟩ := List.mem_map.1 (Scalar.mem_of_least? hm)
    obtain ⟨d, hd, hnearest⟩ := Point.segmentDistance_least p e.1 e.2
    refine ⟨d, by rw [hleast, hm, ← hd, Option.getD_some], ?_, ?_⟩
    · obtain ⟨q, hq, hqd⟩ := hnearest.1
      exact ⟨q, ⟨e, he, hq⟩, hqd⟩
    · rintro _ ⟨q, ⟨e', he', hq⟩, rfl⟩
      obtain ⟨d', hd', hnearest'⟩ := Point.segmentDistance_least p e'.1 e'.2
      have hle := Scalar.le_of_least? hm (hdistance he') le_rfl
      rw [hd, hd', EReal.coe_le_coe_iff] at hle
      exact hle.trans (hnearest'.2 ⟨q, hq, rfl⟩)

/-- **The distance to a shape is the least distance to the points of its line.** -/
theorem distanceTo_least (s : Shape ℝ) (p : Point ℝ) (h : s.points ≠ []) :
    ∃ d : ℝ, s.exact.distanceTo p.exact = d ∧ IsLeast (p.distance '' s.line) d := by
  obtain ⟨id, points⟩ := s
  match points with
  | [] => exact absurd rfl h
  | [q] =>
    refine ⟨p.distance q, p.distance_exact q, ⟨q, .inl (List.mem_singleton.2 rfl), rfl⟩, ?_⟩
    rintro _ ⟨r, hr | ⟨e, he, -⟩, rfl⟩
    · rw [List.mem_singleton.1 hr]
    · cases he
  | a :: b :: rest =>
    have hline : Shape.line ⟨id, a :: b :: rest⟩ =
        {q | ∃ e ∈ segments (a :: b :: rest), q ∈ e.1.segment e.2} :=
      Set.ext fun q => ⟨fun hq => hq.elim exists_segment_of_mem fun hsegment => hsegment, .inr⟩
    rw [hline]
    exact lineDistance_least p a b rest

theorem distanceTo_exact_of_nil {s : Shape ℝ} (h : s.points = []) (p : Point ℝ) :
    s.exact.distanceTo p.exact = ⊤ := by
  have hnil : s.exact.points = [] := by
    unfold exact
    rw [h, List.map_nil]
  exact distanceTo_of_nil hnil p.exact

/-- What holds of shapes with and without points: there is nothing between the distance and those to
the points of the line. -/
theorem isGLB_distanceTo (s : Shape ℝ) (p : Point ℝ) :
    IsGLB ((fun q => (p.distance q : EReal)) '' s.line) (s.exact.distanceTo p.exact) := by
  rcases eq_or_ne s.points [] with h | h
  · have hline : s.line = ∅ := by
      refine Set.eq_empty_of_forall_notMem fun q hq => ?_
      unfold line segments at hq
      rw [h] at hq
      rcases hq with hq | ⟨e, he, -⟩
      · cases hq
      · cases he
    rw [distanceTo_exact_of_nil h, hline, Set.image_empty]
    exact isGLB_empty
  · obtain ⟨d, hd, hleast⟩ := s.distanceTo_least p h
    rw [hd, ← Set.image_image (fun r : ℝ => (r : EReal)) p.distance]
    exact (EReal.coe_strictMono.monotone.map_isLeast hleast).isGLB

/-- **The distance to a shape changes by no more than the distance moved.** -/
theorem distanceTo_le_add (s : Shape ℝ) (p q : Point ℝ) :
    s.exact.distanceTo p.exact ≤ s.exact.distanceTo q.exact + (p.distance q : ℝ) := by
  rcases eq_or_ne s.points [] with h | h
  · rw [distanceTo_exact_of_nil h, distanceTo_exact_of_nil h, EReal.top_add_coe]
  obtain ⟨d, hd, -, hleast⟩ := s.distanceTo_least p h
  obtain ⟨d', hd', ⟨r, hr, rfl⟩, -⟩ := s.distanceTo_least q h
  rw [hd, hd', ← EReal.coe_add, EReal.coe_le_coe_iff, add_comm]
  exact (hleast ⟨r, hr, rfl⟩).trans (p.distance_triangle q r)

end TransitMatching.Shape
