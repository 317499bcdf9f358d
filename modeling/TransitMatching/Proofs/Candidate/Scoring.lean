import Mathlib.Data.List.Forall2
import Mathlib.Tactic.FieldSimp
import Mathlib.Tactic.Ring
import TransitMatching.Proofs.Candidate.Identity
import TransitMatching.Proofs.Number.Real

/-!
# Scores in exact arithmetic

Scores take the distances from the nearest to the furthest candidate to the numbers
from one to zero, and turn their order round. So candidates that are listed by their
scores are listed by their distances, and where no link is listed twice nothing is
left to the order in which they came.

* `Spans`: the least and the greatest distance of candidates, which score one and zero.
* `score_lt_iff`: between them a greater distance has a lower score.
* `Scored`, `Ranked`: what scores say about distances, and a list about scores.
* `assignPriorities_ranks`: **scored candidates are listed by distance, side and link**,
  in whatever order they are given.
-/

namespace TransitMatching

/-! ## The span of distances -/

namespace Scalar

theorem filter_isNumber (l : List ℝ) : l.filter (fun a => decide (IsNumber a)) = l :=
  List.filter_eq_self.2 fun a _ => decide_eq_true (le_refl a)

/-- All reals are numbers, so the least number of some is the least of them. -/
theorem least?_eq_min? (l : List ℝ) : least? l = l.min? := by
  have hleast : (least : ℝ → ℝ → ℝ) = min := by
    funext a b
    unfold least
    rw [if_pos (show IsNumber b from le_refl b), min_def]
  unfold least?
  rw [filter_isNumber, hleast]
  cases l with
  | nil => rfl
  | cons a rest => exact List.min?_cons'.symm

theorem greatest?_eq_max? (l : List ℝ) : greatest? l = l.max? := by
  have hgreatest : (greatest : ℝ → ℝ → ℝ) = max := by
    funext a b
    unfold greatest
    rw [if_pos (show IsNumber b from le_refl b), max_comm, max_def]
  unfold greatest?
  rw [filter_isNumber, hgreatest]
  cases l with
  | nil => rfl
  | cons a rest => exact List.max?_cons'.symm

end Scalar

namespace LinkCandidate

/-- Two distances that candidates have, and between which all of them lie. -/
structure Spans (candidates : List (LinkCandidate ℝ)) (near far : ℝ) : Prop where
  near_mem : near ∈ candidates.map distance
  far_mem : far ∈ candidates.map distance
  bounds : ∀ c ∈ candidates, near ≤ c.distance ∧ c.distance ≤ far

variable {candidates other : List (LinkCandidate ℝ)} {near far near' far' d e : ℝ}

theorem Spans.le (h : Spans candidates near far) : near ≤ far := by
  obtain ⟨c, hc, rfl⟩ := List.mem_map.1 h.near_mem
  exact (h.bounds c hc).2

/-- Candidates have one span, in whatever order they are given. -/
theorem Spans.unique (h : Spans candidates near far) (h' : Spans other near' far')
    (hperm : other.Perm candidates) : near' = near ∧ far' = far := by
  obtain ⟨b, hb, rfl⟩ := List.mem_map.1 h.near_mem
  obtain ⟨c, hc, rfl⟩ := List.mem_map.1 h.far_mem
  obtain ⟨b', hb', rfl⟩ := List.mem_map.1 h'.near_mem
  obtain ⟨c', hc', rfl⟩ := List.mem_map.1 h'.far_mem
  constructor
  · exact le_antisymm (h'.bounds b (hperm.mem_iff.2 hb)).1 (h.bounds b' (hperm.mem_iff.1 hb')).1
  · exact le_antisymm (h.bounds c' (hperm.mem_iff.1 hc')).2 (h'.bounds c (hperm.mem_iff.2 hc)).2

/-- **Candidates are scored by the span of their distances.** -/
theorem exists_spans (hne : candidates ≠ []) :
    ∃ near far, Spans candidates near far ∧
      assignPriorities candidates =
        candidates.map fun c => c.withPriority (score near far c.distance) := by
  have hdistances : candidates.map distance ≠ [] := fun hnil => hne (List.map_eq_nil_iff.1 hnil)
  unfold assignPriorities
  dsimp only
  rw [Scalar.least?_eq_min?, Scalar.greatest?_eq_max?]
  cases hnear : (candidates.map distance).min? with
  | none => exact absurd (List.min?_eq_none_iff.1 hnear) hdistances
  | some near =>
    cases hfar : (candidates.map distance).max? with
    | none => exact absurd (List.max?_eq_none_iff.1 hfar) hdistances
    | some far =>
      obtain ⟨hnearMem, hnearLe⟩ := List.min?_eq_some_iff.1 hnear
      obtain ⟨hfarMem, hleFar⟩ := List.max?_eq_some_iff.1 hfar
      refine ⟨near, far, ⟨hnearMem, hfarMem, fun c hc => ?_⟩, rfl⟩
      have hdistance : c.distance ∈ candidates.map distance := List.mem_map_of_mem hc
      exact ⟨hnearLe _ hdistance, hleFar _ hdistance⟩

/-! ## Scores of distances -/

theorem score_of_lt (h : near < far) (d : ℝ) : score near far d = (far - d) / (far - near) := by
  have hspan : 0 < far - near := sub_pos.2 h
  have hscore : score near far d = 1 - (d - near) / (far - near) := if_pos hspan
  rw [hscore]
  field_simp
  ring

theorem score_of_le (h : far ≤ near) (d : ℝ) : score near far d = 1 :=
  if_neg (not_lt.2 (sub_nonpos.2 h))

theorem score_near (near far : ℝ) : score near far near = 1 := by
  rcases lt_or_ge near far with hlt | hle
  · rw [score_of_lt hlt]
    exact div_self (sub_pos.2 hlt).ne'
  · exact score_of_le hle near

theorem score_far (h : near < far) : score near far far = 0 := by
  rw [score_of_lt h, sub_self, zero_div]

/-- **The nearer distance has the higher score**, within the span. -/
theorem score_lt_iff (hd : near ≤ d) (hd' : d ≤ far) (he : near ≤ e) (he' : e ≤ far) :
    score near far e < score near far d ↔ d < e := by
  rcases lt_or_ge near far with hlt | hle
  · rw [score_of_lt hlt, score_of_lt hlt, div_lt_div_iff_of_pos_right (sub_pos.2 hlt),
      sub_lt_sub_iff_left]
  · -- The span is a single distance.
    have hsame : d = e := by
      rw [le_antisymm (hd'.trans hle) hd, le_antisymm (he'.trans hle) he]
    rw [hsame]
    exact iff_of_false (lt_irrefl _) (lt_irrefl _)

/-- Within the span scores go from zero to one. -/
theorem score_mem (hd : near ≤ d) (hd' : d ≤ far) :
    0 ≤ score near far d ∧ score near far d ≤ 1 := by
  rcases lt_or_ge near far with hlt | hle
  · have hspan : 0 < far - near := sub_pos.2 hlt
    rw [score_of_lt hlt]
    exact ⟨div_nonneg (sub_nonneg.2 hd') hspan.le, (div_le_one hspan).2 (sub_le_sub_left hd far)⟩
  · rw [score_of_le hle]
    exact ⟨zero_le_one, le_refl 1⟩

/-! ## Scored candidates -/

/-- What the scores of candidates say about their distances. -/
structure Scored (candidates scored : List (LinkCandidate ℝ)) : Prop where
  frame : List.Forall₂ (fun c s => s = c.withPriority s.priority) candidates scored
  range : ∀ s ∈ scored, 0 ≤ s.priority ∧ s.priority ≤ 1
  nearest : ∀ s ∈ scored, s.priority = 1 ↔ ∀ t ∈ scored, s.distance ≤ t.distance
  furthest : (∃ s ∈ scored, ∃ t ∈ scored, s.distance ≠ t.distance) →
    ∀ s ∈ scored, s.priority = 0 ↔ ∀ t ∈ scored, t.distance ≤ s.distance
  closer : ∀ s ∈ scored, ∀ t ∈ scored, s.distance < t.distance ↔ t.priority < s.priority
  alike : (∀ s ∈ scored, ∀ t ∈ scored, s.distance = t.distance) → ∀ s ∈ scored, s.priority = 1

/-- Candidates whose scores are read off the span of their distances. -/
structure ReadOff (scored : List (LinkCandidate ℝ)) (near far : ℝ) : Prop where
  spans : Spans scored near far
  priority : ∀ s ∈ scored, s.priority = score near far s.distance

section
variable {scored : List (LinkCandidate ℝ)} {s t : LinkCandidate ℝ}

theorem ReadOff.closer (h : ReadOff scored near far) (hs : s ∈ scored) (ht : t ∈ scored) :
    s.distance < t.distance ↔ t.priority < s.priority := by
  obtain ⟨hsNear, hsFar⟩ := h.spans.bounds s hs
  obtain ⟨htNear, htFar⟩ := h.spans.bounds t ht
  rw [h.priority s hs, h.priority t ht, score_lt_iff hsNear hsFar htNear htFar]

theorem ReadOff.range (h : ReadOff scored near far) (hs : s ∈ scored) :
    0 ≤ s.priority ∧ s.priority ≤ 1 := by
  obtain ⟨hsNear, hsFar⟩ := h.spans.bounds s hs
  rw [h.priority s hs]
  exact score_mem hsNear hsFar

/-- **The nearest candidates score one**, and no others. -/
theorem ReadOff.nearest (h : ReadOff scored near far) (hs : s ∈ scored) :
    s.priority = 1 ↔ ∀ t ∈ scored, s.distance ≤ t.distance := by
  constructor
  · intro hone t ht
    by_contra hlt
    have hmore := (h.closer ht hs).1 (not_le.1 hlt)
    rw [hone] at hmore
    exact absurd (h.range ht).2 (not_le.2 hmore)
  · intro hleast
    obtain ⟨first, hfirst, hnear⟩ := List.mem_map.1 h.spans.near_mem
    have hdistance : s.distance = near :=
      le_antisymm (hnear ▸ hleast first hfirst) (h.spans.bounds s hs).1
    rw [h.priority s hs, hdistance, score_near]

/-- **The furthest candidates score zero**, and no others, if the distances differ. -/
theorem ReadOff.furthest (h : ReadOff scored near far) (hlt : near < far) (hs : s ∈ scored) :
    s.priority = 0 ↔ ∀ t ∈ scored, t.distance ≤ s.distance := by
  constructor
  · intro hzero t ht
    by_contra hgt
    have hless := (h.closer hs ht).1 (not_le.1 hgt)
    rw [hzero] at hless
    exact absurd (h.range ht).1 (not_le.2 hless)
  · intro hgreatest
    obtain ⟨last, hlast, hfar⟩ := List.mem_map.1 h.spans.far_mem
    have hdistance : s.distance = far :=
      le_antisymm (h.spans.bounds s hs).2 (hfar ▸ hgreatest last hlast)
    rw [h.priority s hs, hdistance, score_far hlt]

/-- If two distances differ, the span is no single distance. -/
theorem Spans.lt_of_ne (h : Spans scored near far) (hs : s ∈ scored) (ht : t ∈ scored)
    (hne : s.distance ≠ t.distance) : near < far := by
  refine lt_of_le_of_ne h.le fun heq => hne ?_
  obtain ⟨hsNear, hsFar⟩ := h.bounds s hs
  obtain ⟨htNear, htFar⟩ := h.bounds t ht
  exact le_antisymm (hsFar.trans (heq ▸ htNear)) (htFar.trans (heq ▸ hsNear))

end

/-- Scoring changes no distance, so the scored candidates have the span that they are scored by. -/
theorem Spans.readOff (h : Spans candidates near far) :
    ReadOff (candidates.map fun c => c.withPriority (score near far c.distance)) near far := by
  have hdistances : (candidates.map fun c => c.withPriority (score near far c.distance)).map
      distance = candidates.map distance := by
    rw [List.map_map]
    rfl
  refine ⟨⟨hdistances ▸ h.near_mem, hdistances ▸ h.far_mem, fun s hs => ?_⟩, fun s hs => ?_⟩
  · obtain ⟨c, hc, rfl⟩ := List.mem_map.1 hs
    exact h.bounds c hc
  · obtain ⟨c, -, rfl⟩ := List.mem_map.1 hs
    rfl

/-- **Scores tell distances**, and scoring changes nothing else. -/
theorem scored_assignPriorities (hne : candidates ≠ []) :
    Scored candidates (assignPriorities candidates) := by
  obtain ⟨near, far, hspans, hassign⟩ := exists_spans hne
  have hread := hspans.readOff
  rw [← hassign] at hread
  exact
    { frame := by
        rw [hassign, List.forall₂_map_right_iff]
        exact List.forall₂_same.2 fun _ _ => rfl
      range := fun s hs => hread.range hs
      nearest := fun s hs => hread.nearest hs
      furthest := by
        rintro ⟨a, ha, b, hb, hab⟩ s hs
        exact hread.furthest (hread.spans.lt_of_ne ha hb hab) hs
      closer := fun s hs t ht => hread.closer hs ht
      alike := fun halike s hs => (hread.nearest hs).2 fun t ht => (halike s hs t ht).le }

/-- The same candidates are scored alike, in whatever order they are given. -/
theorem assignPriorities_perm (hne : candidates ≠ []) (hperm : other.Perm candidates) :
    (assignPriorities other).Perm (assignPriorities candidates) := by
  have hne' : other ≠ [] := fun hnil => hne (List.Perm.eq_nil (hnil ▸ hperm.symm))
  obtain ⟨near, far, hspans, hassign⟩ := exists_spans hne
  obtain ⟨near', far', hspans', hassign'⟩ := exists_spans hne'
  obtain ⟨rfl, rfl⟩ := hspans.unique hspans' hperm
  rw [hassign, hassign']
  exact hperm.map _

/-! ## Ranked candidates -/

/-- The nearer candidate comes first, of two at one distance the one that has the stop on its right,
and of two on one side the one with the lower link. -/
def Precedes (a b : LinkCandidate ℝ) : Prop :=
  a.distance < b.distance ∨ a.distance = b.distance ∧
    (a.onRight = true ∧ b.onRight = false ∨ a.onRight = b.onRight ∧ a.link ≤ b.link)

/-- Candidates listed by distance, side and link. -/
structure Ranked (scored : List (LinkCandidate ℝ)) (ranked : LinkCandidates ℝ) : Prop where
  perm : ranked.toList.Perm scored
  sorted : ranked.toList.Pairwise Precedes

/-- **The order by scores is that by distances**, since the nearer of two scores higher. -/
theorem precedes_of_compare {a b : LinkCandidate ℝ}
    (hab : a.distance < b.distance ↔ b.priority < a.priority)
    (hba : b.distance < a.distance ↔ a.priority < b.priority) (h : (a.compare b).isLE = true) :
    a.Precedes b := by
  have hcompare : (b.priority < a.priority) ∨ b.priority = a.priority ∧
      ((Ord.compare b.onRight a.onRight).then
        ((Ord.compare a.link b.link).then (Ord.compare a.stop b.stop))).isLE = true := by
    rw [compare, Ordering.isLE_then_iff_or] at h
    exact h.imp compare_lt_iff_lt.1 fun hrest => ⟨compare_eq_iff_eq.1 hrest.1, hrest.2⟩
  rcases hcompare with hless | ⟨hscore, hrest⟩
  · exact .inl (hab.2 hless)
  · right
    have hdistance : a.distance = b.distance := by
      refine le_antisymm (not_lt.1 fun hlt => ?_) (not_lt.1 fun hlt => ?_)
      · exact absurd (hba.1 hlt) (hscore ▸ lt_irrefl _)
      · exact absurd (hab.1 hlt) (hscore ▸ lt_irrefl _)
    refine ⟨hdistance, ?_⟩
    rcases Ordering.isLE_then_iff_or.1 hrest with hright | ⟨hside, hlink⟩
    · left
      obtain ⟨hb, ha⟩ := Bool.lt_iff.1 (compare_lt_iff_lt.1 hright)
      exact ⟨ha, hb⟩
    · right
      refine ⟨(compare_eq_iff_eq.1 hside).symm, ?_⟩
      rcases Ordering.isLE_then_iff_or.1 hlink with hlt | ⟨heq, -⟩
      · exact (Nat.compare_eq_lt.1 hlt).le
      · exact (Nat.compare_eq_eq.1 heq).le

theorem ranked_ofList {scored : List (LinkCandidate ℝ)} (h : Scored candidates scored) :
    Ranked scored (.ofList scored) where
  perm := sortBy_perm _ scored
  sorted := by
    have hsorted : (sortBy LinkCandidate.compare scored).Pairwise
        fun a b => (a.compare b).isLE = true := sortBy_sorted scored
    refine hsorted.imp_of_mem fun {a b} ha hb hle => ?_
    have hmem := mem_sortBy.1 ha
    have hmem' := mem_sortBy.1 hb
    exact precedes_of_compare (h.closer a hmem b hmem') (h.closer b hmem' a hmem) hle

/-- Candidates with different links have one order. -/
theorem ofList_eq_of_perm {α : Type} [Scalar α] {l l' : List (LinkCandidate α)}
    (hnodup : (l.map link).Nodup) (hperm : l'.Perm l) :
    LinkCandidates.ofList l' = LinkCandidates.ofList l := by
  refine congrArg LinkCandidates.mk ?_
  refine List.Perm.eq_of_pairwise ?_ (sortBy_sorted l') (sortBy_sorted l)
    ((sortBy_perm _ l').trans (hperm.trans (sortBy_perm _ l).symm))
  -- Two of which neither comes before the other have one link, and so they are one.
  intro a b ha hb hab hba
  have hsame := (compare_eq_iff.1 (Std.OrientedCmp.isLE_antisymm hab hba)).1
  exact List.inj_on_of_nodup_map hnodup (hperm.mem_iff.1 (mem_sortBy.1 ha)) (mem_sortBy.1 hb)
    hsame.1

/-- **Scored candidates are listed by distance, side and link.** The nearest score one and the
furthest zero, the nearer one of two always higher; scoring changes nothing else. Where no link is
listed twice, the list does not depend on the order in which the candidates are given. -/
theorem assignPriorities_ranks (candidates : List (LinkCandidate ℝ)) (hne : candidates ≠ []) :
    Scored candidates (assignPriorities candidates) ∧
      Ranked (assignPriorities candidates) (.ofList (assignPriorities candidates)) ∧
      ((candidates.map link).Nodup → ∀ other : List (LinkCandidate ℝ), other.Perm candidates →
        LinkCandidates.ofList (assignPriorities other) =
          LinkCandidates.ofList (assignPriorities candidates)) := by
  have hscored := scored_assignPriorities hne
  refine ⟨hscored, ranked_ofList hscored, fun hnodup other hperm => ?_⟩
  have hlinks : (assignPriorities candidates).map link = candidates.map link := by
    obtain ⟨q, hq⟩ := exists_assignPriorities_eq candidates
    rw [hq, List.map_map]
    rfl
  exact ofList_eq_of_perm (hlinks ▸ hnodup) (assignPriorities_perm hne hperm)

/-- A candidate of a link at a distance. -/
def atDistance (link : LinkIx) (distance : ℝ) (onRight : Bool) : LinkCandidate ℝ where
  link
  stop := "s"
  distance
  sourcePosition := ⟨0, 0⟩
  targetPosition := ⟨0, 0⟩
  isLoop := false
  onRight
  priority := 1

/-- One of three links is at the stop, and of the two others one has it on its right. They are
listed alike the other way round. -/
theorem assignPriorities_ranks_threefold :
    let candidates : List (LinkCandidate ℝ) :=
      [.atDistance 0 1 false, .atDistance 1 0 false, .atDistance 2 1 true]
    candidates ≠ [] ∧ (candidates.map link).Nodup ∧ candidates.reverse.Perm candidates ∧
      Scored candidates (assignPriorities candidates) ∧
      LinkCandidates.ofList (assignPriorities candidates.reverse) =
        LinkCandidates.ofList (assignPriorities candidates) := by
  intro candidates
  have hne : candidates ≠ [] := List.cons_ne_nil _ _
  have hnodup : (candidates.map link).Nodup := by decide
  have hperm : candidates.reverse.Perm candidates := List.reverse_perm candidates
  have hranks := assignPriorities_ranks candidates hne
  exact ⟨hne, hnodup, hperm, hranks.1, hranks.2.2 hnodup _ hperm⟩

end LinkCandidate

end TransitMatching
