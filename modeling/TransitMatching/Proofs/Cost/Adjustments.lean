import Mathlib.Data.EReal.Inv
import TransitMatching.Proofs.Cost.Ramp
import TransitMatching.Proofs.Network.Growth
import TransitMatching.Proofs.Number.Extended
import TransitMatching.Proofs.Number.Least
import TransitMatching.Proofs.Routing.Memory
import TransitMatching.Proofs.Settings.Validation

/-!
# Costs under settings that were checked

A cost is built from a base by factors and penalties, in whatever order the rules come
that contribute them, and rules that would change nothing are left out. Settings that pass
their checks have positive factors and no negative penalty, so costs stay what a search
takes them to be. All of this is about exact arithmetic; the distance to a shape without
points is infinite.

* `Settings.shapeFactor`, `Settings.routeFactor`, `Settings.turnPenalty`: what the rules
  contribute, if they are there or not.
* `BiasProfile.multiplier_pos`: a bias that was checked has positive factors only.
* `CostModel.linkCost_congr_perm`: the order of the rules does not matter.
* `CostModel.linkCost_ofSettings`: a cost taken apart.
* `CostModel.Reworked`: a model whose rules have been put in another order, or have measured links.
* `CostModel.linkCost_sound`: **costs under settings that were checked are not negative**, and zero
  only where nothing is charged.
-/

namespace TransitMatching

/-! ## What rules contribute -/

section
variable {α : Type} [Scalar α]

namespace Settings

/-- The factor of a link by its distance to the shape, if there is a shape and a bias. -/
def shapeFactor (s : Settings α) (shape : Option (Shape α)) (context : LinkContext α) : α :=
  match shape, s.costs.shapeBias with
  | some shape, some profile =>
    profile.multiplier (shape.segmentDistance (context.network.linkLine context.link).1
      (context.network.linkLine context.link).2)
  | _, _ => 1

/-- The factor of a link that the schedule mode is known to travel on. -/
def routeFactor (s : Settings α) (context : LinkContext α) : α :=
  if context.mode ∈ (context.network.link context.link).osmModes then s.costs.osmFactor else 1

/-- The penalty of a link that leads back along the one that the path departs from. -/
def turnPenalty (s : Settings α) (context : LinkContext α) : α :=
  if context.departure.bind context.network.oppositeLink? = some context.link then
    s.costs.uTurnPenalty
  else 0

end Settings

/-- A shape without points is infinitely far away from any link. -/
theorem Shape.segmentDistance_of_isEmpty {s : Shape α} (h : s.isEmpty = true) (a b : Point α) :
    s.segmentDistance a b = Scalar.infinity := by
  unfold segmentDistance
  cases hleast : Scalar.least? ((samples a b).map s.distanceTo) with
  | none => rfl
  | some m =>
    obtain ⟨p, -, rfl⟩ := List.mem_map.1 (Scalar.mem_of_least? hleast)
    exact distanceTo_of_nil (List.isEmpty_iff.1 h) p

end

/-! ## Factors that were checked -/

namespace BiasProfile

/-- All values of a profile are reals. -/
def Finite : BiasProfile EReal → Prop
  | graded nearDistance farDistance nearFactor farFactor =>
    IsReal nearDistance ∧ IsReal farDistance ∧ IsReal nearFactor ∧ IsReal farFactor
  | simple nearDistance nearFactor => IsReal nearDistance ∧ IsReal nearFactor

/-- **A bias that was checked has positive factors only**, at any distance. -/
theorem multiplier_pos {profile : BiasProfile EReal} (hvalid : profile.validate = .ok ())
    (hfinite : profile.Finite) (d : EReal) : 0 < profile.multiplier d := by
  cases profile with
  | simple nearDistance nearFactor =>
    rw [multiplier]
    split
    · exact (validate_simple_iff.1 hvalid).1
    · exact zero_lt_one
  | graded nearDistance farDistance nearFactor farFactor =>
    obtain ⟨hnearFactor, hfarFactor, -, -⟩ := validate_graded_iff.1 hvalid
    obtain ⟨⟨near, rfl⟩, ⟨far, rfl⟩, ⟨nearFactor, rfl⟩, ⟨farFactor, rfl⟩⟩ := hfinite
    exact multiplier_graded_pos (near_lt_far_of_validate hvalid) (EReal.coe_pos.1 hnearFactor)
      (EReal.coe_pos.1 hfarFactor) d

end BiasProfile

/-- All settings of costs are reals. -/
structure CostSettings.Finite (c : CostSettings EReal) : Prop where
  shapeBias : ∀ profile ∈ c.shapeBias, profile.Finite
  uTurnPenalty : IsReal c.uTurnPenalty
  osmFactor : IsReal c.osmFactor
  candidateDistanceWeight : IsReal c.candidateDistanceWeight

namespace Settings

variable {s : Settings EReal}

theorem shapeFactor_pos (hvalid : s.validate = .ok ()) (hfinite : s.costs.Finite)
    (shape : Option (Shape EReal)) (context : LinkContext EReal) :
    0 < s.shapeFactor shape context := by
  unfold shapeFactor
  split
  · next shape profile hprofile =>
    have hchecked := (costs_of_validate hvalid).2.2.2 profile hprofile
    exact BiasProfile.multiplier_pos hchecked (hfinite.shapeBias profile hprofile) _
  · exact zero_lt_one

theorem routeFactor_pos (hvalid : s.validate = .ok ()) (context : LinkContext EReal) :
    0 < s.routeFactor context := by
  unfold routeFactor
  split
  · exact (costs_of_validate hvalid).1
  · exact zero_lt_one

theorem turnPenalty_nonneg (hvalid : s.validate = .ok ()) (context : LinkContext EReal) :
    0 ≤ s.turnPenalty context := by
  unfold turnPenalty
  split
  · exact (costs_of_validate hvalid).2.1
  · exact le_rfl

end Settings

/-! ## Rules in any order -/

namespace CostModel

section
variable {α : Type} [Scalar α]

/-- The product of factors and the sum of penalties so far, with what rules contribute. -/
def contributed (rules : List (Strategy α)) (context : LinkContext α) (total : α × α) : α × α :=
  (rules.filterMap fun s => s.adjust context).foldl accumulate total

theorem linkCost_eq (m : CostModel α) (context : LinkContext α) :
    m.linkCost context =
      m.baseCost (context.network.link context.link) * (contributed m.strategies context (1, 0)).1 +
        (contributed m.strategies context (1, 0)).2 := rfl

theorem baseCost_congr {m m' : CostModel α} (h : m.costType = m'.costType) (l : Link α) :
    m.baseCost l = m'.baseCost l := by
  unfold baseCost
  rw [h]

theorem contributed_append (rules more : List (Strategy α)) (context : LinkContext α)
    (total : α × α) :
    contributed (rules ++ more) context total =
      contributed more context (contributed rules context total) := by
  unfold contributed
  rw [List.filterMap_append, List.foldl_append]

theorem contributed_singleton (rule : Strategy α) (context : LinkContext α) (total : α × α) :
    contributed [rule] context total = (rule.adjust context).elim total (accumulate total) := by
  unfold contributed
  cases h : rule.adjust context <;> simp [h]

theorem strategies_ofSettings (s : Settings α) (shape : Option (Shape α)) :
    (ofSettings s shape).strategies =
      (shape.bind fun shape => s.costs.shapeBias.map fun profile =>
        Strategy.shapeBias { shape, profile }).toList ++
      (if Scalar.Same s.costs.osmFactor 1 then [] else [.osmFactor s.costs.osmFactor]) ++
      (if 0 < s.costs.uTurnPenalty then [.uTurn s.costs.uTurnPenalty] else []) := by
  unfold ofSettings
  dsimp only
  cases shape with
  | none => rfl
  | some shape => cases s.costs.shapeBias <;> rfl

end

/-- One adjustment may be taken before another. -/
instance : RightCommutative (accumulate (α := EReal)) where
  right_comm total a b := by
    cases a <;> cases b <;> simp only [accumulate, mul_right_comm, add_right_comm]

theorem contributed_perm {rules rules' : List (Strategy EReal)} (h : rules.Perm rules')
    (context : LinkContext EReal) (total : EReal × EReal) :
    contributed rules context total = contributed rules' context total := by
  unfold contributed
  exact (h.filterMap _).foldl_eq total

/-- **The order of the rules does not matter.** -/
theorem linkCost_congr_perm {m m' : CostModel EReal} (htype : m.costType = m'.costType)
    (hperm : m.strategies.Perm m'.strategies) (context : LinkContext EReal) :
    m.linkCost context = m'.linkCost context := by
  rw [linkCost_eq, linkCost_eq, baseCost_congr htype, contributed_perm hperm]

/-- A model that comes about from a fresh one when rules are put in another order and distances of
links are measured and kept. -/
inductive Reworked {α : Type} [Scalar α] (net : Network α) (fresh : CostModel α) :
    CostModel α → Prop
  | fresh : Reworked net fresh fresh
  | permute {m : CostModel α} {rules : List (Strategy α)} :
      Reworked net fresh m → rules.Perm m.strategies →
        Reworked net fresh { m with strategies := rules }
  | remember {m : CostModel α} (ix : LinkIx) :
      Reworked net fresh m → Reworked net fresh (m.remember net ix)

theorem Reworked.costType {α : Type} [Scalar α] {net : Network α} {fresh m : CostModel α}
    (h : Reworked net fresh m) : m.costType = fresh.costType := by
  induction h with
  | fresh => rfl
  | permute _ _ ih => exact ih
  | remember _ _ ih => exact ih

/-- No rearrangement and nothing that is kept changes a cost. -/
theorem Reworked.linkCost_eq {context : LinkContext EReal} {fresh m : CostModel EReal}
    (h : Reworked context.network fresh m) : m.linkCost context = fresh.linkCost context := by
  induction h with
  | fresh => rfl
  | @permute m rules _ hperm ih =>
    have htype : ({ m with strategies := rules } : CostModel EReal).costType = m.costType := rfl
    exact (linkCost_congr_perm htype hperm context).trans ih
  | remember ix _ ih => exact (linkCost_remember _ context ix).trans ih

/-! ## A cost taken apart -/

variable (s : Settings EReal) (shape : Option (Shape EReal)) (context : LinkContext EReal)

theorem contributed_shapeBias (total : EReal × EReal) :
    contributed (shape.bind fun shape => s.costs.shapeBias.map fun profile =>
        .shapeBias { shape, profile }).toList context total =
      (total.1 * s.shapeFactor shape context, total.2) := by
  unfold Settings.shapeFactor
  cases shape with
  | none => exact congrArg (·, total.2) (mul_one total.1).symm
  | some shape =>
    cases s.costs.shapeBias with
    | none => exact congrArg (·, total.2) (mul_one total.1).symm
    | some profile => rfl

theorem contributed_osmFactor (total : EReal × EReal) :
    contributed (if Scalar.Same s.costs.osmFactor 1 then [] else [.osmFactor s.costs.osmFactor])
        context total =
      (total.1 * s.routeFactor context, total.2) := by
  unfold Settings.routeFactor
  split
  · next hsame =>
    have hone : s.costs.osmFactor = 1 := le_antisymm hsame.1 hsame.2
    rw [hone, ite_self, mul_one]
    rfl
  · have hcontains : (context.network.link context.link).osmModes.contains context.mode = true ↔
        context.mode ∈ (context.network.link context.link).osmModes := Iff.rfl
    rw [contributed_singleton, Strategy.adjust]
    simp only [hcontains]
    split
    · rfl
    · exact congrArg (·, total.2) (mul_one total.1).symm

theorem contributed_uTurn (hpenalty : 0 ≤ s.costs.uTurnPenalty) (total : EReal × EReal) :
    contributed (if 0 < s.costs.uTurnPenalty then [.uTurn s.costs.uTurnPenalty] else [])
        context total =
      (total.1, total.2 + s.turnPenalty context) := by
  unfold Settings.turnPenalty
  split
  · rw [contributed_singleton, Strategy.adjust]
    cases context.departure with
    | none => exact congrArg (total.1, ·) (add_zero total.2).symm
    | some departure =>
      dsimp only [Option.bind_some]
      split
      · rfl
      · exact congrArg (total.1, ·) (add_zero total.2).symm
  · next hpos =>
    have hzero : s.costs.uTurnPenalty = 0 := le_antisymm (not_lt.1 hpos) hpenalty
    rw [hzero, ite_self, add_zero]
    rfl

variable {s}

/-- **A cost under settings is the base times the factors plus the penalty**, though the rules that
would change nothing are left out. -/
theorem linkCost_ofSettings (hpenalty : 0 ≤ s.costs.uTurnPenalty) :
    (ofSettings s shape).linkCost context =
      (ofSettings s shape).baseCost (context.network.link context.link) *
          s.shapeFactor shape context * s.routeFactor context +
        s.turnPenalty context := by
  rw [linkCost_eq, strategies_ofSettings, contributed_append, contributed_append,
    contributed_shapeBias, contributed_osmFactor, contributed_uTurn _ _ hpenalty, one_mul, zero_add,
    mul_assoc]

/-- **Costs under settings that were checked are not negative**, and zero only where nothing is
charged. A cost is the base times the factors plus the penalty. It stays the same in whatever order
the rules are put and whatever distances are kept. -/
theorem linkCost_sound (hvalid : s.validate = .ok ()) (hfinite : s.costs.Finite)
    {m : CostModel EReal} (hm : Reworked context.network (ofSettings s shape) m)
    (hbase : 0 ≤ m.baseCost (context.network.link context.link)) :
    m.linkCost context = (ofSettings s shape).linkCost context ∧
      m.linkCost context =
        m.baseCost (context.network.link context.link) *
            s.shapeFactor shape context * s.routeFactor context +
          s.turnPenalty context ∧
      0 ≤ m.linkCost context ∧
      (m.linkCost context = 0 ↔
        m.baseCost (context.network.link context.link) = 0 ∧ s.turnPenalty context = 0) := by
  have hpenalty := Settings.turnPenalty_nonneg hvalid context
  have hshape := Settings.shapeFactor_pos hvalid hfinite shape context
  have hroute := Settings.routeFactor_pos hvalid context
  have hscaled : 0 ≤ m.baseCost (context.network.link context.link) *
      s.shapeFactor shape context * s.routeFactor context :=
    mul_nonneg (mul_nonneg hbase hshape.le) hroute.le
  have hcost : m.linkCost context =
      m.baseCost (context.network.link context.link) *
          s.shapeFactor shape context * s.routeFactor context +
        s.turnPenalty context := by
    rw [hm.linkCost_eq, linkCost_ofSettings shape context (Settings.costs_of_validate hvalid).2.1,
      baseCost_congr hm.costType]
  refine ⟨hm.linkCost_eq, hcost, hcost ▸ add_nonneg hscaled hpenalty, ?_⟩
  rw [hcost, add_eq_zero_iff_of_nonneg hscaled hpenalty, mul_eq_zero, mul_eq_zero,
    or_iff_left hroute.ne', or_iff_left hshape.ne']

/-! ## Turning back in a street -/

/-- A link of the street, which buses are known to travel on. -/
noncomputable def busLink (id : String) (source target : NodeIx) : Link EReal where
  id
  source
  target
  length := ((50 : ℝ) : EReal)
  freespeed := 1
  capacity := 1
  modes := .ofList ["car"]
  osmModes := .ofList ["bus"]
  artificial := false

/-- A street with a link each way. -/
noncomputable def busStreet : Network EReal :=
  (((Network.empty.withPlace "a" ⟨0, 0⟩).withPlace "b" ⟨((50 : ℝ) : EReal), 0⟩).withLink
    (busLink "forth" 0 1)).withLink (busLink "back" 1 0)

/-- A bias that favours links near the shape. -/
noncomputable def busBias : BiasProfile EReal :=
  .graded ((20 : ℝ) : EReal) ((100 : ℝ) : EReal) ((1 / 4 : ℝ) : EReal) ((4 : ℝ) : EReal)

/-- Settings under which there is something to charge by every rule. -/
noncomputable def busSettings : Settings EReal where
  costs :=
    { shapeBias := some busBias
      uTurnPenalty := ((10 : ℝ) : EReal)
      osmFactor := ((4 / 5 : ℝ) : EReal) }

/-- A bus that turns back in the street. -/
noncomputable def turningBack : LinkContext EReal where
  network := busStreet
  link := 1
  departure := some 0
  mode := "bus"

theorem validate_busSettings : busSettings.validate = .ok () := by
  rw [Settings.validate_iff, CostSettings.validate_iff]
  refine ⟨?radius, Nat.one_ne_zero, nofun, ?factor, ?penalty, le_rfl, ?bias⟩
  case radius => exact EReal.coe_pos.2 (by norm_num : (0 : ℝ) < (500 : ℕ))
  case factor => exact EReal.coe_pos.2 (by norm_num)
  case penalty => exact EReal.coe_nonneg.2 (by norm_num)
  case bias =>
    rintro _ ⟨⟩
    have hwidth : 0 < ((100 : ℝ) : EReal) - ((20 : ℝ) : EReal) := by
      rw [← EReal.coe_sub]
      exact EReal.coe_pos.2 (by norm_num)
    exact BiasProfile.validate_graded_iff.2 ⟨EReal.coe_pos.2 (by norm_num),
      EReal.coe_pos.2 (by norm_num), EReal.coe_nonneg.2 (by norm_num), hwidth⟩

theorem finite_busSettings : busSettings.costs.Finite where
  shapeBias := by
    rintro _ ⟨⟩
    exact ⟨⟨_, rfl⟩, ⟨_, rfl⟩, ⟨_, rfl⟩, ⟨_, rfl⟩⟩
  uTurnPenalty := ⟨_, rfl⟩
  osmFactor := ⟨_, rfl⟩
  candidateDistanceWeight := ⟨0, rfl⟩

/-- The model of the settings for a shape without points, its rules put in another order and the
distance of one link kept. -/
noncomputable def busModel : CostModel EReal :=
  let fresh := ofSettings busSettings (some ⟨"s", []⟩)
  { fresh with strategies := fresh.strategies.reverse }.remember busStreet 1

/-- Turning back far from the shape costs the length by both factors, and the penalty. -/
theorem linkCost_sound_turningBack :
    busSettings.validate = .ok () ∧ busSettings.costs.Finite ∧
      Reworked busStreet (ofSettings busSettings (some ⟨"s", []⟩)) busModel ∧
      busModel.baseCost (busStreet.link 1) = ((50 : ℝ) : EReal) ∧
      busModel.linkCost turningBack = ((170 : ℝ) : EReal) ∧ 0 ≤ busModel.linkCost turningBack := by
  have hmodel : Reworked busStreet (ofSettings busSettings (some ⟨"s", []⟩)) busModel :=
    .remember 1 (.permute .fresh (List.reverse_perm _))
  have hlength : busModel.baseCost (busStreet.link 1) = ((50 : ℝ) : EReal) := rfl
  have hbase : 0 ≤ busModel.baseCost (busStreet.link 1) := by
    rw [hlength]
    exact EReal.coe_nonneg.2 (by norm_num)
  have hsound := linkCost_sound (some ⟨"s", []⟩) turningBack validate_busSettings
    finite_busSettings hmodel hbase
  have hshape : busSettings.shapeFactor (some ⟨"s", []⟩) turningBack = ((4 : ℝ) : EReal) := by
    have hfar : Shape.segmentDistance ⟨"s", []⟩ (busStreet.linkLine 1).1 (busStreet.linkLine 1).2 =
        (⊤ : EReal) := Shape.segmentDistance_of_isEmpty rfl _ _
    have hfactor : busSettings.shapeFactor (some ⟨"s", []⟩) turningBack =
        busBias.multiplier (Shape.segmentDistance ⟨"s", []⟩ (busStreet.linkLine 1).1
          (busStreet.linkLine 1).2) := rfl
    rw [hfactor, hfar, busBias, BiasProfile.multiplier, if_neg not_top_lt, if_pos le_top]
  have hroute : busSettings.routeFactor turningBack = ((4 / 5 : ℝ) : EReal) :=
    if_pos (by decide : "bus" ∈ (busStreet.link 1).osmModes)
  have hpenalty : busSettings.turnPenalty turningBack = ((10 : ℝ) : EReal) :=
    if_pos (by decide : busStreet.oppositeLink? 0 = some 1)
  have hcost : busModel.linkCost turningBack = ((170 : ℝ) : EReal) := by
    refine hsound.2.1.trans ?_
    rw [hshape, hroute, hpenalty]
    refine (congrArg (· * ((4 : ℝ) : EReal) * ((4 / 5 : ℝ) : EReal) + ((10 : ℝ) : EReal))
      hlength).trans ?_
    norm_num [← EReal.coe_mul, ← EReal.coe_add]
  exact ⟨validate_busSettings, finite_busSettings, hmodel, hlength, hcost, hsound.2.2.1⟩

end CostModel

end TransitMatching
