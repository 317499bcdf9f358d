import TransitMatching.Proofs.Candidate.Ranking
import TransitMatching.Proofs.Network.Chains

/-!
# Candidates that are taken for the same

Candidates are the same if they pair one link and one stop at one score. Their order
reads one thing more, the side of the link on which the stop lies, which is told by
the position that a candidate is constructed with and not by the key of its stop. So
neither of two candidates comes before the other if they are the same and have the
stop on one side, and the order has no tie but between the same candidates as long as
every stop has one position.

* `LinkCandidate.compare_eq_iff`: when neither of two candidates comes before the other.
* `LinkCandidate.Placed.onRight_eq`: at the position of its stop a link has one side.
* `LinkCandidate.compare_orders`: **candidates are totally ordered**, up to their sides
  and, where stops have one position each, up to being the same.
* `LinkCandidate.not_orders_mirrored`: a stop at two positions.
-/

namespace TransitMatching

/-- A comparison puts all things with a property in a total order, in which it takes two of them to
be equal just if they are the same. -/
structure Orders {β : Type} (P : β → Prop) (cmp : β → β → Ordering) (same : β → β → Prop) :
    Prop where
  refl : ∀ a, P a → cmp a a = .eq
  swap : ∀ a b, P a → P b → cmp b a = (cmp a b).swap
  trans : ∀ a b c, P a → P b → P c →
    (cmp a b).isLE = true → (cmp b c).isLE = true → (cmp a c).isLE = true
  total : ∀ a b, P a → P b → (cmp a b).isLE = true ∨ (cmp b a).isLE = true
  antisymm : ∀ a b, P a → P b → (cmp a b).isLE = true → (cmp b a).isLE = true → same a b
  eq_iff : ∀ a b, P a → P b → (cmp a b = .eq ↔ same a b)

/-- A comparison that is a total order everywhere is one of the things with a property, and up to
whatever it takes to be equal there. -/
theorem Orders.of_transCmp {β : Type} {P : β → Prop} {cmp : β → β → Ordering} [Std.TransCmp cmp]
    {same : β → β → Prop} (h : ∀ a b, P a → P b → (cmp a b = .eq ↔ same a b)) :
    Orders P cmp same where
  refl _ _ := Std.ReflCmp.compare_self
  swap _ _ _ _ := Std.OrientedCmp.eq_swap
  trans _ _ _ _ _ _ hab hbc := Std.TransCmp.isLE_trans hab hbc
  total a b _ _ := by
    have hswap : cmp b a = (cmp a b).swap := Std.OrientedCmp.eq_swap
    rw [hswap]
    cases cmp a b with
    | lt => exact .inl rfl
    | eq => exact .inl rfl
    | gt => exact .inr rfl
  antisymm a b ha hb hab hba := (h a b ha hb).1 (Std.OrientedCmp.isLE_antisymm hab hba)
  eq_iff := h

namespace LinkCandidate

section
variable {α : Type} [Scalar α] {a b : LinkCandidate α}

/-- **Neither of two candidates comes before the other** if they are the same and have the stop on
one side. -/
theorem compare_eq_iff : a.compare b = .eq ↔ a.Same b ∧ a.onRight = b.onRight := by
  have hpriority : Scalar.order b.priority a.priority = .eq ↔
      Scalar.order a.priority b.priority = .eq := Std.OrientedCmp.eq_comm
  have hside : Ord.compare b.onRight a.onRight = .eq ↔ b.onRight = a.onRight :=
    Std.LawfulEqCmp.compare_eq_iff_eq
  have hlink : Ord.compare a.link b.link = .eq ↔ a.link = b.link :=
    Std.LawfulEqCmp.compare_eq_iff_eq
  have hstop : Ord.compare a.stop b.stop = .eq ↔ a.stop = b.stop :=
    Std.LawfulEqCmp.compare_eq_iff_eq
  unfold compare Same
  rw [Ordering.then_eq_eq, Ordering.then_eq_eq, Ordering.then_eq_eq, hpriority, hside, hlink, hstop]
  constructor
  · rintro ⟨hpriority, hside, hlink, hstop⟩
    exact ⟨⟨hlink, hstop, hpriority⟩, hside.symm⟩
  · rintro ⟨⟨hlink, hstop, hpriority⟩, hside⟩
    exact ⟨hpriority, hside.symm, hlink, hstop⟩

end

section
variable {α : Type} [Scalar α] [DecimalText α]

/-- A candidate constructed for any link and occurrence, at any position and with any score. -/
def Constructed (net : Network α) (c : LinkCandidate α) : Prop :=
  ∃ ix o position priority, c = (ofOccurrence net ix o position).withPriority priority

/-- A candidate constructed at the position that is given for its stop. -/
def Placed (net : Network α) (place : String → Point α) (c : LinkCandidate α) : Prop :=
  ∃ ix o priority, c = (ofOccurrence net ix o (place o.key)).withPriority priority

variable {net : Network α} {place : String → Point α} {a b c : LinkCandidate α}

/-- The side of a candidate is that of the position of its stop. -/
theorem Placed.onRight (h : Placed net place c) :
    c.onRight = (place c.stop).isRightOf (net.linkLine c.link).1 (net.linkLine c.link).2 := by
  obtain ⟨ix, o, priority, rfl⟩ := h
  rfl

/-- **The same candidates have their stop on one side**, if the stop has one position. -/
theorem Placed.onRight_eq (ha : Placed net place a) (hb : Placed net place b) (h : a.Same b) :
    a.onRight = b.onRight := by
  obtain ⟨hlink, hstop, -⟩ := h
  rw [ha.onRight, hb.onRight, hlink, hstop]

/-- **Candidates are totally ordered.** Of all that can be constructed in a network, two are equal
in the order just if they are the same and have their stop on one side. Where every stop is given
one position, two are equal just if they are the same. -/
theorem compare_orders (net : Network α) :
    Orders (Constructed net) compare (fun a b => a.Same b ∧ a.onRight = b.onRight) ∧
      ∀ place : String → Point α, Orders (Placed net place) compare Same := by
  refine ⟨.of_transCmp fun _ _ _ _ => compare_eq_iff, fun place => .of_transCmp ?_⟩
  intro a b ha hb
  rw [compare_eq_iff, and_iff_left_iff_imp]
  exact ha.onRight_eq hb

end

/-! ## A stop at two positions -/

/-- A candidate for the first link of the triangle and a stop that lies off the link by so much. -/
def beside (y : Double) : LinkCandidate Double :=
  let facility : Facility Double := { id := "s", position := some ⟨20, y⟩ }
  ofOccurrence .triangle 0 ⟨"line", "out", { facility }⟩ ⟨20, y⟩

/-- Two facilities of one id lie on either side of a link. Their candidates for it are the same, and
still one comes before the other. -/
theorem not_orders_mirrored : ¬ Orders (Constructed Network.triangle) compare Same := by
  intro horders
  have hconstructed (y : Double) : Constructed Network.triangle (beside y) :=
    ⟨0, _, ⟨20, y⟩, 1, rfl⟩
  have hsame : (beside 5).Same (beside (0 - 5)) := by decide +kernel
  have hcompare : (beside 5).compare (beside (0 - 5)) = .gt := by decide +kernel
  have heq := (horders.eq_iff _ _ (hconstructed 5) (hconstructed (0 - 5))).2 hsame
  rw [hcompare] at heq
  cases heq

end LinkCandidate

end TransitMatching
