import TransitMatching.Number.Scalar

/-!
# Comparing numbers

Among numbers, `≤` is total and transitive. It need not be antisymmetric, and it
says nothing about what is no number.
-/

namespace TransitMatching.Scalar

variable {α : Type} [Scalar α] {a b c : α}

theorem le_of_not_lt (ha : IsNumber a) (hb : IsNumber b) (h : ¬ a < b) : b ≤ a := by
  rcases le_total ha hb with hab | hba
  · by_cases hba : b ≤ a
    · exact hba
    · exact absurd (lt_iff.2 ⟨hab, hba⟩) h
  · exact hba

theorem lt_of_not_le (ha : IsNumber a) (hb : IsNumber b) (h : ¬ a ≤ b) : b < a := by
  rcases le_total ha hb with hab | hba
  · exact absurd hab h
  · exact lt_iff.2 ⟨hba, h⟩

theorem le_of_lt (h : a < b) : a ≤ b := (lt_iff.1 h).1

theorem not_le_of_lt (h : a < b) : ¬ b ≤ a := (lt_iff.1 h).2

theorem lt_of_lt_of_le (h : a < b) (h' : b ≤ c) : a < c :=
  lt_iff.2 ⟨le_trans (le_of_lt h) h', fun hca => not_le_of_lt h (le_trans h' hca)⟩

theorem lt_of_le_of_lt (h : a ≤ b) (h' : b < c) : a < c :=
  lt_iff.2 ⟨le_trans h (le_of_lt h'), fun hca => not_le_of_lt h' (le_trans hca h)⟩

theorem lt_irrefl (a : α) : ¬ a < a := fun h => not_le_of_lt h (le_of_lt h)

section
variable {β : Type} (f : β → α) (place : β → Nat)

/-- Things are sorted by a number of theirs as numbers are, and of one number by their places. -/
theorem transCmp_order_then :
    Std.TransCmp fun x y => (order (f x) (f y)).then (compare (place x) (place y)) := by
  have hnumber : Std.TransCmp fun x y => order (f x) (f y) :=
    { eq_swap := Std.OrientedCmp.eq_swap
      isLE_trans := Std.TransCmp.isLE_trans }
  exact inferInstanceAs (Std.TransCmp
    (compareLex (fun x y => order (f x) (f y)) (compareOn place)))

/-- Things that neither comes before the other have one place. -/
theorem place_eq_of_isLE {x y : β}
    (hxy : ((order (f x) (f y)).then (compare (place x) (place y))).isLE)
    (hyx : ((order (f y) (f x)).then (compare (place y) (place x))).isLE) : place x = place y := by
  have hcmp := transCmp_order_then f place
  have heq : (order (f x) (f y)).then (compare (place x) (place y)) = .eq :=
    hcmp.toOrientedCmp.isLE_antisymm hxy hyx
  exact Std.LawfulEqCmp.eq_of_compare (Ordering.then_eq_eq.1 heq).2

end

/-- What sums of numbers that are not negative are taken to satisfy: they grow with their first
part, and are no less than it. -/
structure MonotoneSum (α : Type) [Scalar α] : Prop where
  add_le_add : ∀ {a b c : α}, 0 ≤ a → 0 ≤ c → a ≤ b → a + c ≤ b + c
  le_add : ∀ {a c : α}, 0 ≤ a → 0 ≤ c → a ≤ a + c

theorem MonotoneSum.add_nonneg (h : MonotoneSum α) (ha : 0 ≤ a) (hc : 0 ≤ c) : 0 ≤ a + c :=
  le_trans ha (h.le_add ha hc)

/-- A number that is not negative and not sorted below zero either, as the negative zero is. -/
def Unsigned (a : α) : Prop := 0 ≤ a ∧ (order 0 a).isLE

/-- What sums are taken to satisfy where a cost is added up again: they also grow with their second
part, and from a number without a sign on they are told apart by their amount. -/
structure SteadySum (α : Type) [Scalar α] : Prop extends MonotoneSum α where
  add_le_add_left : ∀ {a b c : α}, 0 ≤ a → 0 ≤ b → b ≤ c → a + b ≤ a + c
  unsigned_add : ∀ {a c : α}, Unsigned a → 0 ≤ c → Unsigned (a + c)
  unsigned_antisymm : ∀ {a b : α}, Unsigned a → Unsigned b → a ≤ b → b ≤ a → a = b

/-- A number without a sign gives one sum with two numbers, if neither sum exceeds the other. -/
theorem SteadySum.add_eq_add (h : SteadySum α) (ha : Unsigned a) (hb : 0 ≤ b) (hc : 0 ≤ c)
    (hbc : b ≤ c) (hle : a + c ≤ a + b) : a + b = a + c :=
  h.unsigned_antisymm (h.unsigned_add ha hb) (h.unsigned_add ha hc)
    (h.add_le_add_left ha.1 hb hbc) hle

/-- A number that some finite number is no less than. -/
def BelowInfinity (a : α) : Prop := ∃ m : α, a ≤ toFinite m

theorem BelowInfinity.of_le (h : BelowInfinity b) (hab : a ≤ b) : BelowInfinity a := by
  obtain ⟨m, hm⟩ := h
  exact ⟨m, le_trans hab hm⟩

theorem BelowInfinity.isNumber (h : BelowInfinity a) : IsNumber a := by
  obtain ⟨m, hm⟩ := h
  exact (number_of_le hm).1

/-- What products of numbers that are neither negative nor infinite are taken to satisfy: they grow
with both factors. -/
structure MonotoneProduct (α : Type) [Scalar α] : Prop where
  mul_le_mul : ∀ {a b c d : α}, 0 ≤ a → a ≤ b → BelowInfinity b → 0 ≤ c → c ≤ d →
    BelowInfinity d → a * c ≤ b * d

end TransitMatching.Scalar
