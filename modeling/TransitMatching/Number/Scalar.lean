/-!
# Numbers in which positions, distances and costs are measured

Everything that computes with coordinates is written once over a type of
numbers `α` with the operations of `Scalar`. Programs run on doubles, where a
comparison with what is no number is false; exact results are about the reals.

* `Scalar.order` is the total order in which distances and costs are sorted. It
  agrees with `≤` on numbers, and also tells apart what `≤` does not, such as the
  two zeros.
* `Scalar.least`, `Scalar.greatest`: what is no number gives way to a number.
-/

namespace TransitMatching

/-- A type of numbers with the operations that geometry and costs need. -/
class Scalar (α : Type) extends Zero α, One α, Add α, Sub α, Mul α, Div α, LT α, LE α,
    NatCast α, OfScientific α where
  ltDecidable : DecidableLT α
  leDecidable : DecidableLE α
  /-- The total order used for sorting. -/
  order : α → α → Ordering
  order_trans : Std.TransCmp order
  order_lawful : Std.LawfulEqCmp order
  /-- What compares with something is a number. -/
  number_of_le {a b : α} : a ≤ b → a ≤ a ∧ b ≤ b
  le_trans {a b c : α} : a ≤ b → b ≤ c → a ≤ c
  le_total {a b : α} : a ≤ a → b ≤ b → a ≤ b ∨ b ≤ a
  lt_iff {a b : α} : a < b ↔ a ≤ b ∧ ¬ b ≤ a
  /-- Numbers are sorted as they compare. -/
  le_of_order {a b : α} : (order a b).isLE → a ≤ a → b ≤ b → a ≤ b
  /-- The number without its sign. -/
  magnitude : α → α
  /-- The length of the hypotenuse over two legs. -/
  hypot : α → α → α
  /-- The least natural number that is not below, and `0` where there is none. -/
  ceilNat : α → Nat
  /-- How far the least number above `1` is from it, and `0` where no number is the least. -/
  epsilon : α
  /-- A distance beyond all others. -/
  infinity : α
  /-- The number if it is at most the largest finite one, which stands for all others. -/
  toFinite : α → α

attribute [reducible, instance] Scalar.ltDecidable Scalar.leDecidable

attribute [instance] Scalar.order_trans Scalar.order_lawful

/-- The decimal notation of a type of numbers. -/
class DecimalText (α : Type) where
  /-- The fewest digits that read back, written without an exponent. -/
  shortest : α → String
  /-- The number rounded to so many places after the point, a half going to the even digit. -/
  fixed : Nat → α → String
  /-- Reads a decimal numeral. -/
  read? : String → Option α

namespace Scalar

variable {α : Type} [Scalar α]

/-- Something is a number when it is comparable with itself. -/
def IsNumber (a : α) : Prop := a ≤ a

instance (a : α) : Decidable (IsNumber a) := inferInstanceAs (Decidable (a ≤ a))

/-- Two numbers of the same amount: neither exceeds the other. -/
def Same (a b : α) : Prop := a ≤ b ∧ b ≤ a

instance (a b : α) : Decidable (Same a b) := inferInstanceAs (Decidable (_ ∧ _))

/-- The lesser of two numbers. -/
def least (a b : α) : α := if a ≤ b then a else if IsNumber b then b else a

/-- The greater of two numbers. -/
def greatest (a b : α) : α := if b ≤ a then a else if IsNumber b then b else a

/-- The least number of a list, if it holds a number. -/
def least? (l : List α) : Option α :=
  match l.filter (fun a => decide (IsNumber a)) with
  | [] => none
  | a :: rest => some (rest.foldl least a)

/-- The greatest number of a list, if it holds a number. -/
def greatest? (l : List α) : Option α :=
  match l.filter (fun a => decide (IsNumber a)) with
  | [] => none
  | a :: rest => some (rest.foldl greatest a)

/-- The square of a number. -/
def square (a : α) : α := a * a

end Scalar

end TransitMatching
