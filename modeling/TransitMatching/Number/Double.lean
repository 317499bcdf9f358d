import TransitMatching.Number.Amount
import TransitMatching.Number.Hypotenuse
import TransitMatching.Number.Numeral
import TransitMatching.Number.Scalar
import TransitMatching.Number.Shortest

/-!
# Doubles as numbers

Doubles that are numbers are sorted by their bits, with the sign bit turned into a
sign: negative numbers come first, and `-0` before `0`. What is no number compares
with nothing, but has its place in the order too: behind all numbers if it was
given, and before all of them if it is the result of an operation without one.

* `rank_injective`: doubles of one place in the order are the same.
* `rank_undefined_lt`: where the undefined result is sorted.
-/

namespace TransitMatching

/-- A double. -/
inductive Double where
  /-- A number, or what was given instead of one. -/
  | of (x : Float)
  /-- The result of an operation that has none, such as infinity less infinity. -/
  | undefined
  deriving DecidableEq, Repr

namespace Double

/-- The value, without regard to how it came to be no number. -/
def toFloat : Double → Float
  | of x => x
  | undefined => 0 / 0

/-- Whether this is no number. -/
def isNaN : Double → Bool
  | of x => x.isNaN
  | undefined => true

/-- The result of an operation on numbers. -/
def result (x : Float) : Double := if x.isNaN then undefined else of x

/-- An operation on doubles. An operand that is no number is also the result, the first of two. -/
def operation (op : Float → Float → Float) (x y : Double) : Double :=
  if x.isNaN then x
  else if y.isNaN then y
  else result (op x.toFloat y.toFloat)

instance (n : Nat) : OfNat Double n := ⟨of (Float.ofNat n)⟩

instance : Inhabited Double := ⟨0⟩

instance : Add Double := ⟨operation (· + ·)⟩

instance : Sub Double := ⟨operation (· - ·)⟩

instance : Mul Double := ⟨operation (· * ·)⟩

instance : Div Double := ⟨operation (· / ·)⟩

/-- The comparison of numbers; what is undefined compares with nothing. -/
protected def Le : Double → Double → Prop
  | of x, of y => x ≤ y
  | _, _ => False

/-- The strict comparison of numbers. -/
protected def Lt : Double → Double → Prop
  | of x, of y => x < y
  | _, _ => False

instance : LE Double := ⟨Double.Le⟩

instance : LT Double := ⟨Double.Lt⟩

instance decidableLe : DecidableLE Double
  | of x, of y => inferInstanceAs (Decidable (x ≤ y))
  | of _, undefined => .isFalse id
  | undefined, of _ => .isFalse id
  | undefined, undefined => .isFalse id

instance decidableLt : DecidableLT Double
  | of x, of y => inferInstanceAs (Decidable (x < y))
  | of _, undefined => .isFalse id
  | undefined, of _ => .isFalse id
  | undefined, undefined => .isFalse id

theorem exists_of_le {a b : Double} (h : a ≤ b) : ∃ x y, a = of x ∧ b = of y ∧ x ≤ y := by
  cases a with
  | of x =>
    cases b with
    | of y => exact ⟨x, y, rfl, rfl, h⟩
    | undefined => exact absurd h id
  | undefined => exact absurd h (by cases b <;> exact id)

/-- The sixty-four bits. The undefined result has the sign bit set. -/
def bits : Double → Nat
  | of x => x.toBits.toNat
  | undefined => 0xFFF8000000000000

/-- The place of a double in the total order. -/
def rank (x : Double) : Int :=
  if x.bits < 0x8000000000000000 then x.bits else 0x7FFFFFFFFFFFFFFF - x.bits

theorem rank_of (x : Float) :
    rank (of x) =
      if x.toBits.toNat < 0x8000000000000000 then (x.toBits.toNat : Int)
      else 0x7FFFFFFFFFFFFFFF - x.toBits.toNat := rfl

theorem rank_undefined : rank undefined = -0x7FF8000000000001 := rfl

theorem toBits_injective {x y : Float} (h : x.toBits = y.toBits) : x = y := by
  rcases x with ⟨⟨x, _⟩⟩
  rcases y with ⟨⟨y, _⟩⟩
  cases show x = y from h
  rfl

/-- What is given instead of a number has one form only. -/
theorem toBits_of_amount_none {x : Float} (h : Amount.ofFloat? x = none) :
    x.toBits.toNat = 0x7FF8000000000000 := by
  have valid := x.toModel.valid.eq_packedNaN
  have lt := x.toBits.toNat_lt
  simp only [Amount.ofFloat?, Amount.ofBits?, ite_eq_right_iff, reduceCtorEq, imp_false] at h
  have bits : x.toBits.toBitVec = Float.Model.UnpackedFloat.packedNaN .binary64 := by
    apply valid
    · apply BitVec.eq_of_toNat_eq
      rw [Amount.toNat_unpackExponent]
      show x.toBits.toNat / 0x10000000000000 % 0x800 = 2047
      omega
    · intro zero
      have fraction := congrArg BitVec.toNat zero
      rw [Amount.toNat_unpackMantissa] at fraction
      have fraction : x.toBits.toNat % 0x10000000000000 = 0 := fraction
      omega
  exact congrArg BitVec.toNat bits

theorem toBits_ne_undefined (x : Float) : x.toBits.toNat ≠ 0xFFF8000000000000 := by
  intro h
  have none : Amount.ofFloat? x = none := by
    simp only [Amount.ofFloat?, h]
    rfl
  have := toBits_of_amount_none none
  omega

theorem bits_lt (x : Double) : x.bits < 0x10000000000000000 := by
  cases x with
  | of x => exact x.toBits.toNat_lt
  | undefined => decide

theorem bits_injective {x y : Double} (h : x.bits = y.bits) : x = y := by
  cases x with
  | of x =>
    cases y with
    | of y => exact congrArg of (toBits_injective (UInt64.toNat_inj.1 h))
    | undefined => exact absurd h (toBits_ne_undefined x)
  | undefined =>
    cases y with
    | of y => exact absurd h.symm (toBits_ne_undefined y)
    | undefined => rfl

theorem rank_injective {x y : Double} (h : rank x = rank y) : x = y := by
  apply bits_injective
  have hx := bits_lt x
  have hy := bits_lt y
  simp only [rank] at h
  split at h <;> split at h <;> omega

/-- An undefined result is sorted before every number. -/
theorem rank_undefined_lt {x : Double} (h : x ≤ x) : rank undefined < rank x := by
  obtain ⟨x, _, rfl, _, le⟩ := exists_of_le h
  obtain ⟨a, _, ha, _, _⟩ := (Amount.le_iff x x).1 (show x ≤ x from h)
  simp only [Amount.ofFloat?, Amount.ofBits?, Option.ite_none_right_eq_some] at ha
  have lt := x.toBits.toNat_lt
  rw [rank_of, rank_undefined]
  split <;> omega

/-- The total order of doubles. -/
def order : Double → Double → Ordering := compareOn rank

instance : Std.TransCmp order := inferInstanceAs (Std.TransCmp (compareOn rank))

instance : Std.LawfulEqCmp order where
  eq_of_compare h :=
    rank_injective (Std.LawfulEqCmp.eq_of_compare (show compare (rank _) (rank _) = .eq from h))

theorem le_of_order {a b : Double} (h : (order a b).isLE) (ha : a ≤ a) (hb : b ≤ b) : a ≤ b := by
  obtain ⟨x, _, rfl, _, _⟩ := exists_of_le ha
  obtain ⟨y, _, rfl, _, _⟩ := exists_of_le hb
  obtain ⟨m, _, hm, _, _⟩ := (Amount.le_iff x x).1 ha
  obtain ⟨n, _, hn, _, _⟩ := (Amount.le_iff y y).1 hb
  refine (Amount.le_iff x y).2 ⟨m, n, hm, hn, ?_⟩
  have h : rank (of x) ≤ rank (of y) := Int.isLE_compare.1 h
  have lx := x.toBits.toNat_lt
  have ly := y.toBits.toNat_lt
  simp only [Amount.ofFloat?, Amount.ofBits?, Option.ite_none_right_eq_some, Option.some.injEq,
    Amount.signed, decide_eq_true_eq] at hm hn
  rw [rank_of, rank_of] at h
  obtain ⟨_, rfl⟩ := hm
  obtain ⟨_, rfl⟩ := hn
  split at h <;> split at h <;> split <;> split <;> omega

theorem le_trans {a b c : Double} (h : a ≤ b) (k : b ≤ c) : a ≤ c := by
  obtain ⟨x, y, rfl, rfl, xy⟩ := exists_of_le h
  obtain ⟨_, z, e, rfl, yz⟩ := exists_of_le k
  cases e
  obtain ⟨l, m, hl, hm, lm⟩ := (Amount.le_iff x y).1 xy
  obtain ⟨_, n, hm', hn, mn⟩ := (Amount.le_iff y z).1 yz
  cases hm.symm.trans hm'
  exact (Amount.le_iff x z).2 ⟨l, n, hl, hn, Int.le_trans lm mn⟩

theorem le_total {a b : Double} (h : a ≤ a) (k : b ≤ b) : a ≤ b ∨ b ≤ a := by
  obtain ⟨x, _, rfl, _, _⟩ := exists_of_le h
  obtain ⟨y, _, rfl, _, _⟩ := exists_of_le k
  obtain ⟨m, _, hm, _, _⟩ := (Amount.le_iff x x).1 h
  obtain ⟨n, _, hn, _, _⟩ := (Amount.le_iff y y).1 k
  rcases Int.le_total m n with mn | nm
  · exact .inl ((Amount.le_iff x y).2 ⟨m, n, hm, hn, mn⟩)
  · exact .inr ((Amount.le_iff y x).2 ⟨n, m, hn, hm, nm⟩)

theorem float_lt_iff (x y : Float) : x < y ↔ x ≤ y ∧ ¬ y ≤ x := by
  rw [Amount.lt_iff, Amount.le_iff, Amount.le_iff]
  constructor
  · rintro ⟨a, b, ha, hb, ab⟩
    refine ⟨⟨a, b, ha, hb, Int.le_of_lt ab⟩, ?_⟩
    rintro ⟨b', a', hb', ha', ba⟩
    cases ha.symm.trans ha'
    cases hb.symm.trans hb'
    exact Int.not_le.2 ab ba
  · rintro ⟨⟨a, b, ha, hb, _⟩, n⟩
    exact ⟨a, b, ha, hb, Int.not_le.1 fun ba => n ⟨b, a, hb, ha, ba⟩⟩

theorem number_of_le {a b : Double} (h : a ≤ b) : a ≤ a ∧ b ≤ b := by
  obtain ⟨x, y, rfl, rfl, xy⟩ := exists_of_le h
  obtain ⟨m, n, hm, hn, _⟩ := (Amount.le_iff x y).1 xy
  exact ⟨(Amount.le_iff x x).2 ⟨m, m, hm, hm, Int.le_refl m⟩,
    (Amount.le_iff y y).2 ⟨n, n, hn, hn, Int.le_refl n⟩⟩

theorem lt_iff (a b : Double) : a < b ↔ a ≤ b ∧ ¬ b ≤ a := by
  cases a with
  | of x =>
    cases b with
    | of y => exact float_lt_iff x y
    | undefined => exact ⟨fun h => absurd h id, fun h => absurd h.1 id⟩
  | undefined => cases b <;> exact ⟨fun h => absurd h id, fun h => absurd h.1 id⟩

/-- The double without its sign. -/
def magnitude (x : Double) : Double := of x.toFloat.abs

/-- The length of the hypotenuse; an infinite leg prevails over one that is no number. -/
def hypot (x y : Double) : Double :=
  if x.toFloat.isInf || y.toFloat.isInf then of (1 / 0) else operation Hypotenuse.length x y

/-- The largest finite double. -/
def largest : Double := of (Float.ofBits 0x7FEFFFFFFFFFFFFF)

/-- Two to the minus fifty-second. -/
def epsilon : Double := of (Float.ofBits 0x3CB0000000000000)

instance : Scalar Double where
  zero := 0
  one := 1
  natCast n := of (Float.ofNat n)
  ofScientific m s e := of (Float.ofScientific m s e)
  ltDecidable := inferInstance
  leDecidable := inferInstance
  order := order
  order_trans := inferInstance
  order_lawful := inferInstance
  number_of_le := number_of_le
  le_trans := le_trans
  le_total := le_total
  lt_iff {a b} := lt_iff a b
  le_of_order := le_of_order
  magnitude := magnitude
  hypot := hypot
  ceilNat x := (Binary.ofFloat x.toFloat).ceilNat
  epsilon := epsilon
  infinity := of (1 / 0)
  toFinite x := if x ≤ largest then x else largest

instance : DecimalText Double where
  shortest x := (Binary.ofFloat x.toFloat).shortestText
  fixed places x := (Binary.ofFloat x.toFloat).fixedText places
  read? text := (Numeral.read? text).map fun n => of n.toFloat

end Double

end TransitMatching
