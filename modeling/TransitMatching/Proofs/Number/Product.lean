import TransitMatching.Proofs.Number.Sum

/-!
# Products of doubles

The product of two finite doubles that are not negative is their exact product,
rounded. In units of the square of the least positive double it is a natural number,
and rounding keeps the order whatever the units are, so products grow with their
factors. Infinity is left out, since it has no product with zero.

* `ofBits?_pack_mul`: the bits of a product.
* `monotoneProduct`: **products of doubles are as bounded searches take products to be.**
-/

namespace TransitMatching

namespace Amount

open Float.Model (UnpackedFloat)
open Float.Model.UnpackedFloat

/-- The amount of a product of finite doubles. -/
def product (a b : Nat) : Nat := min (roundedAt 1074 (units a * units b)) infiniteAmount

theorem product_comm (a b : Nat) : product a b = product b a := by
  rw [product, product, Nat.mul_comm]

theorem product_zero (a : Nat) : product a 0 = 0 := by
  have hzero : units 0 = 0 := rfl
  rw [product, hzero, Nat.mul_zero]
  decide +kernel

theorem product_mono {a b c d : Nat} (h : a ≤ b) (h' : c ≤ d) : product a c ≤ product b d :=
  min_le_min_right _ (roundedAt_mono (Nat.mul_le_mul (units_mono h) (units_mono h')))

/-- The product of two mantissas has at least as many digits as fit, unless both have the least
exponent. -/
theorem Fits.le_grainAt_mul {m n m' n' : Nat} (h : Fits m n) (h' : Fits m' n') (k : Nat) :
    n + n' ≤ grainAt k (m * m' * 2 ^ (n + n')) := by
  have hpos : 0 < m * m' := Nat.mul_pos h.pos h'.pos
  rcases Nat.eq_zero_or_pos (n + n') with hzero | hsum
  · rw [hzero]
    exact Nat.zero_le _
  · -- One of the two has all the digits that fit.
    have hdigits : 2 ^ 52 ≤ m * m' := by
      rcases Nat.eq_zero_or_pos n with hn | hn
      · exact (h'.normal (by omega)).trans (Nat.le_mul_of_pos_left m' h.pos)
      · exact (h.normal hn).trans (Nat.le_mul_of_pos_right m h'.pos)
    have hlog : 52 ≤ (m * m').log2 := (Nat.le_log2 hpos.ne').2 hdigits
    unfold grainAt grain
    rw [log2_mul_two_pow hpos]
    omega

/-- Finite doubles are multiplied by their mantissas, and their exponents are added. -/
theorem mul_finite {m m' : Nat} (hm : 0 < m) (hm' : 0 < m') (n n' : Nat) :
    mul .binary64 (.finite .positive m (exponent n) hm) (.finite .positive m' (exponent n') hm') =
      roundWithAccuracy .binary64 .positive (m * m') (exponent (n + n') - (1074 : Nat)) .exact := by
  have hexponent : exponent n + exponent n' = exponent (n + n') - (1074 : Nat) := by
    unfold exponent
    omega
  rw [← hexponent]
  rfl

theorem ofBits?_pack_zero (s : Sign) : ofBits? (pack .binary64 (.zero s)).toNat = some 0 := by
  cases s <;> rfl

/-- **The product of two finite doubles has the product of their amounts.** -/
theorem ofBits?_pack_mul {u v : UnpackedFloat} {a b : Nat} (hu : Shows u a) (hv : Shows v b)
    (ha : a < infiniteAmount) (hb : b < infiniteAmount) :
    ofBits? (pack .binary64 (mul .binary64 u v)).toNat = some (product a b : Int) := by
  cases hu with
  | zero s =>
    rw [product_comm, product_zero]
    cases hv with
    | zero t => exact ofBits?_pack_zero (s * t)
    | finite _ _ _ => exact ofBits?_pack_zero _
    | infinity => exact absurd hb (Nat.lt_irrefl _)
  | @finite m n hm hfits hlt =>
    cases hv with
    | zero t =>
      rw [product_zero]
      exact ofBits?_pack_zero _
    | @finite m' n' hm' hfits' hlt' =>
      have hround := toNat_pack_roundWithAccuracy (Nat.mul_pos hm hm')
        (hfits.le_grainAt_mul hfits' 1074)
      have hvalue : m * m' * 2 ^ (n + n') = m * 2 ^ n * (m' * 2 ^ n') := by
        rw [pow_add, Nat.mul_mul_mul_comm]
      have hbits : (pack .binary64 (mul .binary64 (.finite .positive m (exponent n) hm)
          (.finite .positive m' (exponent n') hm'))).toNat =
            product (finiteAmount m n) (finiteAmount m' n') := by
        rw [mul_finite, hround, product, units_finiteAmount hfits, units_finiteAmount hfits',
          hvalue]
      exact (ofBits?_eq_natCast_iff (BitVec.isLt _)).2 ⟨Nat.min_le_right _ _, .inl hbits⟩
    | infinity => exact absurd hb (Nat.lt_irrefl _)
  | infinity => exact absurd ha (Nat.lt_irrefl _)

end Amount

namespace Double

/-- **The amount of a product** of finite numbers is the product of the amounts. -/
theorem mul_of_amounts {x y : Float} {a b : Nat} (hx : Amount.ofFloat? x = some (a : Int))
    (hy : Amount.ofFloat? y = some (b : Int)) (ha : a < Amount.infiniteAmount)
    (hb : b < Amount.infiniteAmount) :
    of x * of y = of (x * y) ∧ Amount.ofFloat? (x * y) = some (Amount.product a b : Int) := by
  have hu : Amount.Shows x.toModel.unpack a := Amount.shows_unpack hx
  have hv : Amount.Shows y.toModel.unpack b := Amount.shows_unpack hy
  have hamount : Amount.ofFloat? (x * y) = some (Amount.product a b : Int) :=
    Amount.ofBits?_pack_mul hu hv ha hb
  exact ⟨operation_of hx hy hamount, hamount⟩

/-- A number that is neither negative nor infinite has an amount below that of infinity. -/
theorem exists_of_belowInfinity {a : Double} (hzero : 0 ≤ a) (hfinite : Scalar.BelowInfinity a) :
    ∃ x, a = of x ∧ ∃ n : Nat, n < Amount.infiniteAmount ∧ Amount.ofFloat? x = some (n : Int) := by
  obtain ⟨m, hm⟩ := hfinite
  obtain ⟨x, rfl, n, hn⟩ := nonneg_iff.1 hzero
  have hbound : Scalar.toFinite m ≤ largest := by
    change (if m ≤ largest then m else largest) ≤ largest
    split
    · next h => exact h
    · decide +kernel
  have hlargest : Amount.ofFloat? (Float.ofBits 0x7FEFFFFFFFFFFFFF) = some 0x7FEFFFFFFFFFFFFF := by
    decide +kernel
  have hle := (of_le_of hn hlargest).1 (le_trans hm hbound)
  refine ⟨x, rfl, n, ?_, hn⟩
  unfold Amount.infiniteAmount
  omega

/-- **Products of doubles are as bounded searches take products to be.** -/
theorem monotoneProduct : Scalar.MonotoneProduct Double where
  mul_le_mul {a b c d} ha hab hb hc hcd hd := by
    obtain ⟨x, rfl, k, hk, hxk⟩ := exists_of_belowInfinity ha (hb.of_le hab)
    obtain ⟨y, rfl, l, hl, hyl⟩ := exists_of_belowInfinity (le_trans ha hab) hb
    obtain ⟨z, rfl, m, hm, hzm⟩ := exists_of_belowInfinity hc (hd.of_le hcd)
    obtain ⟨w, rfl, n, hn, hwn⟩ := exists_of_belowInfinity (le_trans hc hcd) hd
    have hkl := (of_le_of hxk hyl).1 hab
    have hmn := (of_le_of hzm hwn).1 hcd
    obtain ⟨hxz, hproduct⟩ := mul_of_amounts hxk hzm hk hm
    obtain ⟨hyw, hproduct'⟩ := mul_of_amounts hyl hwn hl hn
    have hmono := Amount.product_mono (Int.ofNat_le.1 hkl) (Int.ofNat_le.1 hmn)
    rw [hxz, hyw]
    exact (of_le_of hproduct hproduct').2 (Int.ofNat_le.2 hmono)

end Double

end TransitMatching
