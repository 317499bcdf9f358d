import TransitMatching.Number.Double
import TransitMatching.Proofs.Number.Order
import TransitMatching.Proofs.Number.Rounding

/-!
# Sums of doubles

The sum of two doubles that are not negative is their exact sum, rounded. Since
rounding keeps the order, sums grow with their parts, and since it gives back every
double from its value, a sum is no less than its parts.

* `toBits_add`: the bits of a sum.
* `steadySum`: **sums of doubles are as searches take sums to be.**
-/

namespace TransitMatching

namespace Amount

open Float.Model (UnpackedFloat)
open Float.Model.UnpackedFloat

/-! ## Addition -/

/-- A double that is not negative, by its parts, with its amount. -/
inductive Shows : UnpackedFloat → Nat → Prop where
  | zero (s : Sign) : Shows (.zero s) 0
  | finite {m n : Nat} (h : 0 < m) :
    Fits m n → finiteAmount m n < infiniteAmount →
      Shows (.finite .positive m (exponent n) h) (finiteAmount m n)
  | infinity : Shows (.infinity .positive) infiniteAmount

theorem Shows.le {u : UnpackedFloat} {a : Nat} (h : Shows u a) : a ≤ infiniteAmount := by
  cases h with
  | zero => exact Nat.zero_le _
  | finite _ _ hlt => exact hlt.le
  | infinity => exact Nat.le_refl _

/-- The value of a finite double. -/
theorem units_finiteAmount {m n : Nat} (h : Fits m n) : units (finiteAmount m n) = m * 2 ^ n := by
  obtain ⟨hpos, hlt, hnormal⟩ := h
  unfold units finiteAmount
  rcases Nat.eq_zero_or_pos n with rfl | hn
  · by_cases hm : m < 2 ^ 52
    · rw [if_pos (by omega)]
      omega
    · have hdiv : (0 * 2 ^ 52 + m) / 2 ^ 52 - 1 = 0 := by omega
      rw [if_neg (by omega), hdiv]
      omega
  · have hm := hnormal hn
    have hdiv : (n * 2 ^ 52 + m) / 2 ^ 52 - 1 = n := by omega
    have hmod : 2 ^ 52 + (n * 2 ^ 52 + m) % 2 ^ 52 = m := by omega
    rw [if_neg (by omega), hdiv, hmod]

/-- Bits of which the amount is not negative are those of the amount, or of the negative zero. -/
theorem ofBits?_eq_natCast_iff {b a : Nat} (hb : b < 0x10000000000000000) :
    ofBits? b = some (a : Int) ↔
      a ≤ infiniteAmount ∧ (b = a ∨ a = 0 ∧ b = 0x8000000000000000) := by
  unfold ofBits? signed infiniteAmount
  dsimp only
  split_ifs with hnumber hsign
  · rw [decide_eq_true_eq] at hsign
    rw [Option.some.injEq]
    omega
  · rw [decide_eq_true_eq] at hsign
    rw [Option.some.injEq]
    omega
  · refine iff_of_false (fun h => by cases h) ?_
    omega

theorem ofBitVec_unpackSign {b : BitVec 64} (h : b.toNat < 0x8000000000000000) :
    Sign.ofBitVec (@unpackSign .binary64 b) = .positive := by
  have hsign := isMinus_ofBitVec b
  rw [decide_eq_false (Nat.not_le.2 h)] at hsign
  cases hs : Sign.ofBitVec (@unpackSign .binary64 b) with
  | positive => rfl
  | negative =>
    rw [hs] at hsign
    cases hsign

theorem shows_unpack {b : BitVec 64} {a : Nat} (h : ofBits? b.toNat = some (a : Int)) :
    Shows (unpack .binary64 b) a := by
  obtain ⟨hle, hbits⟩ := (ofBits?_eq_natCast_iff b.isLt).1 h
  rcases hbits with rfl | ⟨rfl, hzero⟩
  · have hsign : Sign.ofBitVec (@unpackSign .binary64 b) = .positive := by
      refine ofBitVec_unpackSign (Nat.lt_of_le_of_lt hle ?_)
      decide
    unfold infiniteAmount at hle
    rcases unpack_cases b with ⟨hf, hr, hu⟩ | ⟨hf, hr, hu⟩ | ⟨hf, hr, hu⟩ | ⟨hf, hp, hu⟩ |
      ⟨hf, hf', hp, hu⟩ <;> rw [hu]
    · have hinf : b.toNat = infiniteAmount := by
        unfold infiniteAmount
        omega
      rw [hsign, hinf]
      exact .infinity
    · omega
    · have hzero : b.toNat = 0 := by omega
      rw [hzero]
      exact .zero _
    · have hfits : Fits (b.toNat % 0x10000000000000) 0 := ⟨hp, by omega, fun h => by omega⟩
      have hamount : finiteAmount (b.toNat % 0x10000000000000) 0 = b.toNat := by
        unfold finiteAmount
        omega
      have hshows := Shows.finite hp hfits (by rw [hamount]; unfold infiniteAmount; omega)
      rw [hamount] at hshows
      rw [hsign]
      exact hshows
    · have hfits : Fits (0x10000000000000 + b.toNat % 0x10000000000000)
          (b.toNat / 0x10000000000000 % 0x800 - 1) := ⟨hp, by omega, fun _ => by omega⟩
      have hamount : finiteAmount (0x10000000000000 + b.toNat % 0x10000000000000)
          (b.toNat / 0x10000000000000 % 0x800 - 1) = b.toNat := by
        unfold finiteAmount
        omega
      have hshows := Shows.finite hp hfits (by rw [hamount]; unfold infiniteAmount; omega)
      have hexponent : exponent (b.toNat / 0x10000000000000 % 0x800 - 1) =
          ((b.toNat / 0x10000000000000 % 0x800 : Nat) : Int) - 1075 := by
        unfold exponent
        omega
      rw [hamount, hexponent] at hshows
      rw [hsign]
      exact hshows
  · rcases unpack_cases b with ⟨hf, hr, hu⟩ | ⟨hf, hr, hu⟩ | ⟨hf, hr, hu⟩ | ⟨hf, hp, hu⟩ |
      ⟨hf, hf', hp, hu⟩
    · omega
    · omega
    · rw [hu]
      exact .zero _
    · omega
    · omega

/-- The amount of a sum. -/
def sum (a b : Nat) : Nat := min (rounded (units a + units b)) infiniteAmount

theorem sum_comm (a b : Nat) : sum a b = sum b a := by
  rw [sum, sum, Nat.add_comm]

theorem sum_zero {a : Nat} (h : a ≤ infiniteAmount) : sum a 0 = a := by
  have hzero : units 0 = 0 := rfl
  rw [sum, hzero, Nat.add_zero, rounded_units]
  exact Nat.min_eq_left h

theorem sum_infinite (a : Nat) : sum a infiniteAmount = infiniteAmount := by
  have hround := rounded_mono (Nat.le_add_left (units infiniteAmount) (units a))
  rw [rounded_units] at hround
  exact Nat.min_eq_right hround

theorem sum_mono {a b c d : Nat} (h : a ≤ b) (h' : c ≤ d) : sum a c ≤ sum b d :=
  min_le_min_right _ (rounded_mono (Nat.add_le_add (units_mono h) (units_mono h')))

theorem le_sum {a : Nat} (h : a ≤ infiniteAmount) (c : Nat) : a ≤ sum a c := by
  have hmono := sum_mono (Nat.le_refl a) (Nat.zero_le c)
  rwa [sum_zero h] at hmono

/-- The bits of a double that is not negative are its amount, or those of the negative zero. -/
theorem Shows.toNat_pack {u : UnpackedFloat} {a : Nat} (h : Shows u a) :
    (pack .binary64 u).toNat = a ∨ u = .zero .negative := by
  cases h with
  | zero s =>
    cases s with
    | positive => exact .inl rfl
    | negative => exact .inr rfl
  | finite hpos hfits hlt =>
    left
    rw [toNat_pack_finite hfits, Nat.min_eq_left hlt.le]
  | infinity => exact .inl rfl

/-- Finite doubles are added with their mantissas brought to the lesser exponent. -/
theorem add_finite {m m' : Nat} (hm : 0 < m) (hm' : 0 < m') (n n' : Nat) :
    ∃ k l, 0 < k ∧ k * 2 ^ l = m * 2 ^ n + m' * 2 ^ n' ∧
      add .binary64 (.finite .positive m (exponent n) hm) (.finite .positive m' (exponent n') hm') =
        round .binary64 .positive k (exponent l) := by
  have hmin : min (exponent n) (exponent n') = exponent (min n n') := by
    unfold exponent
    omega
  have hshift := decreaseExponent_eq m n (min n n')
  have hshift' := decreaseExponent_eq m' n' (min n n')
  have hpos : 0 < m * 2 ^ (n - min n n') := Nat.mul_pos hm (Nat.two_pow_pos _)
  have hvalue := mul_two_pow_sub m n (min n n')
  have hvalue' := mul_two_pow_sub m' n' (min n n')
  rw [Nat.min_eq_right (Nat.min_le_left n n')] at hvalue
  rw [Nat.min_eq_right (Nat.min_le_right n n')] at hvalue'
  refine ⟨m * 2 ^ (n - min n n') + m' * 2 ^ (n' - min n n'), min n n', by omega, ?_, ?_⟩
  · rw [Nat.add_mul, hvalue, hvalue']
  · change normalize .binary64
      (((decreaseExponent m (exponent n) (min (exponent n) (exponent n'))).1 : Int) +
        ((decreaseExponent m' (exponent n') (min (exponent n) (exponent n'))).1 : Int))
      (min (exponent n) (exponent n')) .positive = _
    rw [hmin, hshift, hshift']
    dsimp only
    rw [← Int.natCast_add]
    unfold UnpackedFloat.normalize
    rw [Int.compare_eq_gt.2 (by omega)]
    rfl

/-- **The bits of a sum**, unless it is that of two negative zeros. -/
theorem toNat_pack_add {u v : UnpackedFloat} {a b : Nat} (hu : Shows u a) (hv : Shows v b) :
    (pack .binary64 (add .binary64 u v)).toNat = sum a b ∨
      u = .zero .negative ∧ v = .zero .negative := by
  cases hu with
  | zero s =>
    cases hv with
    | zero t =>
      rw [sum_zero (Nat.zero_le _)]
      cases s with
      | positive => cases t <;> exact .inl rfl
      | negative =>
        cases t with
        | positive => exact .inl rfl
        | negative => exact .inr ⟨rfl, rfl⟩
    | finite hm hfits hlt =>
      left
      rw [sum_comm, sum_zero hlt.le]
      exact (Shows.toNat_pack (.finite hm hfits hlt)).resolve_right fun h => by cases h
    | infinity =>
      left
      rw [sum_infinite]
      rfl
  | @finite m n hm hfits hlt =>
    left
    cases hv with
    | zero t =>
      rw [sum_zero hlt.le]
      exact (Shows.toNat_pack (.finite hm hfits hlt)).resolve_right fun h => by cases h
    | @finite m' n' hm' hfits' hlt' =>
      obtain ⟨k, l, hk, hvalue, hadd⟩ := add_finite hm hm' n n'
      rw [hadd, toNat_pack_round hk, hvalue, sum, units_finiteAmount hfits,
        units_finiteAmount hfits']
    | infinity =>
      rw [sum_infinite]
      rfl
  | infinity =>
    left
    rw [sum_comm, sum_infinite]
    cases hv <;> rfl

/-- Only a double with the sign bit shows a negative zero. -/
theorem le_toNat_of_unpack {b : BitVec 64} (h : unpack .binary64 b = .zero .negative) :
    0x8000000000000000 ≤ b.toNat := by
  have hminus := isMinus_ofBitVec b
  have hsign : Sign.ofBitVec (@unpackSign .binary64 b) = .negative := by
    rcases unpack_cases b with ⟨-, -, hu⟩ | ⟨-, -, hu⟩ | ⟨-, -, hu⟩ | ⟨-, _, hu⟩ | ⟨-, -, _, hu⟩
    · cases h.symm.trans hu
    · cases h.symm.trans hu
    · injection h.symm.trans hu with hsign
      exact hsign.symm
    · cases h.symm.trans hu
    · cases h.symm.trans hu
  rw [hsign] at hminus
  exact of_decide_eq_true hminus.symm

/-- **The sum of two doubles has the sum of their amounts**, and the sign bit only if both have it. -/
theorem toBits_add {x y : Float} {a b : Nat} (hx : ofFloat? x = some (a : Int))
    (hy : ofFloat? y = some (b : Int)) :
    (x + y).toBits.toNat = sum a b ∨
      0x8000000000000000 ≤ x.toBits.toNat ∧ (x + y).toBits.toNat = 0x8000000000000000 ∧
        sum a b = 0 := by
  have hu : Shows x.toModel.unpack a := shows_unpack hx
  have hv : Shows y.toModel.unpack b := shows_unpack hy
  have hbits : (x + y).toBits.toNat =
      (pack .binary64 (add .binary64 x.toModel.unpack y.toModel.unpack)).toNat := rfl
  rw [hbits]
  refine (toNat_pack_add hu hv).imp_right ?_
  rintro ⟨hxu, hyu⟩
  refine ⟨le_toNat_of_unpack hxu, ?_, ?_⟩
  · rw [hxu, hyu]
    rfl
  · rw [hxu] at hu
    rw [hyu] at hv
    cases hu
    cases hv
    exact sum_zero (Nat.zero_le _)

end Amount

namespace Double

/-- A double that is not negative has an amount that is none less. -/
theorem nonneg_iff {a : Double} :
    0 ≤ a ↔ ∃ x, a = of x ∧ ∃ n : Nat, Amount.ofFloat? x = some (n : Int) := by
  have hzero : Amount.ofFloat? (Float.ofNat 0) = some 0 := by decide +kernel
  cases a with
  | undefined => exact iff_of_false id (by rintro ⟨x, hx, -⟩; cases hx)
  | of x =>
    have hle : (0 : Double) ≤ of x ↔ Float.ofNat 0 ≤ x := Iff.rfl
    rw [hle, Amount.le_iff]
    constructor
    · rintro ⟨z, a, hz, ha, hza⟩
      obtain rfl := Option.some.inj (hzero.symm.trans hz)
      exact ⟨x, rfl, a.toNat, by rw [ha, Int.toNat_of_nonneg hza]⟩
    · rintro ⟨y, hy, n, hn⟩
      cases hy
      exact ⟨0, n, hzero, hn, Int.natCast_nonneg n⟩

theorem isNaN_of_amount {x : Float} {a : Int} (h : Amount.ofFloat? x = some a) :
    x.isNaN = false := by
  have hparts := Amount.ofParts?_unpack x.toBits.toBitVec
  change Amount.ofParts? x.toModel.unpack = Amount.ofFloat? x at hparts
  rw [h] at hparts
  change x.toModel.unpack.isNaN = false
  cases hu : x.toModel.unpack with
  | notANumber =>
    rw [hu] at hparts
    cases hparts
  | infinity s => rfl
  | zero s => rfl
  | finite s m e hm => rfl

/-- An operation on numbers is the one on floating-point numbers, if that gives a number. -/
theorem operation_of {op : Float → Float → Float} {x y : Float} {a b c : Int}
    (hx : Amount.ofFloat? x = some a) (hy : Amount.ofFloat? y = some b)
    (hresult : Amount.ofFloat? (op x y) = some c) : operation op (of x) (of y) = of (op x y) := by
  have hop : operation op (of x) (of y) = if (of x).isNaN then of x else if (of y).isNaN then of y
      else result (op x y) := rfl
  have hxn : (of x).isNaN = false := isNaN_of_amount hx
  have hyn : (of y).isNaN = false := isNaN_of_amount hy
  rw [hop, hxn, hyn, if_neg Bool.false_ne_true, if_neg Bool.false_ne_true, result,
    isNaN_of_amount hresult, if_neg Bool.false_ne_true]

/-- **The amount of a sum** is the sum of the amounts. -/
theorem add_of_amounts {x y : Float} {a b : Nat} (hx : Amount.ofFloat? x = some (a : Int))
    (hy : Amount.ofFloat? y = some (b : Int)) :
    of x + of y = of (x + y) ∧ Amount.ofFloat? (x + y) = some (Amount.sum a b : Int) := by
  have hamount : Amount.ofFloat? (x + y) = some (Amount.sum a b : Int) := by
    refine (Amount.ofBits?_eq_natCast_iff (x + y).toBits.toNat_lt).2
      ⟨Nat.min_le_right _ _, ?_⟩
    rcases Amount.toBits_add hx hy with hbits | ⟨-, hbits, hzero⟩
    · exact .inl hbits
    · exact .inr ⟨hzero, hbits⟩
  exact ⟨operation_of hx hy hamount, hamount⟩

theorem of_le_of {x y : Float} {a b : Int} (hx : Amount.ofFloat? x = some a)
    (hy : Amount.ofFloat? y = some b) : of x ≤ of y ↔ a ≤ b := by
  have hle : of x ≤ of y ↔ x ≤ y := Iff.rfl
  rw [hle, Amount.le_iff, hx, hy]
  constructor
  · rintro ⟨c, d, hc, hd, hcd⟩
    cases hc
    cases hd
    exact hcd
  · intro hab
    exact ⟨a, b, rfl, rfl, hab⟩

/-- The bits of a double without a sign are its amount. -/
theorem unsigned_iff {a : Double} :
    Scalar.Unsigned a ↔
      ∃ x, a = of x ∧ Amount.ofFloat? x = some (x.toBits.toNat : Int) := by
  have hzero : rank 0 = 0 := by decide +kernel
  have horder : (Scalar.order 0 a).isLE = true ↔ 0 ≤ rank a := by
    rw [← hzero]
    exact Int.isLE_compare
  unfold Scalar.Unsigned
  rw [nonneg_iff, horder]
  constructor
  · rintro ⟨⟨x, rfl, n, hn⟩, hrank⟩
    refine ⟨x, rfl, ?_⟩
    have hbits := (Amount.ofBits?_eq_natCast_iff x.toBits.toNat_lt).1 hn
    rw [rank_of] at hrank
    split at hrank
    · have hsame : x.toBits.toNat = n := by omega
      rw [hsame, hn]
    · omega
  · rintro ⟨x, rfl, hx⟩
    refine ⟨⟨x, rfl, _, hx⟩, ?_⟩
    obtain ⟨hle, -⟩ := (Amount.ofBits?_eq_natCast_iff x.toBits.toNat_lt).1 hx
    unfold Amount.infiniteAmount at hle
    rw [rank_of, if_pos (by omega)]
    exact Int.natCast_nonneg _

theorem add_le_add_of_nonneg {a b c d : Double} (ha : 0 ≤ a) (hc : 0 ≤ c) (hab : a ≤ b)
    (hcd : c ≤ d) : a + c ≤ b + d := by
  obtain ⟨x, rfl, k, hk⟩ := nonneg_iff.1 ha
  obtain ⟨y, rfl, l, hl⟩ := nonneg_iff.1 (Scalar.le_trans ha hab)
  obtain ⟨z, rfl, m, hm⟩ := nonneg_iff.1 hc
  obtain ⟨w, rfl, n, hn⟩ := nonneg_iff.1 (Scalar.le_trans hc hcd)
  have hkl := (of_le_of hk hl).1 hab
  have hmn := (of_le_of hm hn).1 hcd
  obtain ⟨hxz, hsum⟩ := add_of_amounts hk hm
  obtain ⟨hyw, hsum'⟩ := add_of_amounts hl hn
  have hmono := Amount.sum_mono (Int.ofNat_le.1 hkl) (Int.ofNat_le.1 hmn)
  rw [hxz, hyw]
  exact (of_le_of hsum hsum').2 (Int.ofNat_le.2 hmono)

/-- **Sums of doubles are as searches take sums to be.** -/
theorem steadySum : Scalar.SteadySum Double where
  add_le_add ha hc hab := add_le_add_of_nonneg ha hc hab (Scalar.number_of_le hc).2
  le_add {a c} ha hc := by
    obtain ⟨x, rfl, m, hm⟩ := nonneg_iff.1 ha
    obtain ⟨z, rfl, k, hk⟩ := nonneg_iff.1 hc
    obtain ⟨hxz, hsum⟩ := add_of_amounts hm hk
    obtain ⟨hle, -⟩ := (Amount.ofBits?_eq_natCast_iff x.toBits.toNat_lt).1 hm
    rw [hxz]
    refine (of_le_of hm hsum).2 ?_
    have hbound := Amount.le_sum hle k
    omega
  add_le_add_left ha hb hbc := add_le_add_of_nonneg ha hb (Scalar.number_of_le ha).2 hbc
  unsigned_add {a c} ha hc := by
    obtain ⟨x, rfl, hx⟩ := unsigned_iff.1 ha
    obtain ⟨z, rfl, k, hk⟩ := nonneg_iff.1 hc
    obtain ⟨hxz, hsum⟩ := add_of_amounts hx hk
    rw [hxz]
    refine unsigned_iff.2 ⟨x + z, rfl, ?_⟩
    -- Only two doubles with the sign bit have a sum with it.
    rcases Amount.toBits_add hx hk with hbits | ⟨hsign, -⟩
    · rw [hsum, hbits]
    · obtain ⟨hle, -⟩ := (Amount.ofBits?_eq_natCast_iff x.toBits.toNat_lt).1 hx
      unfold Amount.infiniteAmount at hle
      omega
  unsigned_antisymm {a b} ha hb hab hba := by
    obtain ⟨x, rfl, hx⟩ := unsigned_iff.1 ha
    obtain ⟨y, rfl, hy⟩ := unsigned_iff.1 hb
    have hxy := (of_le_of hx hy).1 hab
    have hyx := (of_le_of hy hx).1 hba
    apply bits_injective
    change x.toBits.toNat = y.toBits.toNat
    omega

end Double

end TransitMatching
