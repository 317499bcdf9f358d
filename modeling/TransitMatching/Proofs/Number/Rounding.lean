import Mathlib.Data.Nat.Log
import Mathlib.Tactic.Positivity
import Mathlib.Tactic.Ring
import TransitMatching.Number.Amount
import TransitMatching.Number.Fixed

/-!
# Rounding to doubles

A double that is not negative has a value in units of the least positive double,
which is a natural number. `units` gives this value from the amount of the double,
and `rounded` goes back: it rounds a number of units to the nearest double, a tie
going to the even one, with no bound on the size. What is no whole number of units,
as a product may be, is counted in units that are finer by a power of two, and
`roundedAt` rounds it.

* `roundedAt_mono`, `rounded_units`: rounding keeps the order, and gives back a double
  from its value.
* `toNat_pack_roundWithAccuracy`, `toNat_pack_round`: **mantissas are rounded as
  `roundedAt` says**, and amounts beyond that of infinity stand for infinity.
-/

namespace TransitMatching

theorem roundHalfEven_mono {num num' den : Nat} (h : num ≤ num') :
    roundHalfEven num den ≤ roundHalfEven num' den := by
  have hq : num / den ≤ num' / den := Nat.div_le_div_right h
  have hlt := roundHalfEven_cases num den
  have hlt' := roundHalfEven_cases num' den
  rcases Nat.lt_or_eq_of_le hq with hq | hq
  · omega
  · -- With one quotient, the greater number has the greater rest.
    have hrest : num % den ≤ num' % den := by
      have e := Nat.div_add_mod' num den
      have e' := Nat.div_add_mod' num' den
      rw [← hq] at e'
      omega
    have hparity := Nat.mod_two_eq_zero_or_one (num / den)
    simp only [roundHalfEven, ← hq]
    split_ifs <;> omega

theorem roundHalfEven_mul_right (num den : Nat) {c : Nat} (hc : 0 < c) :
    roundHalfEven (num * c) (den * c) = roundHalfEven num den := by
  simp only [roundHalfEven, Nat.mul_div_mul_right num den hc, Nat.mul_mod_mul_right, ← Nat.mul_assoc,
    Nat.mul_lt_mul_right hc]

theorem roundHalfEven_one (num : Nat) : roundHalfEven num 1 = num := by
  simp [roundHalfEven, Nat.mod_one]

/-- A whole multiple is rounded to its factor. -/
theorem roundHalfEven_mul_self (num : Nat) {den : Nat} (h : 0 < den) :
    roundHalfEven (num * den) den = num := by
  have hscale := roundHalfEven_mul_right num 1 h
  rwa [Nat.one_mul, roundHalfEven_one] at hscale

namespace Amount

open Float.Model (Format UnpackedFloat totalExponent)
open Float.Model.UnpackedFloat

/-! ## Values and amounts -/

/-- The value of a double of the given amount, in units of the least positive double. -/
def units (a : Nat) : Nat :=
  if a < 2 ^ 52 then a else (2 ^ 52 + a % 2 ^ 52) * 2 ^ (a / 2 ^ 52 - 1)

/-- The power of two to whose multiples a number of units is rounded. -/
def grain (n : Nat) : Nat := n.log2 - 52

/-- The amount of the double nearest to a number of units, the even one of two. -/
def rounded (n : Nat) : Nat := grain n * 2 ^ 52 + roundHalfEven n (2 ^ grain n)

/-- The power of two to whose multiples a number is rounded that is counted in units `2 ^ k` times
finer than the least positive double. -/
def grainAt (k n : Nat) : Nat := max (grain n) k

/-- The amount of the double nearest to a number of such finer units, the even one of two. -/
def roundedAt (k n : Nat) : Nat := (grainAt k n - k) * 2 ^ 52 + roundHalfEven n (2 ^ grainAt k n)

theorem grainAt_zero (n : Nat) : grainAt 0 n = grain n := Nat.max_zero _

theorem roundedAt_zero (n : Nat) : roundedAt 0 n = rounded n := by
  rw [roundedAt, rounded, grainAt_zero, Nat.sub_zero]

theorem grain_mono {n n' : Nat} (h : n ≤ n') : grain n ≤ grain n' := by
  have hlog : n.log2 ≤ n'.log2 := by
    rw [Nat.log2_eq_log_two, Nat.log2_eq_log_two]
    exact Nat.log_mono_right h
  unfold grain
  omega

theorem grain_of_lt {n : Nat} (h : n < 2 ^ 53) : grain n = 0 := by
  unfold grain
  by_cases hn : n = 0
  · simp [hn]
  · have hlog : n.log2 < 53 := (Nat.log2_lt hn).2 h
    omega

theorem log2_mul_two_pow {m : Nat} (hm : 0 < m) (t : Nat) : (m * 2 ^ t).log2 = m.log2 + t := by
  have hpos : 0 < 2 ^ t := by positivity
  rw [Nat.log2_eq_iff (Nat.mul_pos hm hpos).ne', pow_add, Nat.add_right_comm, pow_add]
  exact ⟨Nat.mul_le_mul_right _ (Nat.log2_self_le hm.ne'),
    Nat.mul_lt_mul_of_pos_right Nat.lt_log2_self hpos⟩

theorem grain_mul {m : Nat} (hm : 2 ^ 52 ≤ m) (hm' : m < 2 ^ 53) (t : Nat) :
    grain (m * 2 ^ t) = t := by
  have hlog : m.log2 = 52 := (Nat.log2_eq_iff (by omega)).2 ⟨hm, hm'⟩
  rw [grain, log2_mul_two_pow (by omega), hlog]
  omega

/-- What is rounded to a multiple of more than one unit has as many digits as fit. -/
theorem le_roundHalfEven_grain {n : Nat} (h : 0 < grain n) :
    2 ^ 52 ≤ roundHalfEven n (2 ^ grain n) := by
  have hn : n ≠ 0 := by
    rintro rfl
    exact absurd h (by decide)
  have hle : 2 ^ 52 * 2 ^ grain n ≤ n := by
    have hlog := Nat.log2_self_le hn
    have hsum : 52 + grain n = n.log2 := by
      unfold grain at h ⊢
      omega
    rwa [← pow_add, hsum]
  calc 2 ^ 52 = roundHalfEven (2 ^ 52 * 2 ^ grain n) (2 ^ grain n) :=
        (roundHalfEven_mul_self _ (by positivity)).symm
    _ ≤ roundHalfEven n (2 ^ grain n) := roundHalfEven_mono hle

theorem roundHalfEven_le_of_grain_le {n g : Nat} (h : grain n ≤ g) :
    roundHalfEven n (2 ^ g) ≤ 2 ^ 53 := by
  have hle : n ≤ 2 ^ 53 * 2 ^ g := by
    rw [← pow_add]
    refine (Nat.lt_log2_self (n := n)).le.trans (Nat.pow_le_pow_right (by decide) ?_)
    unfold grain at h
    omega
  calc roundHalfEven n (2 ^ g) ≤ roundHalfEven (2 ^ 53 * 2 ^ g) (2 ^ g) := roundHalfEven_mono hle
    _ = 2 ^ 53 := roundHalfEven_mul_self _ (by positivity)

theorem roundHalfEven_grainAt_le (k n : Nat) : roundHalfEven n (2 ^ grainAt k n) ≤ 2 ^ 53 :=
  roundHalfEven_le_of_grain_le (Nat.le_max_left _ _)

theorem le_roundHalfEven_grainAt {k n : Nat} (h : k < grainAt k n) :
    2 ^ 52 ≤ roundHalfEven n (2 ^ grainAt k n) := by
  have hgrain : grainAt k n = grain n := by
    unfold grainAt at h ⊢
    omega
  rw [hgrain] at h ⊢
  exact le_roundHalfEven_grain (Nat.zero_lt_of_lt h)

/-- **Rounding keeps the order**, whatever the units are. -/
theorem roundedAt_mono {k n n' : Nat} (h : n ≤ n') : roundedAt k n ≤ roundedAt k n' := by
  have hgrain : grainAt k n ≤ grainAt k n' := max_le_max_right k (grain_mono h)
  have hleast : k ≤ grainAt k n := Nat.le_max_right _ _
  unfold roundedAt
  rcases Nat.lt_or_eq_of_le hgrain with hlt | heq
  · -- A coarser grain makes up for the greatest carry.
    have hhigh := roundHalfEven_grainAt_le k n
    have hlow := le_roundHalfEven_grainAt (Nat.lt_of_le_of_lt hleast hlt)
    omega
  · rw [heq]
    exact Nat.add_le_add_left (roundHalfEven_mono h) _

theorem rounded_mono {n n' : Nat} (h : n ≤ n') : rounded n ≤ rounded n' := by
  rw [← roundedAt_zero, ← roundedAt_zero]
  exact roundedAt_mono h

/-- **The value of a double is rounded to that double.** -/
theorem rounded_units (a : Nat) : rounded (units a) = a := by
  unfold units
  split
  · next h =>
    have hgrain : grain a = 0 := grain_of_lt (by omega)
    rw [rounded, hgrain, pow_zero, roundHalfEven_one]
    omega
  · next h =>
    have hgrain : grain ((2 ^ 52 + a % 2 ^ 52) * 2 ^ (a / 2 ^ 52 - 1)) = a / 2 ^ 52 - 1 :=
      grain_mul (by omega) (by omega) _
    rw [rounded, hgrain, roundHalfEven_mul_self _ (by positivity)]
    omega

/-- Greater doubles have greater values. -/
theorem units_mono {a b : Nat} (h : a ≤ b) : units a ≤ units b := by
  by_contra hlt
  have hround := rounded_mono (Nat.le_of_not_le hlt)
  rw [rounded_units, rounded_units] at hround
  exact hlt (by rw [Nat.le_antisymm h hround])

/-! ## Rounding a mantissa -/

/-- A mantissa that was divided, with what the bits behind it tell about the remainder. -/
structure Quotient (m d : Nat) (em : ExtendedMantissa) : Prop where
  mantissa : em.mantissa = m / d
  roundBit : em.roundBit = decide (d ≤ 2 * (m % d))
  stickyBit : em.stickyBit = decide (2 * (m % d) ≠ 0 ∧ 2 * (m % d) ≠ d)

theorem quotient_exact (m : Nat) : Quotient m 1 (.ofMantissaAndAccuracy m .exact) where
  mantissa := (Nat.div_one m).symm
  roundBit := by
    rw [Nat.mod_one]
    rfl
  stickyBit := by
    rw [Nat.mod_one]
    rfl

theorem Quotient.shiftRightOne {m d : Nat} {em : ExtendedMantissa} (hd : 0 < d)
    (h : Quotient m d em) : Quotient m (d * 2) em.shiftRightOne := by
  have hmod := Nat.mod_mul (x := m) (a := d) (b := 2)
  have hlt := Nat.mod_lt m hd
  have hbit := Nat.mod_two_eq_zero_or_one (m / d)
  refine ⟨?_, ?_, ?_⟩
  · change em.mantissa / 2 = m / (d * 2)
    rw [h.mantissa, Nat.div_div_eq_div_mul]
  · change (em.mantissa % 2 != 0) = _
    rw [h.mantissa, hmod]
    rcases hbit with hbit | hbit <;> rw [hbit]
    · exact (decide_eq_false (by omega)).symm
    · exact (decide_eq_true (by omega)).symm
  · change (em.roundBit || em.stickyBit) = _
    rw [h.roundBit, h.stickyBit, ← Bool.decide_or, hmod]
    refine decide_eq_decide.2 ?_
    rcases hbit with hbit | hbit <;> rw [hbit] <;> omega

theorem Quotient.shiftRight {m : Nat} {em : ExtendedMantissa} (h : Quotient m 1 em) (n : Nat) :
    Quotient m (2 ^ n) (em >>> n) := by
  induction n with
  | zero => exact h
  | succ n ih =>
    rw [pow_succ]
    exact ih.shiftRightOne (Nat.two_pow_pos n)

theorem Quotient.roundedMantissa {m d : Nat} {em : ExtendedMantissa} (hd : 0 < d)
    (h : Quotient m d em) : em.roundedMantissa = roundHalfEven m d := by
  obtain ⟨q, round, sticky⟩ := em
  obtain ⟨rfl, hround, hsticky⟩ := h
  dsimp only at hround hsticky
  unfold roundHalfEven
  dsimp only
  cases round with
  | false =>
    have hlow : 2 * (m % d) < d := Nat.not_le.1 (of_decide_eq_false hround.symm)
    rw [if_pos hlow]
    cases sticky <;> rfl
  | true =>
    have hhigh : d ≤ 2 * (m % d) := of_decide_eq_true hround.symm
    rw [if_neg (Nat.not_lt.2 hhigh)]
    cases sticky with
    | false =>
      have htie := of_decide_eq_false hsticky.symm
      rw [if_neg (by omega)]
      rfl
    | true =>
      have hmore := of_decide_eq_true hsticky.symm
      rw [if_pos (by omega)]
      rfl

/-! ## Rounding a finite value -/

/-- An exponent that is `n` above the least one. -/
def exponent (n : Nat) : Int := n - 1074

theorem targetExponent_eq {m : Nat} (hm : 0 < m) (n k : Nat) :
    Format.binary64.targetExponent (totalExponent m (exponent n - k)) =
      exponent (grainAt k (m * 2 ^ n) - k) := by
  change max ((m.log2 : Int) + 1 + ((n : Int) - 1074 - k) - 53) (-1074) =
    ((max (_ - 52) k - k : Nat) : Int) - 1074
  rw [log2_mul_two_pow hm]
  omega

/-- A mantissa is shifted until it has no more digits than fit. -/
theorem shiftToTargetExponent_eq {m : Nat} (hm : 0 < m) (n k : Nat) :
    shiftToTargetExponent .binary64 m (exponent n - k) .exact =
      (ExtendedMantissa.ofMantissaAndAccuracy m .exact >>> (grainAt k (m * 2 ^ n) - n),
        exponent (n + (grainAt k (m * 2 ^ n) - n)) - k) := by
  have hleast : k ≤ grainAt k (m * 2 ^ n) := Nat.le_max_right _ _
  unfold shiftToTargetExponent
  dsimp only
  rw [targetExponent_eq hm]
  have hshift : (exponent (grainAt k (m * 2 ^ n) - k) - (exponent n - k)).toNat =
      grainAt k (m * 2 ^ n) - n := by
    unfold exponent
    omega
  unfold shiftToExponent
  rw [hshift]
  refine Prod.ext rfl ?_
  unfold exponent
  dsimp only
  omega

theorem shiftToTargetExponent_zero (e : Int) :
    (shiftToTargetExponent .binary64 0 e .exact).1.mantissa = 0 := by
  have hquotient := (quotient_exact 0).shiftRight
    (Format.binary64.targetExponent (totalExponent 0 e) - e).toNat
  exact hquotient.mantissa.trans (Nat.zero_div _)

/-- The amount of a finite double with a mantissa and an exponent that is `n` above the least. -/
def finiteAmount (m n : Nat) : Nat := n * 2 ^ 52 + m

/-- A mantissa and an exponent as a double has them. -/
structure Fits (m n : Nat) : Prop where
  pos : 0 < m
  lt : m < 2 ^ 53
  normal : 0 < n → 2 ^ 52 ≤ m

/-- What rounding carried into one digit too many is shifted by one place, which changes nothing
about the amount. -/
theorem exists_shift_carry {r g : Nat} (hr : 0 < r) (hle : r ≤ 2 ^ 53)
    (hnormal : 0 < g → 2 ^ 52 ≤ r) :
    ∃ m n, (shiftToTargetExponent .binary64 r (exponent g) .exact).1.mantissa = m ∧
      (shiftToTargetExponent .binary64 r (exponent g) .exact).2 = exponent n ∧
        Fits m n ∧ finiteAmount m n = finiteAmount r g := by
  have hshift := shiftToTargetExponent_eq hr g 0
  rw [Nat.cast_zero, Int.sub_zero, Int.sub_zero, grainAt_zero] at hshift
  rw [hshift]
  have hquotient := (quotient_exact r).shiftRight (grain (r * 2 ^ g) - g)
  refine ⟨_, _, hquotient.mantissa, rfl, ?_⟩
  unfold finiteAmount
  rcases Nat.lt_or_eq_of_le hle with hlt | rfl
  · have hgrain : grain (r * 2 ^ g) - g = 0 := by
      have hlog : r.log2 < 53 := (Nat.log2_lt hr.ne').2 hlt
      rw [grain, log2_mul_two_pow hr]
      omega
    rw [hgrain, pow_zero, Nat.div_one]
    exact ⟨⟨hr, hlt, hnormal⟩, rfl⟩
  · have hgrain : grain (2 ^ 53 * 2 ^ g) - g = 1 := by
      rw [grain, log2_mul_two_pow hr, Nat.log2_two_pow]
      omega
    rw [hgrain]
    exact ⟨⟨by decide, by decide, fun _ => by decide⟩, by omega⟩

/-- A mantissa that has at least as many digits as fit is rounded to zero or to a finite double. -/
theorem roundWithAccuracy_cases {m n k : Nat} (hm : 0 < m) (hn : n ≤ grainAt k (m * 2 ^ n)) :
    roundedAt k (m * 2 ^ n) = 0 ∧
        roundWithAccuracy .binary64 .positive m (exponent n - k) .exact = .zero .positive ∨
      ∃ m' n' h, Fits m' n' ∧ finiteAmount m' n' = roundedAt k (m * 2 ^ n) ∧
        roundWithAccuracy .binary64 .positive m (exponent n - k) .exact =
          .finite .positive m' (exponent n') h := by
  have hle := roundHalfEven_grainAt_le k (m * 2 ^ n)
  have hlow := le_roundHalfEven_grainAt (k := k) (n := m * 2 ^ n)
  have hleast : k ≤ grainAt k (m * 2 ^ n) := Nat.le_max_right _ _
  have hshift := shiftToTargetExponent_eq hm n k
  unfold roundedAt roundWithAccuracy
  generalize grainAt k (m * 2 ^ n) = g at *
  have hquotient := (quotient_exact m).shiftRight (g - n)
  have hround : (ExtendedMantissa.ofMantissaAndAccuracy m .exact >>> (g - n)).roundedMantissa =
      roundHalfEven (m * 2 ^ n) (2 ^ g) := by
    rw [hquotient.roundedMantissa (Nat.two_pow_pos _),
      ← roundHalfEven_mul_right m _ (Nat.two_pow_pos n), ← pow_add, Nat.sub_add_cancel hn]
  have hexponent : exponent g - k = exponent (g - k) := by
    unfold exponent
    omega
  rw [hshift, Nat.add_sub_cancel' hn]
  dsimp only
  rw [hround, hexponent]
  generalize roundHalfEven (m * 2 ^ n) (2 ^ g) = r at *
  rcases Nat.eq_zero_or_pos r with rfl | hr
  · left
    have hzero := shiftToTargetExponent_zero (exponent (g - k))
    rw [dif_pos hzero]
    exact ⟨by omega, rfl⟩
  · right
    have hnormal : 0 < g - k → 2 ^ 52 ≤ r := fun h => hlow (by omega)
    obtain ⟨m', n', hm', hn', hfits, hamount⟩ := exists_shift_carry hr hle hnormal
    refine ⟨m', n', hfits.pos, hfits, hamount, ?_⟩
    rw [hm', hn', dif_neg hfits.pos.ne']

theorem decreaseExponent_eq (m n k : Nat) :
    decreaseExponent m (exponent n) (exponent k) = (m * 2 ^ (n - k), exponent (min n k)) := by
  have hshift : (exponent n - exponent k).toNat = n - k := by
    unfold exponent
    omega
  unfold decreaseExponent
  dsimp only
  rw [hshift, Nat.shiftLeft_eq]
  refine Prod.ext rfl ?_
  unfold exponent
  dsimp only
  omega

/-- A mantissa with digits put behind it, and its value. -/
theorem mul_two_pow_sub (m n k : Nat) : m * 2 ^ (n - k) * 2 ^ min n k = m * 2 ^ n := by
  rw [Nat.mul_assoc, ← pow_add]
  congr 2
  omega

/-! ## Bits -/

/-- The amount of infinity. -/
def infiniteAmount : Nat := 0x7FF0000000000000

/-- The sign bit. -/
def signBit (s : Sign) : Nat := if isMinus s then 0x8000000000000000 else 0

theorem toNat_packComponents (s : Sign) (e : BitVec 11) (m : BitVec 52) :
    (packComponents .binary64 s e m).toNat = signBit s + e.toNat * 2 ^ 52 + m.toNat := by
  have hs : (s.toBitVec).toNat * 2 ^ 63 = signBit s := by
    cases s <;> rfl
  change ((s.toBitVec ++ e) ++ m).toNat = _
  rw [BitVec.toNat_append, BitVec.toNat_append, ← Nat.shiftLeft_add_eq_or_of_lt m.isLt,
    ← Nat.shiftLeft_add_eq_or_of_lt e.isLt, Nat.shiftLeft_eq, Nat.shiftLeft_eq, ← hs]
  ring

theorem toNat_packedInfinity : (packedInfinity .binary64 .positive).toNat = infiniteAmount := rfl

/-- Packing a finite double gives its amount, or infinity for one that is too large. -/
theorem toNat_pack_finite {m n : Nat} (h : Fits m n) (hpos : 0 < m) :
    (pack .binary64 (.finite .positive m (exponent n) hpos)).toNat =
      min (finiteAmount m n) infiniteAmount := by
  obtain ⟨-, hlt, hnormal⟩ := h
  have hbiased : (exponent n + 1023 + 52).toNat = n + 1 := by
    unfold exponent
    omega
  change BitVec.toNat (if 2048 ≤ (exponent n + 1023 + 52).toNat + 1 then _
    else if m.log2 + 1 = 53 then
      packComponents .binary64 .positive (.ofNat 11 (exponent n + 1023 + 52).toNat) (.ofNat 52 m)
    else packComponents .binary64 .positive 0#11 (.ofNat 52 m)) = _
  rw [hbiased]
  unfold finiteAmount infiniteAmount
  have hlog : m.log2 + 1 = 53 ↔ 2 ^ 52 ≤ m := by
    have h52 := Nat.le_log2 (n := m) (k := 52) hpos.ne'
    have h53 := Nat.log2_lt (n := m) (k := 53) hpos.ne'
    omega
  have hm : (BitVec.ofNat 52 m).toNat = m % 2 ^ 52 := BitVec.toNat_ofNat _ _
  have he : (BitVec.ofNat 11 (n + 1)).toNat = (n + 1) % 2 ^ 11 := BitVec.toNat_ofNat _ _
  split
  · rw [toNat_packedInfinity]
    unfold infiniteAmount
    omega
  · split
    · rw [toNat_packComponents, hm, he]
      have hsign : signBit .positive = 0 := rfl
      omega
    · rw [toNat_packComponents, hm]
      have hsign : signBit .positive = 0 := rfl
      have hzero : (0#11).toNat = 0 := rfl
      omega

/-- **A mantissa with digits enough is rounded to the double of the rounded amount.** -/
theorem toNat_pack_roundWithAccuracy {m n k : Nat} (hm : 0 < m) (hn : n ≤ grainAt k (m * 2 ^ n)) :
    (pack .binary64 (roundWithAccuracy .binary64 .positive m (exponent n - k) .exact)).toNat =
      min (roundedAt k (m * 2 ^ n)) infiniteAmount := by
  rcases roundWithAccuracy_cases hm hn with ⟨hzero, heq⟩ | ⟨m', n', h, hfits, hamount, heq⟩
  · rw [heq, hzero]
    rfl
  · rw [heq, toNat_pack_finite hfits, hamount]

/-- **A positive value is rounded to the double of the rounded amount**, however few digits it is
given with. -/
theorem toNat_pack_round {m : Nat} (hm : 0 < m) (n : Nat) :
    (pack .binary64 (round .binary64 .positive m (exponent n))).toNat =
      min (rounded (m * 2 ^ n)) infiniteAmount := by
  have htarget := targetExponent_eq hm n 0
  rw [Nat.cast_zero, Int.sub_zero, Nat.sub_zero, grainAt_zero] at htarget
  -- Digits are put behind the mantissa first, as many as fit.
  have hvalue := mul_two_pow_sub m n (grain (m * 2 ^ n))
  have hpos : 0 < m * 2 ^ (n - grain (m * 2 ^ n)) := Nat.mul_pos hm (Nat.two_pow_pos _)
  have hfew : min n (grain (m * 2 ^ n)) ≤
      grainAt 0 (m * 2 ^ (n - grain (m * 2 ^ n)) * 2 ^ min n (grain (m * 2 ^ n))) := by
    rw [hvalue, grainAt_zero]
    exact Nat.min_le_right _ _
  have hround := toNat_pack_roundWithAccuracy hpos hfew
  rw [hvalue, roundedAt_zero, Nat.cast_zero, Int.sub_zero] at hround
  unfold UnpackedFloat.round
  dsimp only
  rw [htarget, decreaseExponent_eq]
  exact hround

end Amount

end TransitMatching
