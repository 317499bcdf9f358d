import TransitMatching.Proofs.Number.Sum

/-!
# Quotients of doubles

A number that is not negative, divided by one above zero, gives a number that is not
negative, however the quotient is rounded. The one exception is infinity by infinity,
which is no number.

* `Amount.notNegative_div`: the parts of a quotient.
* `Double.div_nonneg`, `Double.infinity_div_infinity`: **quotients are not negative**,
  unless both numbers are infinite.
-/

namespace TransitMatching

namespace Amount

open Float.Model (Format UnpackedFloat)
open Float.Model.UnpackedFloat

/-- A double that is a number and has no minus sign, or is a zero, by its parts. -/
inductive NotNegative : UnpackedFloat → Prop where
  | zero (s : Sign) : NotNegative (.zero s)
  | finite (m : Nat) (e : Int) (h : 0 < m) : NotNegative (.finite .positive m e h)
  | infinity : NotNegative (.infinity .positive)

theorem NotNegative.dite {p : Prop} [Decidable p] {u : p → UnpackedFloat} {v : ¬ p → UnpackedFloat}
    (hu : ∀ h, NotNegative (u h)) (hv : ∀ h, NotNegative (v h)) : NotNegative (dite p u v) := by
  by_cases h : p
  · rw [dif_pos h]
    exact hu h
  · rw [dif_neg h]
    exact hv h

/-- What is packed without a minus sign and with less than the greatest exponent stays below
infinity. -/
theorem toNat_packComponents_lt {e : BitVec 11} (he : e.toNat < 2047) (m : BitVec 52) :
    (packComponents .binary64 .positive e m).toNat < infiniteAmount := by
  have hm : m.toNat < 2 ^ 52 := m.isLt
  have hsign : signBit .positive = 0 := rfl
  rw [toNat_packComponents, hsign]
  unfold infiniteAmount
  omega

/-- Whatever its mantissa and exponent, a finite double without a minus sign is packed as a number
up to infinity. -/
theorem toNat_pack_finite_le (m : Nat) (e : Int) (h : 0 < m) :
    (pack .binary64 (.finite .positive m e h)).toNat ≤ infiniteAmount := by
  change BitVec.toNat (if 2048 ≤ (e + 1023 + 52).toNat + 1 then packedInfinity .binary64 .positive
    else if m.log2 + 1 = 53 then
      packComponents .binary64 .positive (.ofNat 11 (e + 1023 + 52).toNat) (.ofNat 52 m)
    else packComponents .binary64 .positive 0#11 (.ofNat 52 m)) ≤ _
  split
  · exact toNat_packedInfinity.le
  · next hsmall =>
    split
    · refine (toNat_packComponents_lt ?_ _).le
      rw [BitVec.toNat_ofNat]
      omega
    · exact (toNat_packComponents_lt (by decide) _).le

/-- Packing gives a number that is not negative. -/
theorem NotNegative.ofBits?_pack {u : UnpackedFloat} (h : NotNegative u) :
    ∃ a : Nat, ofBits? (pack .binary64 u).toNat = some (a : Int) := by
  have hbound := (pack .binary64 u).isLt
  cases h with
  | zero s =>
    refine ⟨0, (ofBits?_eq_natCast_iff hbound).2 ⟨Nat.zero_le _, ?_⟩⟩
    cases s with
    | positive => exact .inl rfl
    | negative => exact .inr ⟨rfl, rfl⟩
  | finite m e hm =>
    exact ⟨_, (ofBits?_eq_natCast_iff hbound).2 ⟨toNat_pack_finite_le m e hm, .inl rfl⟩⟩
  | infinity =>
    exact ⟨_, (ofBits?_eq_natCast_iff hbound).2 ⟨toNat_packedInfinity.le, .inl rfl⟩⟩

/-- Rounding keeps the sign, and gives a number. -/
theorem notNegative_roundWithAccuracy (m : Nat) (e : Int) (accuracy : Accuracy) :
    NotNegative (roundWithAccuracy .binary64 .positive m e accuracy) := by
  unfold roundWithAccuracy
  exact .dite (fun _ => .zero _) fun _ => .finite _ _ _

/-- The quotient of a double that is not negative by one above zero, unless both are infinite. -/
theorem notNegative_div {u v : UnpackedFloat} {a b : Nat} (hu : Shows u a) (hv : Shows v b)
    (hb : 0 < b) (hfinite : ¬ (a = infiniteAmount ∧ b = infiniteAmount)) :
    NotNegative (div .binary64 u v) := by
  cases hv with
  | zero s => exact absurd hb (Nat.lt_irrefl 0)
  | finite hm hfits hlt =>
    cases hu with
    | zero s => exact .zero _
    | finite _ _ _ => exact notNegative_roundWithAccuracy _ _ _
    | infinity => exact .infinity
  | infinity =>
    cases hu with
    | zero s => exact .zero _
    | finite _ _ _ => exact .zero _
    | infinity => exact absurd ⟨rfl, rfl⟩ hfinite

end Amount

namespace Double

/-- A double above zero has a positive amount. -/
theorem pos_iff {a : Double} :
    0 < a ↔ ∃ x, a = of x ∧ ∃ n : Nat, 0 < n ∧ Amount.ofFloat? x = some (n : Int) := by
  have hzero : Amount.ofFloat? (Float.ofNat 0) = some 0 := by decide +kernel
  rw [lt_iff, nonneg_iff]
  constructor
  · rintro ⟨⟨x, rfl, n, hn⟩, hnot⟩
    refine ⟨x, rfl, n, ?_, hn⟩
    by_contra hle
    refine hnot ((of_le_of hn hzero).2 ?_)
    omega
  · rintro ⟨x, rfl, n, hpos, hn⟩
    refine ⟨⟨x, rfl, n, hn⟩, fun hle => ?_⟩
    have hle := (of_le_of hn hzero).1 hle
    omega

/-- Infinity is the double of the amount of infinity. -/
theorem eq_infinity_of_amount {x : Float}
    (h : Amount.ofFloat? x = some (Amount.infiniteAmount : Int)) : of x = Scalar.infinity := by
  have hbits : (Scalar.infinity : Double).bits = Amount.infiniteAmount := by decide +kernel
  apply bits_injective
  rw [hbits]
  rcases ((Amount.ofBits?_eq_natCast_iff x.toBits.toNat_lt).1 h).2 with heq | ⟨hzero, -⟩
  · exact heq
  · exact absurd hzero (by decide)

/-- **A number that is not negative divided by one above zero is not negative**, unless both are
infinite. -/
theorem div_nonneg {a b : Double} (ha : 0 ≤ a) (hb : 0 < b)
    (hfinite : ¬ (a = Scalar.infinity ∧ b = Scalar.infinity)) : 0 ≤ a / b := by
  obtain ⟨x, rfl, m, hm⟩ := nonneg_iff.1 ha
  obtain ⟨y, rfl, n, hpos, hn⟩ := pos_iff.1 hb
  have hu : Amount.Shows x.toModel.unpack m := Amount.shows_unpack hm
  have hv : Amount.Shows y.toModel.unpack n := Amount.shows_unpack hn
  have hamounts : ¬ (m = Amount.infiniteAmount ∧ n = Amount.infiniteAmount) := by
    rintro ⟨rfl, rfl⟩
    exact hfinite ⟨eq_infinity_of_amount hm, eq_infinity_of_amount hn⟩
  obtain ⟨c, hc⟩ := (Amount.notNegative_div hu hv hpos hamounts).ofBits?_pack
  have hquotient : Amount.ofFloat? (x / y) = some (c : Int) := hc
  have hdiv : of x / of y = of (x / y) := operation_of hm hn hquotient
  rw [hdiv]
  exact nonneg_iff.2 ⟨x / y, rfl, c, hquotient⟩

/-- Infinity by infinity is no number. -/
theorem infinity_div_infinity : (Scalar.infinity : Double) / Scalar.infinity = undefined := by
  decide +kernel

end Double

end TransitMatching
