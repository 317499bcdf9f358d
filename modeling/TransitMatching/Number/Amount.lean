/-!
# Amounts of doubles

Every double that is a number has an amount, an integer that grows with it: its
bits without the sign bit, taken with the sign. Infinities have an amount, and
both zeros have the same.

* `le_iff`, `lt_iff`: doubles compare as their amounts do; what is no number
  compares with nothing.
-/

namespace TransitMatching.Amount

open Float.Model (Format UnpackedFloat)
open Float.Model.UnpackedFloat

/-- A size with a sign. -/
def signed (negative : Bool) (size : Nat) : Int := if negative then -size else size

/-- The amount that sixty-four bits stand for. -/
def ofBits? (bits : Nat) : Option Int :=
  let size := bits % 0x8000000000000000
  if size ≤ 0x7FF0000000000000 then some (signed (decide (0x8000000000000000 ≤ bits)) size)
  else none

/-- The amount of a double, unless it is no number. -/
def ofFloat? (x : Float) : Option Int := ofBits? x.toBits.toNat

/-- Whether a sign is a minus. -/
def isMinus : Sign → Bool
  | .negative => true
  | .positive => false

/-- The amount of a double given by its parts. -/
def ofParts? : UnpackedFloat → Option Int
  | .notANumber => none
  | .infinity s => some (signed (isMinus s) (0x7FF0000000000000))
  | .zero _ => some 0
  | .finite s m e _ => some (signed (isMinus s) ((e + 1074).toNat * 0x10000000000000 + m))

theorem toNat_unpackMantissa (b : BitVec 64) :
    (@unpackMantissa Format.binary64 b).toNat = b.toNat % 0x10000000000000 := by
  simp [unpackMantissa, BitVec.extractLsb_toNat]

theorem toNat_unpackExponent (b : BitVec 64) :
    (@unpackExponent Format.binary64 b).toNat = b.toNat / 0x10000000000000 % 0x800 := by
  simp [unpackExponent, BitVec.extractLsb_toNat, Nat.shiftRight_eq_div_pow]

theorem toNat_unpackSign (b : BitVec 64) :
    (@unpackSign Format.binary64 b).toNat = b.toNat / 0x8000000000000000 := by
  have lt := b.isLt
  have h : (@unpackSign Format.binary64 b).toNat = (b.extractLsb 63 63).toNat := rfl
  rw [h, BitVec.extractLsb_toNat, Nat.shiftRight_eq_div_pow]
  omega

theorem isMinus_ofBitVec (b : BitVec 64) :
    isMinus (Sign.ofBitVec (@unpackSign Format.binary64 b)) =
      decide (0x8000000000000000 ≤ b.toNat) := by
  have h := toNat_unpackSign b
  have lt := b.isLt
  unfold Sign.ofBitVec
  split
  · next eq =>
    rw [eq] at h
    simp only [isMinus]
    simp at h
    simp; omega
  · next ne =>
    have : (@unpackSign Format.binary64 b).toNat ≠ 0 := fun h0 =>
      ne (BitVec.eq_of_toNat_eq (by simpa using h0))
    simp only [isMinus]
    simp; omega

theorem toNat_one_append (m : BitVec 52) : (1#1 ++ m).toNat = 0x10000000000000 + m.toNat := by
  rw [BitVec.toNat_append, ← Nat.shiftLeft_add_eq_or_of_lt m.isLt]
  simp

theorem finite_congr {s : Sign} {m n : Nat} {d e : Int} {hm : 0 < m} {hn : 0 < n} (h : m = n)
    (k : d = e) : UnpackedFloat.finite s m d hm = .finite s n e hn := by
  subst h
  subst k
  rfl

/-- The four kinds of doubles, by their exponent and fraction. -/
theorem unpack_cases (b : BitVec 64) :
    let u := unpack Format.binary64 b
    let s := Sign.ofBitVec (@unpackSign Format.binary64 b)
    let field : Nat := b.toNat / 0x10000000000000 % 0x800
    let fraction : Nat := b.toNat % 0x10000000000000
    (field = 2047 ∧ fraction = 0 ∧ u = .infinity s) ∨
      (field = 2047 ∧ fraction ≠ 0 ∧ u = .notANumber) ∨
      (field = 0 ∧ fraction = 0 ∧ u = .zero s) ∨
      (field = 0 ∧ ∃ h, u = .finite s fraction (-1074) h) ∨
      (field ≠ 2047 ∧ field ≠ 0 ∧
        ∃ h, u = .finite s (0x10000000000000 + fraction) (field - 1075) h) := by
  have hm := toNat_unpackMantissa b
  have he := toNat_unpackExponent b
  have e1 : (@unpackExponent Format.binary64 b = -1#11) ↔
      b.toNat / 0x10000000000000 % 0x800 = 2047 := by
    rw [← he, ← BitVec.toNat_inj]; simp
  have e0 : (@unpackExponent Format.binary64 b = 0#11) ↔
      b.toNat / 0x10000000000000 % 0x800 = 0 := by
    rw [← he, ← BitVec.toNat_inj]; simp
  have m0 : (@unpackMantissa Format.binary64 b = 0#52) ↔ b.toNat % 0x10000000000000 = 0 := by
    rw [← hm, ← BitVec.toNat_inj]; simp
  have bias : Format.exponentBias Format.binary64 = 1023 := rfl
  intro u s field fraction
  by_cases h1 : field = 2047
  · by_cases h2 : fraction = 0
    · exact .inl ⟨h1, h2, (if_pos (e1.2 h1)).trans (if_pos (m0.2 h2))⟩
    · exact .inr (.inl ⟨h1, h2, (if_pos (e1.2 h1)).trans (if_neg fun h => h2 (m0.1 h))⟩)
  · have n1 : ¬ @unpackExponent Format.binary64 b = -1#11 := fun h => h1 (e1.1 h)
    by_cases h2 : field = 0
    · by_cases h3 : fraction = 0
      · exact .inr (.inr (.inl ⟨h2, h3,
          (if_neg n1).trans ((if_pos (e0.2 h2)).trans (dif_pos (m0.2 h3)))⟩))
      · refine .inr (.inr (.inr (.inl ⟨h2, Nat.pos_of_ne_zero h3, ?_⟩)))
        refine (if_neg n1).trans ((if_pos (e0.2 h2)).trans
          ((dif_neg fun h => h3 (m0.1 h)).trans ?_))
        refine finite_congr hm ?_
        rw [he, bias]
        show ((b.toNat / 0x10000000000000 % 0x800 : Nat) : Int) - (1023 + 52) + 1 = -1074
        rw [show b.toNat / 0x10000000000000 % 0x800 = 0 from h2]
        rfl
    · refine .inr (.inr (.inr (.inr ⟨h1, h2, by omega, ?_⟩)))
      refine (if_neg n1).trans ((if_neg fun h => h2 (e0.1 h)).trans ?_)
      refine finite_congr ((toNat_one_append _).trans (by rw [hm])) ?_
      rw [he, bias]
      show ((b.toNat / 0x10000000000000 % 0x800 : Nat) : Int) - (1023 + 52) = field - 1075
      omega

theorem ofParts?_unpack (b : BitVec 64) :
    ofParts? (unpack Format.binary64 b) = ofBits? b.toNat := by
  have hs := isMinus_ofBitVec b
  have lt := b.isLt
  unfold ofBits?
  rcases unpack_cases b with ⟨f, r, u⟩ | ⟨f, r, u⟩ | ⟨f, r, u⟩ | ⟨f, p, u⟩ | ⟨f, g, p, u⟩ <;>
    rw [u]
  · rw [if_pos (by omega)]
    dsimp only [ofParts?]
    rw [hs]
    congr 2; omega
  · rw [if_neg (by omega)]; rfl
  · rw [if_pos (by omega)]
    have : b.toNat % 0x8000000000000000 = 0 := by omega
    rw [this]
    dsimp only [ofParts?, signed]
    split <;> simp
  · rw [if_pos (by omega)]
    dsimp only [ofParts?]
    rw [hs]
    congr 2; omega
  · rw [if_pos (by omega)]
    dsimp only [ofParts?]
    rw [hs]
    congr 2; omega

/-- What holds of the parts of a finite double. -/
def Canonical : UnpackedFloat → Prop
  | .finite _ m e _ =>
    m < 0x20000000000000 ∧ -1074 ≤ e ∧ e ≤ 971 ∧ (e = -1074 ∨ 0x10000000000000 ≤ m)
  | _ => True

theorem canonical_unpack (b : BitVec 64) : Canonical (unpack Format.binary64 b) := by
  have lt := b.isLt
  rcases unpack_cases b with ⟨f, r, u⟩ | ⟨f, r, u⟩ | ⟨f, r, u⟩ | ⟨f, p, u⟩ | ⟨f, g, p, u⟩ <;>
    rw [u]
  · trivial
  · trivial
  · trivial
  · exact ⟨by omega, by omega, by omega, .inl rfl⟩
  · exact ⟨by omega, by omega, by omega, .inr (by omega)⟩

theorem compare_parts {m n : Nat} {d e : Int} (hm : m < 0x20000000000000)
    (hn : n < 0x20000000000000) (hd : -1074 ≤ d) (he : -1074 ≤ e)
    (hm' : d = -1074 ∨ 0x10000000000000 ≤ m) (hn' : e = -1074 ∨ 0x10000000000000 ≤ n) :
    (compare d e).then (compare m n) =
      compare (((d + 1074).toNat * 0x10000000000000 + m : Nat) : Int)
        ((e + 1074).toNat * 0x10000000000000 + n : Nat) := by
  rcases Int.lt_trichotomy d e with h | h | h
  · rw [Int.compare_eq_lt.2 h, Int.compare_eq_lt.2 (by omega)]; rfl
  · subst h
    rw [Int.compare_eq_eq.2 rfl]
    rcases Nat.lt_trichotomy m n with h | h | h
    · rw [Nat.compare_eq_lt.2 h, Int.compare_eq_lt.2 (by omega)]; rfl
    · rw [Nat.compare_eq_eq.2 h, Int.compare_eq_eq.2 (by omega)]; rfl
    · rw [Nat.compare_eq_gt.2 h, Int.compare_eq_gt.2 (by omega)]; rfl
  · rw [Int.compare_eq_gt.2 h, Int.compare_eq_gt.2 (by omega)]; rfl

theorem compare_neg (a b : Int) : compare (-a) (-b) = (compare a b).swap := by
  rcases Int.lt_trichotomy a b with h | h | h
  · rw [Int.compare_eq_lt.2 h, Int.compare_eq_gt.2 (by omega)]; rfl
  · rw [Int.compare_eq_eq.2 h, Int.compare_eq_eq.2 (by omega)]; rfl
  · rw [Int.compare_eq_gt.2 h, Int.compare_eq_lt.2 (by omega)]; rfl

theorem compare_unpacked {u v : UnpackedFloat} (hu : Canonical u) (hv : Canonical v) :
    u.compare v = (ofParts? u).bind fun a => (ofParts? v).map (compare a) := by
  cases u with
  | notANumber => cases v <;> rfl
  | infinity s =>
    cases v with
    | notANumber => cases s <;> rfl
    | infinity t => cases s <;> cases t <;> rfl
    | zero t => cases s <;> rfl
    | finite t m e h =>
      dsimp only [Canonical] at hv
      cases s <;> cases t <;> dsimp only [ofParts?, isMinus, signed, UnpackedFloat.compare] <;>
        simp <;> symm <;> simp only [Int.compare_eq_lt, Int.compare_eq_gt] <;> omega
  | zero s =>
    cases v with
    | notANumber => rfl
    | infinity t => cases t <;> rfl
    | zero t => rfl
    | finite t m e h =>
      dsimp only [Canonical] at hv
      cases t <;> dsimp only [ofParts?, isMinus, signed, UnpackedFloat.compare] <;>
        simp <;> symm <;> simp only [Int.compare_eq_lt, Int.compare_eq_gt] <;> omega
  | finite s m e h =>
    cases v with
    | notANumber => cases s <;> rfl
    | infinity t =>
      dsimp only [Canonical] at hu
      cases s <;> cases t <;> dsimp only [ofParts?, isMinus, signed, UnpackedFloat.compare] <;>
        simp <;> symm <;> simp only [Int.compare_eq_lt, Int.compare_eq_gt] <;> omega
    | zero t =>
      dsimp only [Canonical] at hu
      cases s <;> dsimp only [ofParts?, isMinus, signed, UnpackedFloat.compare] <;>
        simp <;> symm <;> simp only [Int.compare_eq_lt, Int.compare_eq_gt] <;> omega
    | finite t n d k =>
      dsimp only [Canonical] at hu hv
      have c := compare_parts hu.1 hv.1 hu.2.1 hv.2.1 hu.2.2.2 hv.2.2.2
      cases s <;> cases t <;> dsimp only [ofParts?, isMinus, signed, UnpackedFloat.compare] <;>
        simp only [if_true, if_false, Option.bind_some, Option.map_some, Bool.false_eq_true, c,
          compare_neg]
      · congr 1; symm; rw [Int.compare_eq_lt]; omega
      · congr 1; symm; rw [Int.compare_eq_gt]; omega

theorem compare_unpack (x y : Float) :
    x.toModel.unpack.compare y.toModel.unpack =
      (ofFloat? x).bind fun a => (ofFloat? y).map (compare a) := by
  have h := compare_unpacked (canonical_unpack x.toBits.toBitVec)
    (canonical_unpack y.toBits.toBitVec)
  rw [ofParts?_unpack, ofParts?_unpack] at h
  exact h

theorem le_iff (x y : Float) :
    x ≤ y ↔ ∃ a b, ofFloat? x = some a ∧ ofFloat? y = some b ∧ a ≤ b := by
  have h : (x ≤ y) = ((x.toModel.unpack.compare y.toModel.unpack).any (·.isLE) = true) := by
    show (decide (_ = true) = true) = _
    simp only [Bool.decide_eq_true]
    rfl
  rw [h, compare_unpack]
  cases ofFloat? x <;> cases ofFloat? y <;> simp [Int.isLE_compare]

theorem lt_iff (x y : Float) :
    x < y ↔ ∃ a b, ofFloat? x = some a ∧ ofFloat? y = some b ∧ a < b := by
  have h : (x < y) = ((x.toModel.unpack.compare y.toModel.unpack == some .lt) = true) := by
    show (decide (_ = true) = true) = _
    simp only [Bool.decide_eq_true]
    rfl
  rw [h, compare_unpack]
  cases ofFloat? x <;> cases ofFloat? y <;> simp [Int.compare_eq_lt]

end TransitMatching.Amount
