import Mathlib.Algebra.Order.Field.Power
import Mathlib.Algebra.Order.Field.Rat
import Mathlib.Data.Nat.Cast.Order.Field
import Mathlib.Tactic.FieldSimp
import Mathlib.Tactic.Linarith
import Mathlib.Tactic.NormNum
import Mathlib.Tactic.Positivity
import Mathlib.Tactic.Ring
import TransitMatching.Number.Shortest

/-!
# Numbers that round to a double

The interval of numbers that round to a double meets that of no other double: two
neighbours have at most an end in common, which belongs to the one with the even
mantissa. Every interval has a point on one of the grids on which the shortest
digits are looked for.

* `apart_ofParts`: **no number lies in the intervals of two doubles.**
* `contains_shortest`: **the shortest digits lie in the interval.**
-/

namespace TransitMatching

/-! ## Intervals of numbers that round to a double -/

namespace RoundingInterval

/-- A number lies in the interval. -/
def Contains (i : RoundingInterval) (q : ℚ) : Prop :=
  if i.closed then i.low ≤ q * i.den ∧ q * i.den ≤ i.high
  else i.low < q * i.den ∧ q * i.den < i.high

/-- What is in the interval is between its ends, and not at them unless they belong to it. -/
theorem Contains.between {i : RoundingInterval} {q : ℚ} (h : i.Contains q) :
    (i.low ≤ q * i.den ∧ q * i.den ≤ i.high) ∧
      (i.closed = false → i.low < q * i.den ∧ q * i.den < i.high) := by
  unfold Contains at h
  split at h
  · next hc => exact ⟨h, fun hf => absurd (hc.symm.trans hf) (by decide)⟩
  · exact ⟨⟨h.1.le, h.2.le⟩, fun _ => h⟩

/-- The part of a number's interval below it, in quarters of the last place. -/
def below (mantissa : Nat) (exponent : Int) : Nat :=
  if mantissa = 0x10000000000000 ∧ -1074 < exponent then 1 else 2

theorem below_le (m : Nat) (e : Int) : below m e ≤ 2 := by
  unfold below
  split <;> decide

/-- The exact power of two that `ratio` writes as a quotient. -/
theorem ratio_one (e : Int) :
    0 < (Binary.ratio 1 e).2 ∧ 0 < (Binary.ratio 1 e).1 ∧
      ((Binary.ratio 1 e).1 : ℚ) = 2 ^ e * (Binary.ratio 1 e).2 := by
  cases e with
  | ofNat e =>
    refine ⟨Nat.one_pos, ?_, ?_⟩
    · show 0 < 1 * 2 ^ e
      positivity
    · show ((1 * 2 ^ e : Nat) : ℚ) = 2 ^ (e : Int) * ((1 : Nat) : ℚ)
      push_cast
      rw [zpow_natCast]
      ring
  | negSucc e =>
    refine ⟨?_, Nat.one_pos, ?_⟩
    · show 0 < 2 ^ (e + 1)
      positivity
    · show ((1 : Nat) : ℚ) = 2 ^ (Int.negSucc e) * ((2 ^ (e + 1) : Nat) : ℚ)
      rw [zpow_negSucc]
      push_cast
      field_simp

theorem four_mul_ratio_one_lt {e : Int} {k : Nat} (h : -k ≤ e) :
    4 * (Binary.ratio 1 e).2 < 10 ^ (k + 1) := by
  have hle : (Binary.ratio 1 e).2 ≤ 2 ^ k := by
    cases e with
    | ofNat e => exact Nat.pow_pos two_pos
    | negSucc e =>
      have hle : e + 1 ≤ k := by omega
      exact Nat.pow_le_pow_right two_pos hle
  calc 4 * (Binary.ratio 1 e).2 ≤ 4 * 10 ^ k :=
        Nat.mul_le_mul_left _ (hle.trans (Nat.pow_le_pow_left (by decide) _))
    _ < 10 * 10 ^ k := Nat.mul_lt_mul_of_pos_right (by decide) (by positivity)
    _ = 10 ^ (k + 1) := (pow_succ' 10 k).symm

/-- The interval of a double, in quarters of its last place. -/
theorem Contains.quarters {m : Nat} {e : Int} {q : ℚ} (h : (ofParts m e).Contains q) :
    ((4 * m - below m e : Nat) : ℚ) * 2 ^ e ≤ 4 * q ∧ 4 * q ≤ (4 * m + 2) * 2 ^ e ∧
      (m % 2 = 1 → ((4 * m - below m e : Nat) : ℚ) * 2 ^ e < 4 * q ∧
        4 * q < (4 * m + 2) * 2 ^ e) := by
  obtain ⟨hden, -, hratio⟩ := ratio_one e
  obtain ⟨⟨hlow, hhigh⟩, hopen⟩ := h.between
  have hpos : (0 : ℚ) < (Binary.ratio 1 e).2 := by exact_mod_cast hden
  have elow : ((ofParts m e).low : ℚ) =
      ((4 * m - below m e : Nat) : ℚ) * 2 ^ e * (Binary.ratio 1 e).2 := by
    rw [mul_assoc, ← hratio, ← Nat.cast_mul]
    rfl
  have ehigh : ((ofParts m e).high : ℚ) = (4 * m + 2) * 2 ^ e * (Binary.ratio 1 e).2 := by
    rw [mul_assoc, ← hratio]
    show (((4 * m + 2) * (Binary.ratio 1 e).1 : Nat) : ℚ) = _
    push_cast
    ring
  have eq : q * ((ofParts m e).den : ℚ) = 4 * q * (Binary.ratio 1 e).2 := by
    show q * ((4 * (Binary.ratio 1 e).2 : Nat) : ℚ) = _
    push_cast
    ring
  rw [elow, eq] at hlow hopen
  rw [ehigh, eq] at hhigh
  rw [ehigh] at hopen
  refine ⟨le_of_mul_le_mul_right hlow hpos, le_of_mul_le_mul_right hhigh hpos, fun hodd => ?_⟩
  obtain ⟨hl, hh⟩ := hopen (show decide (m % 2 = 0) = false from by simp [hodd])
  exact ⟨lt_of_mul_lt_mul_right hl hpos.le, lt_of_mul_lt_mul_right hh hpos.le⟩

/-- What a number common to two intervals means for their ends, in quarters of the finer last
place. -/
theorem Contains.ends {m n : Nat} {e f : Int} {q : ℚ} (hm : (ofParts m e).Contains q)
    (hn : (ofParts n f).Contains q) (hle : e ≤ f) :
    (4 * n - below n f) * 2 ^ (f - e).toNat ≤ 4 * m + 2 ∧
      (m % 2 = 1 ∨ n % 2 = 1 → (4 * n - below n f) * 2 ^ (f - e).toNat < 4 * m + 2) := by
  obtain ⟨-, hhigh, hoddm⟩ := hm.quarters
  obtain ⟨hlow, -, hoddn⟩ := hn.quarters
  have hpos : (0 : ℚ) < 2 ^ e := by positivity
  have hscale : (2 : ℚ) ^ f = 2 ^ (f - e).toNat * 2 ^ e := by
    rw [← zpow_natCast, ← zpow_add₀ two_ne_zero]
    congr 1
    omega
  rw [hscale, ← mul_assoc] at hlow hoddn
  refine ⟨?_, fun hodd => ?_⟩
  · have h := le_of_mul_le_mul_right (hlow.trans hhigh) hpos
    exact_mod_cast h
  · have h : ((4 * n - below n f : Nat) : ℚ) * 2 ^ (f - e).toNat * 2 ^ e <
        (4 * m + 2) * 2 ^ e := by
      rcases hodd with hodd | hodd
      · exact hlow.trans_lt (hoddm hodd).2
      · exact (hoddn hodd).1.trans_le hhigh
    have h := lt_of_mul_lt_mul_right h hpos.le
    exact_mod_cast h

end RoundingInterval

namespace Binary

/-- The mantissa and exponent of a finite double: the mantissa has fifty-three bits, unless the
exponent is the least one. -/
structure Normal (mantissa : Nat) (exponent : Int) : Prop where
  lt : mantissa < 0x20000000000000
  least : -1074 ≤ exponent
  full : exponent = -1074 ∨ 0x10000000000000 ≤ mantissa

end Binary

namespace RoundingInterval

open Binary

/-- No number lies in the interval of a double and in that of a greater one. -/
theorem apart_of_lt {m n : Nat} {e f : Int} {q : ℚ} (hm : Normal m e) (hn : Normal n f)
    (hlt : e < f ∨ e = f ∧ m < n) (h : (ofParts m e).Contains q) :
    ¬ (ofParts n f).Contains q := by
  intro hq
  rcases hlt with hlt | ⟨rfl, hlt⟩
  · obtain ⟨hends, hodd⟩ := h.ends hq hlt.le
    obtain ⟨k, hk⟩ : ∃ k, (f - e).toNat = k + 1 := ⟨(f - e).toNat - 1, by omega⟩
    have hfull : 0x10000000000000 ≤ n := hn.full.resolve_left (by have := hm.least; omega)
    have hbound := hm.lt
    have htwice : 2 * (4 * n - below n f) ≤ (4 * n - below n f) * 2 ^ (f - e).toNat := by
      rw [hk, pow_succ, mul_comm 2, ← mul_assoc]
      exact Nat.mul_le_mul_right _ (Nat.le_mul_of_pos_right _ (by positivity))
    by_cases hpower : n = 0x10000000000000
    · -- The intervals touch below a power of two: the odd mantissa leaves the end out.
      have hbelow : below n f = 1 := if_pos ⟨hpower, by have := hm.least; omega⟩
      have := hodd (.inl (by omega))
      omega
    · have := below_le n f
      omega
  · obtain ⟨hends, hodd⟩ := h.ends hq le_rfl
    rw [Int.sub_self, Int.toNat_zero, pow_zero, mul_one] at hends hodd
    have := below_le n e
    -- Neighbours touch: one of their mantissas is odd.
    have := hodd (by omega)
    omega

/-- **The intervals of two doubles have no number in common.** -/
theorem apart_ofParts {m n : Nat} {e f : Int} {q : ℚ} (hm : Normal m e) (hn : Normal n f)
    (h : (ofParts m e).Contains q) (hq : (ofParts n f).Contains q) : m = n ∧ e = f := by
  by_contra hne
  by_cases hlt : e < f ∨ e = f ∧ m < n
  · exact apart_of_lt hm hn hlt h hq
  · exact apart_of_lt hn hm (by omega) hq h

/-! ## The digits lie in the interval -/

/-- A number that the test on numerators accepts is in the interval. -/
theorem contains_of_holds {i : RoundingInterval} {stretch num : Nat} {q : ℚ}
    (hpos : 0 < stretch) (hq : q * i.den * stretch = num) (h : i.holds stretch num = true) :
    i.Contains q := by
  have hpos : (0 : ℚ) < stretch := by exact_mod_cast hpos
  simp only [holds] at h
  unfold Contains
  split at h
  · rw [if_pos ‹_›]
    simp only [Bool.and_eq_true, decide_eq_true_eq] at h
    constructor
    · refine le_of_mul_le_mul_right ?_ hpos
      rw [hq]
      exact_mod_cast h.1
    · refine le_of_mul_le_mul_right ?_ hpos
      rw [hq]
      exact_mod_cast h.2
  · rw [if_neg ‹_›]
    simp only [Bool.and_eq_true, decide_eq_true_eq] at h
    constructor
    · refine lt_of_mul_lt_mul_right ?_ hpos.le
      rw [hq]
      exact_mod_cast h.1
    · refine lt_of_mul_lt_mul_right ?_ hpos.le
      rw [hq]
      exact_mod_cast h.2

/-- Zero rounds to zero. -/
theorem contains_zero (e : Int) :
    (ofParts 0 e).Contains (((0 : Nat) : ℚ) * 10 ^ (0 : Int)) := by
  have hzero : (ofParts 0 e).holds 1 0 = true := by simp [holds, ofParts]
  exact contains_of_holds Nat.one_pos (by simp) hzero

/-- The distance of two points of a grid, and by how much ends are stretched to be compared with
them. -/
def mesh (i : RoundingInterval) : Int → Nat × Nat
  | .ofNat u => (10 ^ u * i.den, 1)
  | .negSucc u => (i.den, 10 ^ (u + 1))

/-- The digits are one of the two points of the grid around the value, whichever is in the
interval. -/
theorem onGrid?_eq (i : RoundingInterval) (unit : Int) :
    i.onGrid? unit =
      (let low := i.value * (i.mesh unit).2 / (i.mesh unit).1
       match i.holds (i.mesh unit).2 (low * (i.mesh unit).1),
         i.holds (i.mesh unit).2 ((low + 1) * (i.mesh unit).1) with
       | true, true =>
         some (if 2 * (i.value * (i.mesh unit).2 - low * (i.mesh unit).1) < (i.mesh unit).1
           then low else low + 1)
       | true, false => some low
       | false, true => some (low + 1)
       | false, false => none) := by
  cases unit <;> rfl

theorem holds_of_onGrid? {i : RoundingInterval} {unit : Int} {digits : Nat}
    (h : i.onGrid? unit = some digits) :
    i.holds (i.mesh unit).2 (digits * (i.mesh unit).1) = true := by
  rw [onGrid?_eq] at h
  dsimp only at h
  split at h
  · next hlow hhigh =>
    cases h
    split
    · exact hlow
    · exact hhigh
  · next hlow _ => cases h; exact hlow
  · next _ hhigh => cases h; exact hhigh
  · cases h

theorem mesh_eq (i : RoundingInterval) (unit : Int) (digits : Nat) :
    (digits : ℚ) * 10 ^ unit * i.den * ((i.mesh unit).2 : ℚ) = (digits * (i.mesh unit).1 : Nat) := by
  cases unit with
  | ofNat u =>
    show (digits : ℚ) * 10 ^ (u : Int) * i.den * ((1 : Nat) : ℚ) = (digits * (10 ^ u * i.den) : Nat)
    push_cast
    rw [zpow_natCast]
    ring
  | negSucc u =>
    show (digits : ℚ) * 10 ^ Int.negSucc u * i.den * ((10 ^ (u + 1) : Nat) : ℚ) =
      (digits * i.den : Nat)
    rw [zpow_negSucc]
    push_cast
    field_simp

theorem mesh_pos (i : RoundingInterval) (unit : Int) : 0 < (i.mesh unit).2 := by
  cases unit with
  | ofNat u => exact Nat.one_pos
  | negSucc u =>
    show 0 < 10 ^ (u + 1)
    positivity

theorem contains_of_onGrid? {i : RoundingInterval} {unit : Int} {digits : Nat}
    (h : i.onGrid? unit = some digits) : i.Contains (digits * 10 ^ unit) :=
  contains_of_holds (i.mesh_pos unit) (i.mesh_eq unit digits) (holds_of_onGrid? h)

/-- A grid finer than the upper half of the interval has a point in it. -/
theorem isSome_onGrid? {i : RoundingInterval} {unit : Int} (hmesh : 0 < (i.mesh unit).1)
    (hlow : i.low ≤ i.value)
    (hfine : i.value * (i.mesh unit).2 + (i.mesh unit).1 < i.high * (i.mesh unit).2) :
    (i.onGrid? unit).isSome := by
  rw [onGrid?_eq]
  generalize i.mesh unit = mesh at hmesh hfine
  obtain ⟨step, stretch⟩ := mesh
  dsimp only at hmesh hfine ⊢
  have hover : i.value * stretch < (i.value * stretch / step + 1) * step :=
    (Nat.lt_mul_div_succ _ hmesh).trans_eq (Nat.mul_comm _ _)
  have hunder : (i.value * stretch / step + 1) * step ≤ i.value * stretch + step := by
    rw [Nat.add_mul, Nat.one_mul]
    exact Nat.add_le_add_right (Nat.div_mul_le_self _ _) _
  have hends : i.low * stretch ≤ i.value * stretch := Nat.mul_le_mul_right _ hlow
  have hhigh : i.holds stretch ((i.value * stretch / step + 1) * step) = true := by
    simp only [holds]
    split <;> simp only [Bool.and_eq_true, decide_eq_true_eq] <;> omega
  rw [hhigh]
  cases i.holds stretch (i.value * stretch / step * step) <;> rfl

/-- Where the last grid has a point in the interval, the first such grid is found. -/
theorem onGrid?_firstGrid {i : RoundingInterval} {shift : Nat}
    (hlast : (i.onGrid? ((0 : Nat) - shift)).isSome) (tries : Nat) :
    i.onGrid? (i.firstGrid shift (tries + 1)).2 = some (i.firstGrid shift (tries + 1)).1 := by
  induction tries with
  | zero =>
    obtain ⟨digits, h⟩ := Option.isSome_iff_exists.1 hlast
    rw [firstGrid, h]
    exact h
  | succ tries ih =>
    rw [firstGrid]
    cases h : i.onGrid? ((tries + 1 : Nat) - shift) with
    | some digits => exact h
    | none => exact ih

/-- A double with at most `k` binary places has a multiple of `10 ^ (-(k + 1))` in its interval. -/
theorem isSome_onGrid?_negSucc (m : Nat) {e : Int} {k : Nat} (he : -k ≤ e) :
    ((ofParts m e).onGrid? (Int.negSucc k)).isSome := by
  obtain ⟨hden, hscale, -⟩ := ratio_one e
  have hfine : 4 * (Binary.ratio 1 e).2 < 2 * (Binary.ratio 1 e).1 * 10 ^ (k + 1) :=
    (four_mul_ratio_one_lt he).trans_le (Nat.le_mul_of_pos_left _ (by omega))
  refine isSome_onGrid? (Nat.mul_pos (by decide) hden) ?_ ?_
  · exact Nat.mul_le_mul_right _ (Nat.sub_le _ _)
  · show 4 * m * (Binary.ratio 1 e).1 * 10 ^ (k + 1) + 4 * (Binary.ratio 1 e).2 <
      (4 * m + 2) * (Binary.ratio 1 e).1 * 10 ^ (k + 1)
    rw [Nat.add_mul, Nat.add_mul]
    exact Nat.add_lt_add_left hfine _

/-- **The shortest digits lie in the interval.** -/
theorem contains_shortest {m : Nat} {e : Int} (he : -1074 ≤ e) :
    (ofParts m e).Contains ((ofParts m e).shortest.1 * 10 ^ (ofParts m e).shortest.2) := by
  have htries : (ofParts m e).shortest = (ofParts m e).firstGrid 1100
      ((Nat.toDigits 10 ((ofParts m e).value / (ofParts m e).den)).length + 1100 + 1) := rfl
  have hunit : ((0 : Nat) : Int) - (1100 : Nat) = Int.negSucc 1099 := rfl
  have hlast := isSome_onGrid?_negSucc m (k := 1099) (by omega : -((1099 : Nat) : Int) ≤ e)
  rw [← hunit] at hlast
  rw [htries]
  exact contains_of_onGrid? (onGrid?_firstGrid hlast _)

end RoundingInterval

end TransitMatching
