import TransitMatching.Number.Binary

/-!
# A fixed number of decimal places

The exact value of a double is rounded to so many places after the point; a tie
goes to the even last digit.

* `roundHalfEven_le`, `le_roundHalfEven`: the rounded quotient is within half a
  unit of the exact one.
-/

namespace TransitMatching

/-- The quotient rounded to the nearest natural number, a half going to the even one. -/
def roundHalfEven (num den : Nat) : Nat :=
  let low := num / den
  let rest := num % den
  if 2 * rest < den then low
  else if den < 2 * rest then low + 1
  else low + low % 2

/-- Rounding goes down where the remainder is at most half a unit, and up where it is at least. -/
theorem roundHalfEven_cases (num den : Nat) :
    roundHalfEven num den = num / den ∧ 2 * (num % den) ≤ den ∨
      roundHalfEven num den = num / den + 1 ∧ den ≤ 2 * (num % den) := by
  simp only [roundHalfEven]
  split
  · exact .inl ⟨rfl, by omega⟩
  · split
    · exact .inr ⟨rfl, by omega⟩
    · rcases Nat.mod_two_eq_zero_or_one (num / den) with p | p <;> rw [p]
      · exact .inl ⟨rfl, by omega⟩
      · exact .inr ⟨rfl, by omega⟩

theorem roundHalfEven_le {num den : Nat} (h : 0 < den) :
    2 * (roundHalfEven num den * den) ≤ 2 * num + den := by
  have e := Nat.div_add_mod' num den
  have lt := Nat.mod_lt num h
  rcases roundHalfEven_cases num den with ⟨q, r⟩ | ⟨q, r⟩ <;> rw [q]
  · omega
  · rw [Nat.add_mul, Nat.one_mul]; omega

theorem le_roundHalfEven {num den : Nat} (h : 0 < den) :
    2 * num ≤ 2 * (roundHalfEven num den * den) + den := by
  have e := Nat.div_add_mod' num den
  have lt := Nat.mod_lt num h
  rcases roundHalfEven_cases num den with ⟨q, r⟩ | ⟨q, r⟩ <;> rw [q]
  · omega
  · rw [Nat.add_mul, Nat.one_mul]; omega

/-- The digits of `n`, with zeros in front up to a least count. -/
def paddedDigits (width n : Nat) : String :=
  let digits := Nat.toDigits 10 n
  String.ofList (List.replicate (width - digits.length) '0' ++ digits)

/-- `units / 10 ^ places` written with a point, if there is a place after it. -/
def placesText (places units : Nat) : String :=
  match places with
  | 0 => paddedDigits 1 units
  | p + 1 =>
    let unit := Nat.pow 10 (p + 1)
    paddedDigits 1 (units / unit) ++ "." ++ paddedDigits (p + 1) (units % unit)

namespace Binary

/-- The value with `places` digits after the point. A negative value keeps its sign, also when all
its digits are zero. -/
def fixedText (places : Nat) : Binary → String
  | notANumber => "NaN"
  | infinite negative => if negative then "-inf" else "inf"
  | finite negative mantissa exponent =>
    let (num, den) := ratio mantissa exponent
    (if negative then "-" else "") ++
      placesText places (roundHalfEven (num * Nat.pow 10 places) den)

end Binary

end TransitMatching
