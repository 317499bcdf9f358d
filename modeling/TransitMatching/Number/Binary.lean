/-!
# Doubles taken apart

A finite double is a sign and an integer times a power of two. What is printed
or rounded is computed from these parts in integer arithmetic.
-/

namespace TransitMatching

/-- The parts of a double. -/
inductive Binary where
  | notANumber
  | infinite (negative : Bool)
  /-- The value is `mantissa * 2 ^ exponent`, with a minus sign if `negative`. -/
  | finite (negative : Bool) (mantissa : Nat) (exponent : Int)
  deriving DecidableEq, Repr

namespace Binary

/-- The parts of `x`: one bit of sign, eleven of exponent and fifty-two of fraction. -/
def ofFloat (x : Float) : Binary :=
  let bits := x.toBits.toNat
  let negative := decide (0x8000000000000000 ≤ bits)
  let exponent : Nat := bits / 0x10000000000000 % 0x800
  let fraction : Nat := bits % 0x10000000000000
  if exponent = 2047 then
    if fraction = 0 then infinite negative else notANumber
  else if exponent = 0 then finite negative fraction (-1074)
  else finite negative (0x10000000000000 + fraction) ((exponent : Int) - 1075)

/-- The least natural number that is not below the value; `0` for what is not finite. -/
def ceilNat : Binary → Nat
  | finite false mantissa (.ofNat e) => mantissa * Nat.pow 2 e
  | finite false mantissa (.negSucc e) => (mantissa + (Nat.pow 2 (e + 1) - 1)) / Nat.pow 2 (e + 1)
  | _ => 0

/-- The magnitude `mantissa * 2 ^ exponent` as a quotient of natural numbers. -/
def ratio (mantissa : Nat) : Int → Nat × Nat
  | .ofNat e => (mantissa * Nat.pow 2 e, 1)
  | .negSucc e => (mantissa, Nat.pow 2 (e + 1))

end Binary

end TransitMatching
