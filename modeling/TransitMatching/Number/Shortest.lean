import TransitMatching.Number.Fixed

/-!
# The fewest digits that read back

A decimal reads back as a double exactly if it lies in the interval of numbers
that round to it. Grids of powers of ten are tried from coarse to fine; the first
that has a point in the interval gives the digits: the nearer point of two, and
the upper one if both are equally near.
-/

namespace TransitMatching

/-- The interval of numbers that round to a double, as numerators over one denominator. -/
structure RoundingInterval where
  low : Nat
  value : Nat
  high : Nat
  den : Nat
  /-- The ends belong to the interval. -/
  closed : Bool

namespace RoundingInterval

/-- The interval of `mantissa * 2 ^ exponent`. Below a power of two the neighbouring doubles are
half as far apart, except at the least exponent. -/
def ofParts (mantissa : Nat) (exponent : Int) : RoundingInterval :=
  let below := if mantissa = 0x10000000000000 ∧ -1074 < exponent then 1 else 2
  let (scale, den) := Binary.ratio 1 exponent
  { low := (4 * mantissa - below) * scale
    value := 4 * mantissa * scale
    high := (4 * mantissa + 2) * scale
    den := 4 * den
    closed := mantissa % 2 = 0 }

/-- Whether `num / den` lies in the interval stretched by `stretch`. -/
def holds (i : RoundingInterval) (stretch num : Nat) : Bool :=
  let low := i.low * stretch
  let high := i.high * stretch
  if i.closed then low ≤ num && num ≤ high else low < num && num < high

/-- The multiple of `10 ^ unit` in the interval that is nearest to the value, if there is one. A tie
goes up. -/
def onGrid? (i : RoundingInterval) (unit : Int) : Option Nat :=
  let (step, stretch) := match unit with
    | .ofNat u => (Nat.pow 10 u * i.den, 1)
    | .negSucc u => (i.den, Nat.pow 10 (u + 1))
  let value := i.value * stretch
  let low := value / step
  let lowHolds := i.holds stretch (low * step)
  let highHolds := i.holds stretch ((low + 1) * step)
  match lowHolds, highHolds with
  | true, true => some (if 2 * (value - low * step) < step then low else low + 1)
  | true, false => some low
  | false, true => some (low + 1)
  | false, false => none

/-- The first grid with a point in the interval, from `10 ^ (tries - 1 - shift)` downwards. -/
def firstGrid (i : RoundingInterval) (shift : Nat) : Nat → Nat × Int
  | 0 => (0, 0)
  | tries + 1 =>
    let unit := (tries : Int) - shift
    match i.onGrid? unit with
    | some digits => (digits, unit)
    | none => i.firstGrid shift tries

/-- The fewest digits that read back, and the power of ten they count. No double needs a finer grid
than `10 ^ (-1100)`. -/
def shortest (i : RoundingInterval) : Nat × Int :=
  let whole := (Nat.toDigits 10 (i.value / i.den)).length
  i.firstGrid 1100 (whole + 1101)

end RoundingInterval

/-- `digits * 10 ^ unit` written without an exponent. -/
def positionalText (digits : Nat) : Int → String
  | .ofNat u => paddedDigits 1 (digits * Nat.pow 10 u)
  | .negSucc u => placesText (u + 1) digits

namespace Binary

/-- The shortest decimal that reads back as the value. -/
def shortestText : Binary → String
  | notANumber => "NaN"
  | infinite negative => if negative then "-inf" else "inf"
  | finite negative mantissa exponent =>
    let text :=
      if mantissa = 0 then "0"
      else
        let (digits, unit) := (RoundingInterval.ofParts mantissa exponent).shortest
        positionalText digits unit
    (if negative then "-" else "") ++ text

end Binary

end TransitMatching
