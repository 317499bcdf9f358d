/-!
# Hypotenuses

The hypotenuse over two legs is computed without early overflow, and its rounding
error is corrected once.
-/

namespace TransitMatching.Hypotenuse

/-- The hypotenuse over legs `a ≥ b` that are neither too large nor too small to be squared. The
error of the square root is estimated from the nearer of two exact differences. -/
def kernel (a b : Float) : Float :=
  let h := (a * a + b * b).sqrt
  if h ≤ 2 * b then
    -- The legs are of similar size.
    let d := h - b
    let t1 := a * (2 * d - a)
    let t2 := (d - 2 * (a - b)) * d
    h - (t1 + t2) / (2 * h)
  else
    -- The first leg is much longer.
    let d := h - a
    let t1 := 2 * d * (a - 2 * b)
    let t2 := (4 * d - b) * b + d * d
    h - (t1 + t2) / (2 * h)

/-- `2 ^ 511`: larger legs are scaled down before they are squared. -/
def largeLeg : Float := Float.ofBits 0x5FE0000000000000

/-- `2 ^ -459`: smaller legs are scaled up before they are squared. -/
def smallLeg : Float := Float.ofBits 0x2340000000000000

/-- `2 ^ -600`, the factor of scaling. -/
def legScale : Float := Float.ofBits 0x1A70000000000000

/-- `2 ^ -54`: a leg smaller than this part of the other does not show in the hypotenuse. -/
def legEpsilon : Float := Float.ofBits 0x3C90000000000000

/-- The length of the hypotenuse over finite legs of any sign. -/
def length (x y : Float) : Float :=
  let x := x.abs
  let y := y.abs
  let a := if x < y then y else x
  let b := if x < y then x else y
  if largeLeg < a then
    if b ≤ a * legEpsilon then a + b
    else kernel (a * legScale) (b * legScale) / legScale
  else if b < smallLeg then
    if b / legEpsilon ≤ a then a + b
    else kernel (a / legScale) (b / legScale) * legScale
  else if b ≤ a * legEpsilon then a + b
  else kernel a b

end TransitMatching.Hypotenuse
