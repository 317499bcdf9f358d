/-!
# Reading decimal numerals

A numeral is an optional sign, digits with an optional point among them, and an
optional exponent. Infinity and what is no number have names, in any case.

* `splitDigits_append`: reading digits loses nothing.
-/

namespace TransitMatching

/-- The longest run of ASCII digits at the front, and the rest. -/
def splitDigits (s : List Char) : List Char × List Char :=
  (s.takeWhile Char.isDigit, s.dropWhile Char.isDigit)

theorem splitDigits_append (s : List Char) : (splitDigits s).1 ++ (splitDigits s).2 = s :=
  List.takeWhile_append_dropWhile

/-- The number a list of digits stands for. -/
def digitsValue (s : List Char) : Nat :=
  s.foldl (fun n c => 10 * n + (c.toNat - '0'.toNat)) 0

/-- The sign at the front, `true` for a minus, and the rest. -/
def splitSign : List Char → Bool × List Char
  | '-' :: rest => (true, rest)
  | '+' :: rest => (false, rest)
  | s => (false, s)

/-- A decimal numeral. -/
inductive Numeral where
  | notANumber
  | infinite (negative : Bool)
  /-- The value is `digits * 10 ^ exponent`, with a minus sign if `negative`. -/
  | finite (negative : Bool) (digits : Nat) (exponent : Int)
  deriving DecidableEq, Repr

namespace Numeral

/-- The exponent of a numeral: nothing, or a mark with an optional sign and digits. -/
def exponent? : List Char → Option Int
  | [] => some 0
  | mark :: s =>
    if mark = 'e' ∨ mark = 'E' then
      let (negative, s) := splitSign s
      match splitDigits s with
      | ([], _) => none
      | (digits, []) =>
        let n : Int := digitsValue digits
        some (if negative then -n else n)
      | (_, _ :: _) => none
    else none

/-- Digits with an optional point among them, at least one of them, then the exponent. -/
def magnitude? (negative : Bool) (s : List Char) : Option Numeral :=
  let (whole, s) := splitDigits s
  let (fraction, s) := match s with
    | '.' :: s => splitDigits s
    | s => ([], s)
  if whole.isEmpty && fraction.isEmpty then none
  else
    (exponent? s).map fun e =>
      finite negative (digitsValue (whole ++ fraction)) (e - fraction.length)

/-- Reads a numeral that takes up the whole text. -/
def read? (text : String) : Option Numeral :=
  let (negative, s) := splitSign text.toList
  let word := String.ofList (s.map Char.toLower)
  if word = "nan" then some notANumber
  else if word = "inf" ∨ word = "infinity" then some (infinite negative)
  else magnitude? negative s

/-- The nearest double. A numeral of more than 310 digits before the point is infinite, one whose
first digit stands after the 400th place is zero. -/
def toFloat : Numeral → Float
  | notANumber => 0 / 0
  | infinite negative => if negative then -(1 / 0) else 1 / 0
  | finite negative digits exponent =>
    let size := exponent + (Nat.toDigits 10 digits).length
    let magnitude : Float :=
      if digits = 0 ∨ size < -400 then 0
      else if 310 < size then 1 / 0
      else match exponent with
        | .ofNat e => Float.ofScientific digits false e
        | .negSucc e => Float.ofScientific digits true (e + 1)
    if negative then -magnitude else magnitude

end Numeral

/-- Reads a natural number up to `limit`: ASCII digits after an optional plus sign. -/
def readNat? (limit : Nat) (text : String) : Option Nat :=
  let s := match text.toList with
    | '+' :: rest => rest
    | s => s
  if s.isEmpty || !s.all Char.isDigit then none
  else
    let n := digitsValue s
    if n ≤ limit then some n else none

end TransitMatching
