/-
  The fewest decimal digits that identify a double.

  The reals that round to one double form an interval: from half way to the neighbour below to half
  way to the neighbour above, ends included exactly when the significand is even.  For one digit,
  two digits, ... the two decimals next to the value are tried; the first length with a decimal in
  the interval wins, of two the nearer one, and a tie is settled by the caller's rule.  Seventeen
  digits are always enough.
-/
import FrameScript.Binary64

namespace FrameScript.Decimal

/-- How a value half way between two candidates is settled. -/
inductive Tie where
  | toEven
  | awayFromZero
deriving Repr, DecidableEq

/-- The digits of a positive number and the place of its decimal point: the value is
`0.d₁d₂d₃… * 10 ^ point`.  The last digit is not zero. -/
structure Digits where
  digits : List Char
  point : Int
deriving Repr, DecidableEq

/-- The positive quotient `num / den` between the two ends of its interval, which are given over
the same denominator. -/
structure Interval where
  low : Nat
  num : Nat
  high : Nat
  den : Nat
  /-- The ends belong to the interval. -/
  closed : Bool
deriving Repr

/-- The reals that round to `significand * 2 ^ exponent`, over a denominator of quarters.  The gap
below a power of two is half as wide as the gap above it. -/
def Interval.ofFinite (significand : Nat) (exponent : Int) : Interval :=
  let narrow := significand = Binary64.hiddenBit ∧ exponent ≠ Binary64.leastExponent
  let scale := Binary64.power 2 exponent
  { low := (if narrow then 4 * significand - 1 else 4 * significand - 2) * scale
    num := 4 * significand * scale
    high := (4 * significand + 2) * scale
    den := 4 * Binary64.power 2 (-exponent)
    closed := significand % 2 = 0 }

namespace Interval

/-- All numerators over the grid `10 ^ k`: the quotient then counts grid steps. -/
def onGrid (i : Interval) (k : Int) : Interval :=
  let up := Binary64.power 10 (-k)
  { i with
    low := i.low * up
    num := i.num * up
    high := i.high * up
    den := i.den * Binary64.power 10 k }

/-- The natural number `c` lies in the interval. -/
def contains (i : Interval) (c : Nat) : Bool :=
  if i.closed then i.low ≤ c * i.den && c * i.den ≤ i.high
  else i.low < c * i.den && c * i.den < i.high

/-- The natural number of the interval next to its value, if there is one: only the two
neighbours of the value need a look. -/
def nearest? (i : Interval) (tie : Tie) : Option Nat :=
  let below := i.num / i.den
  let above := below + 1
  match i.contains below, i.contains above with
  | false, false => none
  | true, false => some below
  | false, true => some above
  | true, true =>
    let twice := 2 * (i.num % i.den)
    if twice < i.den then some below
    else if i.den < twice then some above
    else match tie with
      | .toEven => some (if below % 2 = 0 then below else above)
      | .awayFromZero => some above

/-- The number of decimal digits before the point of `num / den`; for a value under `1`, zero less
the zeros that follow the point. -/
def pointOf (i : Interval) : Int :=
  if i.den ≤ i.num then (Nat.toDigits 10 (i.num / i.den)).length
  else
    let inverse := (i.den + i.num - 1) / i.num
    1 - ((Nat.toDigits 10 (inverse - 1)).length : Int)

end Interval

/-- The digits of `c * 10 ^ k`, without the zeros at the end. -/
def Digits.ofScaled (c : Nat) (k : Int) : Digits :=
  let cs := Nat.toDigits 10 c
  { digits := (cs.reverse.dropWhile (· == '0')).reverse, point := cs.length + k }

/-- The fewest digits that read back as the positive double `significand * 2 ^ exponent`.  Of
lengths one to seventeen the first that fits is taken. -/
def shortest (tie : Tie) (significand : Nat) (exponent : Int) : Digits :=
  let i := Interval.ofFinite significand exponent
  let point := i.pointOf
  let attempt (length : Nat) : Option Digits :=
    let k := point - length
    ((i.onGrid k).nearest? tie).map (Digits.ofScaled · k)
  ((List.range' 1 17).findSome? attempt).getD
    -- not reached: seventeen digits tell any two doubles apart
    (Digits.ofScaled ((i.onGrid (point - 17)).num / (i.onGrid (point - 17)).den) (point - 17))

end FrameScript.Decimal
