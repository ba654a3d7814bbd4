/-
  Double precision numbers, kept exactly.

  A finite double is `significand * 2 ^ exponent` with a sign of its own, so that `0` and `-0` are
  two values.  Reading a decimal rounds an exact quotient of naturals once, to the nearest double,
  a half going to the even significand; nothing is computed in floating point.
-/

namespace FrameScript

/-- A double: a signed `significand * 2 ^ exponent`, an infinity, or no number at all.  A finite
value is held in lowest place: either `2 ^ 52 ≤ significand < 2 ^ 53`, or the exponent is `-1074`
and the significand is smaller. -/
inductive Binary64 where
  | nan
  | infinite (negative : Bool)
  | finite (negative : Bool) (significand : Nat) (exponent : Int)
deriving Repr, DecidableEq, Inhabited

namespace Binary64

/-- The exponent of the smallest doubles. -/
def leastExponent : Int := -1074

/-- The exponent of the largest doubles. -/
def greatestExponent : Int := 971

/-- `2 ^ 52`, the least significand of a double that is not among the smallest. -/
def hiddenBit : Nat := 0x10000000000000

/-- `base ^ e`, and `1` for a negative exponent.  A quotient is scaled by `base ^ e` with
`power base e` above and `power base (-e)` below the line. -/
def power (base : Nat) (e : Int) : Nat := Nat.pow base e.toNat

/-- Zero with a sign. -/
def zero (negative : Bool) : Binary64 := .finite negative 0 leastExponent

/-- The value of a 64-bit pattern: a sign bit, eleven exponent bits, fifty-two fraction bits. -/
def ofBits (bits : UInt64) : Binary64 :=
  let negative := bits >>> 63 == 1
  let biased := ((bits >>> 52) &&& 0x7ff).toNat
  let fraction := (bits &&& 0xfffffffffffff).toNat
  if biased = 0x7ff then
    if fraction = 0 then .infinite negative else .nan
  else if biased = 0 then .finite negative fraction leastExponent
  else .finite negative (hiddenBit + fraction) ((biased : Int) - 1075)

/-- `num / den` to the nearest natural number; a half goes to the even neighbour. -/
def roundHalfEven (num den : Nat) : Nat :=
  let q := num / den
  let twice := 2 * (num % den)
  if twice < den ∨ (twice = den ∧ q % 2 = 0) then q else q + 1

/-- The exponent of the leading binary digit of `num / den`, both positive: the `k` with
`2 ^ k ≤ num / den < 2 ^ (k + 1)`. -/
def leadingBit (num den : Nat) : Int :=
  let k : Int := (num.log2 : Int) - (den.log2 : Int)
  if den * power 2 k ≤ num * power 2 (-k) then k else k - 1

/-- The double nearest to `num / den`, with the given sign.  Values beyond the largest double are
infinite, values under half of the smallest are zero, and the sign survives both. -/
def ofRatio (negative : Bool) (num den : Nat) : Binary64 :=
  if num = 0 then zero negative
  else
    let place := max (leadingBit num den - 52) leastExponent
    let rounded := roundHalfEven (num * power 2 (-place)) (den * power 2 place)
    -- rounding up may carry into the next binade
    let significand := if rounded = 2 * hiddenBit then hiddenBit else rounded
    let exponent := if rounded = 2 * hiddenBit then place + 1 else place
    if exponent > greatestExponent then .infinite negative
    else .finite negative significand exponent

/-- The double nearest to an integer. -/
def ofInt (n : Int) : Binary64 := ofRatio (n < 0) n.natAbs 1

/-- The double nearest to `digits * 10 ^ exponent`, with the given sign.  The two early answers
keep the powers of ten small: no double reaches `10 ^ 310`, and all below `10 ^ -330` round to
zero. -/
def ofDecimal (negative : Bool) (digits : Nat) (exponent : Int) : Binary64 :=
  let leading : Int := ((Nat.toDigits 10 digits).length : Int) + exponent
  if digits = 0 ∨ leading < -330 then zero negative
  else if 310 < leading then .infinite negative
  else ofRatio negative (digits * power 10 exponent) (power 10 (-exponent))

/-- Neither infinite nor `nan`. -/
def isFinite : Binary64 → Bool
  | .finite .. => true
  | _ => false

end Binary64

end FrameScript
