/-
  Number text: how selected digits are written.

  Which digits stand for a double is decided once, in `Decimal.Shortest`.  A `Layout` holds the
  remaining decisions of an output format: where positional notation ends, whether a whole number
  keeps a point, and the words for values that are not numbers.
-/
import FrameScript.Decimal.Shortest

namespace FrameScript.Decimal

/-- The decisions of a number format. -/
structure Layout where
  /-- The powers of ten of the leading digit that are written without an exponent. -/
  positional : Int → Bool
  /-- A whole number written without an exponent ends in `.0`. -/
  pointOnWhole : Bool
  /-- Which of two equally near candidates is written. -/
  tie : Tie
  nan : String
  /-- The text of an infinity with the given sign. -/
  infinite : Bool → String

namespace Layout

/-- Digits with the point in its place and zeros where the digits do not reach it. -/
def positionally (l : Layout) (d : Digits) : String :=
  let length := d.digits.length
  if d.point ≤ 0 then
    "0." ++ String.ofList (List.replicate (-d.point).toNat '0' ++ d.digits)
  else if length ≤ d.point.toNat then
    String.ofList (d.digits ++ List.replicate (d.point.toNat - length) '0')
      ++ (if l.pointOnWhole then ".0" else "")
  else
    String.ofList (d.digits.take d.point.toNat) ++ "."
      ++ String.ofList (d.digits.drop d.point.toNat)

/-- One digit before the point and a signed exponent behind. -/
def scientifically (d : Digits) : String :=
  let e := d.point - 1
  let mark := (if e < 0 then "e-" else "e+") ++ toString e.natAbs
  String.ofList (d.digits.take 1)
    ++ (if d.digits.length ≤ 1 then "" else "." ++ String.ofList (d.digits.drop 1)) ++ mark

/-- The text of a double. -/
def write (l : Layout) : Binary64 → String
  | .nan => l.nan
  | .infinite negative => l.infinite negative
  | .finite negative significand exponent =>
    let d := if significand = 0 then ⟨['0'], 1⟩ else shortest l.tie significand exponent
    (if negative then "-" else "")
      ++ (if l.positional (d.point - 1) then l.positionally d else scientifically d)

end Layout

end FrameScript.Decimal
