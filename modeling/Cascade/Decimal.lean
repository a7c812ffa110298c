/-! # Decimals

A decimal is a number `± digits · 10 ^ exponent`. Its text is positional: all zeros are written
out and there is never an exponent. -/

namespace Cascade

/-- The number `± digits · 10 ^ exponent`. -/
structure Decimal where
  negative : Bool
  digits : Nat
  exponent : Int
  deriving DecidableEq, Repr

namespace Decimal

/-- The numeral of a natural number in base ten, without leading zeros. -/
def numeral (n : Nat) : List Char :=
  Nat.toDigits 10 n

/-- The list with zeros in front of it up to the given length. -/
def padLeft (length : Nat) (ds : List Char) : List Char :=
  List.replicate (length - ds.length) '0' ++ ds

/-- The digits with a point before the last `places` of them, and at least one digit before it. -/
def withPoint (places : Nat) (ds : List Char) : List Char :=
  let padded := padLeft (places + 1) ds
  padded.take (padded.length - places) ++ '.' :: padded.drop (padded.length - places)

/-- The text of a decimal without its sign. -/
def magnitudeText (d : Decimal) : List Char :=
  match d.exponent with
  | .ofNat zeros => numeral d.digits ++ List.replicate zeros '0'
  | .negSucc n => withPoint (n + 1) (numeral d.digits)

/-- The text of a decimal, with a minus sign if it is negative. -/
def text (d : Decimal) : List Char :=
  if d.negative then '-' :: d.magnitudeText else d.magnitudeText

end Decimal

end Cascade
