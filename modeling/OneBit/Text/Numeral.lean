import OneBit.Text.Blank

namespace OneBit

/-- The decimal digits of a number, without leading zeros. -/
def decimal (n : Nat) : Text := Nat.toDigits 10 n

/-- The hexadecimal digits of a number in lower case, filled with zeros up to `width`. -/
def hexadecimal (width n : Nat) : Text := (Nat.toDigits 16 n).leftpad width '0'

/-- The hexadecimal digits of a number in capitals, filled with zeros up to `width`. -/
def capitalHexadecimal (width n : Nat) : Text := (hexadecimal width n).map Char.toUpper

/-- The integer nearest to `n / d`; a half goes to the even neighbour. -/
def nearestQuotient (n d : Nat) : Nat :=
  if 2 * (n % d) < d then n / d
  else if d < 2 * (n % d) then n / d + 1
  else n / d + n / d % 2

/-- A quotient of naturals with `places` digits after the point, rounded to the nearest such number. -/
def decimalFraction (places n d : Nat) : Text :=
  let digits := (decimal (nearestQuotient (n * Nat.pow 10 places) d)).leftpad (places + 1) '0'
  let whole := digits.length - places
  if places = 0 then digits else digits.take whole ++ '.' :: digits.drop whole

/-- A double with `places` digits after the point. Its exact binary value is rounded, so no digit
depends on a shorter decimal form. -/
def fixedPlaces (places : Nat) (x : Float) : Text :=
  let bits := x.toBits.toNat
  let exponent := bits / Nat.pow 2 52 % Nat.pow 2 11
  let fraction := bits % Nat.pow 2 52
  let sign : Text := if bits / Nat.pow 2 63 = 0 then [] else ['-']
  if exponent = 2047 then
    if fraction = 0 then sign ++ "inf".toList else "NaN".toList
  else
    let significand := if exponent = 0 then fraction else Nat.pow 2 52 + fraction
    let scale := max exponent 1
    sign ++ decimalFraction places (significand * Nat.pow 2 (scale - 1075)) (Nat.pow 2 (1075 - scale))

/-- One eighth is halfway between two fractions of two places, and so is three eighths. -/
example : decimalFraction 2 1 8 = "0.12".toList ∧ decimalFraction 2 3 8 = "0.38".toList ∧
    decimalFraction 2 200 3 = "66.67".toList ∧ decimalFraction 0 5 2 = "2".toList := by decide

end OneBit
