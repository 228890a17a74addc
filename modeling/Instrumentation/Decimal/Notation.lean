import Instrumentation.Decimal.Shortest

/-!
# Written numbers

Two ways to write a finite double with its shortest digits. The *stored* form is
the one of module files: positional from 10^-5 up to 10^15, always with a point,
and scientific beyond, the exponent signed. The *listed* form is the one of
instruction listings: always positional, and no point in a whole number.
-/

namespace Instrumentation.Decimal

/-- The digits with the point at its place, padded by zeros on either side as
needed. A whole number ends in `tail`. -/
def positional (tail : String) (x : Decimal) : String :=
  let digits := Nat.toDigits 10 x.digits
  if 0 ≤ x.exponent then
    String.ofList (digits ++ List.replicate x.exponent.toNat '0') ++ tail
  else if 0 ≤ x.leading then
    let whole := x.leading.toNat + 1
    String.ofList (digits.take whole ++ '.' :: digits.drop whole)
  else
    String.ofList ('0' :: '.' :: List.replicate (-x.leading - 1).toNat '0' ++ digits)

/-- One digit, the point and the rest if there is a rest, and the exponent with
its sign. -/
def scientific (x : Decimal) : String :=
  let mantissa := match Nat.toDigits 10 x.digits with
    | [] => []
    | [d] => [d]
    | d :: rest => d :: '.' :: rest
  let sign := if x.leading < 0 then "e-" else "e+"
  String.ofList mantissa ++ sign ++ toString x.leading.natAbs

def signed (x : Binary64) (text : String) : String :=
  if x.isNegative then "-" ++ text else text

/-- The stored form: `1.0`, `0.00001`, `1e+16`, `1.25e-7`. Ties go to the even
digit. -/
def stored (x : Binary64) : String :=
  let d := shortest .toEven x
  signed x
    (if -5 ≤ d.leading ∧ d.leading ≤ 15 then positional ".0" d else scientific d)

/-- The listed form: `1`, `-0`, `0.0000001`. Ties go up. -/
def listed (x : Binary64) : String :=
  signed x (positional "" (shortest .up x))

end Instrumentation.Decimal
