/-!
# Double-precision numbers

A double is its sixty-four bits. Its value is read off as significand ·
2^exponent, and arithmetic is done on exact quotients of natural numbers that
are rounded once, to the nearest double, a tie going to the even significand. So
every operation here is plain integer arithmetic.

Sections: §1 parts · §2 rounding · §3 products and quotients.
-/

namespace Instrumentation

/-- A double-precision number, as its bits: sign, eleven bits of exponent,
fifty-two of fraction. -/
structure Binary64 where
  bits : UInt64
deriving DecidableEq, Inhabited

namespace Binary64

/-! ## §1  Parts -/

def isNegative (x : Binary64) : Bool := 1 <<< 63 ≤ x.bits.toNat

/-- The eleven exponent bits; all of them set mark infinities and NaNs. -/
def exponentBits (x : Binary64) : Nat := (x.bits.toNat >>> 52) % (1 <<< 11)

def fraction (x : Binary64) : Nat := x.bits.toNat % (1 <<< 52)

/-- The whole number that is scaled: the fraction, with its leading one if the
number is normal. -/
def significand (x : Binary64) : Nat :=
  if x.exponentBits = 0 then x.fraction else (1 <<< 52) + x.fraction

/-- The power of two that scales the significand. -/
def exponent (x : Binary64) : Int := (max x.exponentBits 1 : Nat) - 1075

def isFinite (x : Binary64) : Bool := x.exponentBits ≠ 2047

def isZero (x : Binary64) : Bool := x.significand = 0

def withSign (negative : Bool) (magnitude : Nat) : Binary64 :=
  ⟨UInt64.ofNat (magnitude + if negative then 1 <<< 63 else 0)⟩

def zero (negative : Bool) : Binary64 := withSign negative 0

def neg (x : Binary64) : Binary64 :=
  withSign (!x.isNegative) (x.bits.toNat % (1 <<< 63))

/-! ## §2  Rounding -/

/-- The whole number nearest to a quotient; a tie goes to the even one. -/
def divToEven (num den : Nat) : Nat :=
  let q := num / den
  let r := num % den
  if den < 2 * r || (2 * r = den && q % 2 = 1) then q + 1 else q

/-- `num / den` scaled by a power of two, again as numerator and denominator. -/
def shifted (num den : Nat) (places : Int) : Nat × Nat :=
  match places with
  | .ofNat k => (num <<< k, den)
  | .negSucc k => (num, den <<< (k + 1))

/-- The least power of two that may scale a significand. -/
def minExponent : Int := -1074

/-- The exponent at which `num / den` has a significand of fifty-three bits, or
the least one. -/
def exponentFor (num den : Nat) : Int :=
  let low := max ((num.log2 : Int) - den.log2 - 53) minExponent
  let (n, d) := shifted num den (-low)
  if 1 <<< 53 ≤ n / d then low + 1 else low

/-- The double nearest to `num / den`; none if that lies beyond the finite
doubles. With the significand laid over the exponent field, a carry out of the
significand moves on to the next exponent by itself. -/
def ofQuotient? (negative : Bool) (num den : Nat) : Option Binary64 :=
  if num = 0 then some (zero negative)
  else
    let e := exponentFor num den
    let (n, d) := shifted num den (-e)
    let magnitude := ((e - minExponent).toNat <<< 52) + divToEven n d
    if magnitude < 2047 <<< 52 then some (withSign negative magnitude) else none

def ofInt? (i : Int) : Option Binary64 :=
  ofQuotient? (i < 0) i.natAbs 1

/-! ## §3  Products and quotients -/

def magnitude (x : Binary64) : Nat × Nat :=
  shifted x.significand 1 x.exponent

/-- The rounded product of two finite doubles; none if it overflows. -/
def mul? (x y : Binary64) : Option Binary64 :=
  let (n, d) := x.magnitude
  let (n', d') := y.magnitude
  ofQuotient? (x.isNegative != y.isNegative) (n * n') (d * d')

/-- The rounded quotient of a finite double and a finite double other than zero;
none if it overflows. -/
def div? (x y : Binary64) : Option Binary64 :=
  let (n, d) := x.magnitude
  let (n', d') := y.magnitude
  ofQuotient? (x.isNegative != y.isNegative) (n * d') (d * n')

end Binary64

end Instrumentation
