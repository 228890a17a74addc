import Instrumentation.Json.Value
import Instrumentation.Text.Digit

/-!
# Numerals

The written form of a number and what it denotes. A whole number that fits a
signed or an unsigned sixty-four-bit word is that number, except minus zero,
which only a double can hold. Everything else is a double: the leading digits
that fit a word give its significand, and a power of ten scales it; both steps
round, and so does the power itself. A numeral beyond the doubles denotes
nothing.

Sections: §1 the written form · §2 the significand · §3 scaling · §4 the number.
-/

namespace Instrumentation.Json

/-! ## §1  The written form -/

/-- A numeral, as digits; `exponent?` is none without an exponent part. -/
structure Numeral where
  negative : Bool
  whole : List Nat
  fraction : List Nat
  exponent? : Option Int
deriving DecidableEq

namespace Numeral

def digits (cs : List Char) : List Nat × List Char :=
  ((cs.takeWhile Char.isDigit).map (fun c => c.toNat - '0'.toNat),
    cs.dropWhile Char.isDigit)

/-- The part after the point; none where a point has no digit after it. -/
def fractionPart? : List Char → Option (List Nat × List Char)
  | '.' :: cs =>
    match digits cs with
    | ([], _) => none
    | found => some found
  | cs => some ([], cs)

/-- The exponent part, which ends the numeral. -/
def exponentPart? : List Char → Option (Option Int)
  | [] => some none
  | mark :: cs =>
    let (negative, cs) := match cs with
      | '+' :: cs => (false, cs)
      | '-' :: cs => (true, cs)
      | cs => (false, cs)
    match digits cs with
    | (d :: ds, []) =>
      if mark = 'e' ∨ mark = 'E' then
        let n := Text.ofDigits 10 (d :: ds)
        some (some (if negative then -(n : Int) else n))
      else none
    | _ => none

/-- The numeral that some characters write, if they write one: no sign but a
minus, no leading zero, a digit on either side of a point. -/
def ofChars? (cs : List Char) : Option Numeral :=
  let (negative, cs) := match cs with
    | '-' :: cs => (true, cs)
    | cs => (false, cs)
  match digits cs with
  | ([], _) => none
  | (0 :: _ :: _, _) => none
  | (whole, cs) => do
    let (fraction, cs) ← fractionPart? cs
    let exponent? ← exponentPart? cs
    return { negative, whole, fraction, exponent? }

/-! ## §2  The significand -/

/-- Takes digits on to a significand while it fits a word; also how many digits
were taken. -/
def takeDigits : (significand taken : Nat) → List Nat → Nat × Nat
  | significand, taken, [] => (significand, taken)
  | significand, taken, d :: ds =>
    if 10 * significand + d < UInt64.size then
      takeDigits (10 * significand + d) (taken + 1) ds
    else (significand, taken)

/-- Significand and power of ten. Digits of the whole part that did not fit
scale it up, digits of the fraction that did fit scale it down. -/
def parts (n : Numeral) : Nat × Int :=
  let (s, taken) := takeDigits 0 0 n.whole
  let (s, places) := takeDigits s 0 n.fraction
  (s, ((n.whole.length - taken : Nat) : Int) - places + n.exponent?.getD 0)

/-! ## §3  Scaling -/

def maxPower : Nat := 308

def powerOfTen (k : Nat) : Binary64 :=
  (Binary64.ofQuotient? false (Nat.pow 10 k) 1).getD (Binary64.zero false)

/-- A double divided by `10^k`, by the greatest power over and over while more
is left. -/
def dividedBy (x : Binary64) (k : Nat) : Option Binary64 :=
  if k ≤ maxPower then x.div? (powerOfTen k)
  else if x.isZero then some x
  else (x.div? (powerOfTen maxPower)).bind (fun x => dividedBy x (k - maxPower))
termination_by k
decreasing_by simp [maxPower] at *; omega

/-- A double times `10^e`; none if that is beyond the doubles. -/
def scaledBy (x : Binary64) (e : Int) : Option Binary64 :=
  if e < 0 then dividedBy x e.natAbs
  else if x.isZero then some x
  else if e.natAbs ≤ maxPower then x.mul? (powerOfTen e.natAbs)
  else none

/-! ## §4  The number -/

def real? (n : Numeral) : Option Binary64 :=
  let (s, e) := n.parts
  ((Binary64.ofQuotient? false s 1).bind (scaledBy · e)).map
    (fun x => if n.negative then x.neg else x)

/-- The word that a numeral without point and exponent denotes. -/
def integer? (n : Numeral) : Option Int :=
  if n.fraction = [] ∧ n.exponent? = none then
    let m := Text.ofDigits 10 n.whole
    if n.negative then (if 0 < m ∧ m ≤ 1 <<< 63 then some (-(m : Int)) else none)
    else (if m < UInt64.size then some m else none)
  else none

def number? (n : Numeral) : Option Number :=
  match n.integer? with
  | some i => some (.integer i)
  | none => n.real?.map .real

end Numeral

end Instrumentation.Json
