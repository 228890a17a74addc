import Instrumentation.Decimal.Binary64

/-!
# Shortest decimals

The shortest decimal of a double is the one with the fewest digits among those
that round to it, and of these the nearest. The reals that round to m · 2^q form
an interval; on each grid of decimals, the coarsest first, only the two
neighbours of the value need a test. Where both lie equally near, the reader of
the text decides (`Tie`).

Sections: §1 decimals · §2 the interval · §3 the search.
-/

namespace Instrumentation

/-! ## §1  Decimals -/

/-- The number `digits · 10^exponent`. -/
structure Decimal where
  digits : Nat
  exponent : Int
deriving DecidableEq

namespace Decimal

def length (n : Nat) : Nat := (Nat.toDigits 10 n).length

def leading (x : Decimal) : Int := x.exponent + length x.digits - 1

/-- Without trailing zeros; `fuel` bounds how many are taken off. -/
def stripZeros : (fuel : Nat) → Decimal → Decimal
  | 0, x => x
  | fuel + 1, x =>
    if x.digits ≠ 0 ∧ x.digits % 10 = 0 then
      stripZeros fuel ⟨x.digits / 10, x.exponent + 1⟩
    else x

/-- Which of two equally near decimals is taken. -/
inductive Tie where
  | toEven
  | up
deriving DecidableEq

/-! ## §2  The interval -/

/-- The reals that round to one number, as numerators over a common denominator. -/
structure Interval where
  low : Nat
  value : Nat
  high : Nat
  den : Nat
  closed : Bool

/-- What rounds to a finite double other than zero: half a step either way, a
quarter of the upper step below a power of two, the ends included if the
significand is even. -/
def Interval.of (x : Binary64) : Interval :=
  let m := x.significand
  let narrow := x.fraction = 0 ∧ 1 < x.exponentBits
  let scale (k : Nat) : Nat := (Binary64.shifted k 1 (x.exponent - 2)).1
  { low := scale (4 * m - if narrow then 1 else 2)
    value := scale (4 * m)
    high := scale (4 * m + 2)
    den := (Binary64.shifted 1 1 (x.exponent - 2)).2
    closed := m % 2 = 0 }

def scaled (num den : Nat) (places : Int) : Nat × Nat :=
  match places with
  | .ofNat k => (num * Nat.pow 10 k, den)
  | .negSucc k => (num, den * Nat.pow 10 (k + 1))

def Interval.holds (i : Interval) (x : Decimal) : Bool :=
  let (n, d) := scaled x.digits 1 x.exponent
  let here := n * i.den
  if i.closed then i.low * d ≤ here && here ≤ i.high * d
  else i.low * d < here && here < i.high * d

def Interval.leading (i : Interval) : Int :=
  if i.den ≤ i.value then (length (i.value / i.den) : Int) - 1
  else -(length ((i.den - 1) / i.value) : Int)

/-! ## §3  The search -/

/-- The neighbour of the value on the grid of step `10^exponent` that lies in
the interval; of two such the nearer one. -/
def Interval.onGrid? (i : Interval) (tie : Tie) (exponent : Int) : Option Decimal :=
  let (n, d) := scaled i.value i.den (-exponent)
  let below : Decimal := ⟨n / d, exponent⟩
  let above : Decimal := ⟨n / d + 1, exponent⟩
  match below.digits ≠ 0 && i.holds below, i.holds above with
  | true, true =>
    match compare (2 * (n % d)) d, tie with
    | .lt, _ => some below
    | .gt, _ => some above
    | .eq, .up => some above
    | .eq, .toEven => some (if below.digits % 2 = 0 then below else above)
  | true, false => some below
  | false, true => some above
  | false, false => none

/-- The shortest decimal of a finite double's magnitude. Seventeen digits always
suffice; the exact value stands behind the search. -/
def shortest (tie : Tie) (x : Binary64) : Decimal :=
  if x.isZero then ⟨0, 0⟩
  else
    let i := Interval.of x
    let top := i.leading
    let found := (List.range 17).findSome? (fun (n : Nat) => i.onGrid? tie (top - n))
    let digits := (x.significand <<< x.exponent.toNat) * Nat.pow 5 (-x.exponent).toNat
    let exact : Decimal := ⟨digits, min x.exponent 0⟩
    let x := found.getD exact
    stripZeros (length x.digits) x

end Decimal

end Instrumentation
