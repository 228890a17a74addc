import Instrumentation.Text.Digit
import Instrumentation.Toml.Parser
import Instrumentation.Toml.Value

/-!
# TOML scalars

Strings in their four forms, numbers, and dates and times. A number must fit: a
whole number a signed sixty-four-bit word, a positive real one the doubles. A
date must be one of the calendar.

Sections: §1 blanks · §2 characters · §3 strings · §4 numbers · §5 dates · §6
scalars.
-/

namespace Instrumentation.Toml

open Instrumentation.Toml.Parser

/-! ## §1  Blanks -/

def isBlank (c : Char) : Bool := c = ' ' || c = '\t'

def blanks : Parser Unit := discard (many (satisfying isBlank))

def newline : Parser Unit := char '\n' <|> word "\r\n"

/-- Whether a character may stand in a comment, and in a string apart from what
ends or escapes there. -/
def isPrintable (c : Char) : Bool :=
  c = '\t' || (0x20 ≤ c.toNat && c.toNat ≠ 0x7F)

/-! ## §2  Characters -/

def scalarValue (digits : Nat) : Parser Char := do
  let ds ← exactly (satisfying fun c => (Text.digit? 16 c).isSome) digits
  let n := Text.ofDigits 16 (ds.filterMap (Text.digit? 16))
  if n.isValidChar then return Char.ofNat n else failure

def escape : Parser Char := do
  match ← satisfying fun _ => true with
  | 'b' => return '\x08'
  | 't' => return '\t'
  | 'n' => return '\n'
  | 'f' => return '\x0c'
  | 'r' => return '\r'
  | '"' => return '"'
  | '\\' => return '\\'
  | 'u' => scalarValue 4
  | 'U' => scalarValue 8
  | _ => failure

def basicChar : Parser Char :=
  satisfying (fun c => isPrintable c && c ≠ '"' && c ≠ '\\') <|>
    (do char '\\'; escape)

def literalChar : Parser Char := satisfying fun c => isPrintable c && c ≠ '\''

/-! ## §3  Strings -/

def basicString : Parser String := do
  char '"'
  let cs ← many basicChar
  char '"'
  return String.ofList cs

def literalString : Parser String := do
  char '\''
  let cs ← many literalChar
  char '\''
  return String.ofList cs

/-- One or two quotes inside a string that ends with three. -/
def innerQuotes (quote : Char) : Parser (List Char) :=
  (do char quote; char quote; before (· ≠ quote); return [quote, quote])
    <|> (do char quote; before (· ≠ quote); return [quote])

/-- The three quotes that end a string, and up to two before them that belong to
it. -/
def closingQuotes (quote : Char) : Parser (List Char) :=
  (do discard (exactly (char quote) 5); return [quote, quote])
    <|> (do discard (exactly (char quote) 4); return [quote])
    <|> (do discard (exactly (char quote) 3); return [])

/-- A backslash at the end of a line, which takes all blanks and line ends that
follow with it. -/
def joinedLine : Parser Unit := do
  char '\\'
  blanks
  newline
  discard (many (discard (satisfying isBlank) <|> newline))

/-- A string over several lines, between three quotes each; a line end right
after the first three does not count, and every other is the one character. -/
def linesString (quote : Char) (piece : Parser (List Char)) : Parser String := do
  discard (exactly (char quote) 3)
  discard (optional newline)
  let pieces ← many (piece <|> (do newline; return ['\n']) <|> innerQuotes quote)
  let extra ← closingQuotes quote
  return String.ofList (pieces.flatten ++ extra)

def string : Parser String :=
  linesString '"' ((do joinedLine; return []) <|> (do return [← basicChar]))
    <|> basicString
    <|> linesString '\'' (do return [← literalChar])
    <|> literalString

/-! ## §4  Numbers -/

/-- Digits of a base; single underscores may stand between them. -/
def digits (base : Nat) : Parser (List Nat) := do
  let digit : Parser Char := satisfying fun c => (Text.digit? base c).isSome
  let first ← digit
  let rest ← many (digit <|> (do char '_'; digit))
  return (first :: rest).filterMap (Text.digit? base)

/-- A sign, which may be missing; whether it is a minus. -/
def sign : Parser Bool :=
  (do char '-'; return true) <|> (do char '+'; return false) <|> pure false

/-- A decimal number without a leading zero: its sign and digits. -/
def signedDigits : Parser (Bool × List Nat) := do
  let negative ← sign
  let ds ← (do before (· ≠ '0'); digits 10) <|> (do char '0'; return [0])
  return (negative, ds)

/-- Whether `n · 10^e` is beyond the doubles, also after rounding. -/
def overflows (n : Nat) (e : Int) : Bool :=
  let size := (Nat.toDigits 10 n).length + e
  if n = 0 ∨ size < 300 then false
  else if 320 < size then true
  else
    let limit := ((1 <<< 54) - 1) <<< 970
    if 0 ≤ e then limit ≤ n * Nat.pow 10 e.toNat
    else limit * Nat.pow 10 (-e).toNat ≤ n

def exponent : Parser Int := do
  char 'e' <|> char 'E'
  let negative ← sign
  let n := Text.ofDigits 10 (← digits 10)
  return if negative then -(n : Int) else n

def real : Parser Unit := do
  let (negative, whole) ← signedDigits
  let (fraction, e) ← (do return ([], ← exponent))
    <|> (do
      char '.'
      let fraction ← digits 10
      let e? ← optional exponent
      return (fraction, e?.getD 0))
  if !negative &&
      overflows (Text.ofDigits 10 (whole ++ fraction)) (e - fraction.length) then
    failure

def special : Parser Unit := do
  discard sign
  word "inf" <|> word "nan"

def radixInteger : Parser Unit := do
  let n ← (do word "0x"; return Text.ofDigits 16 (← digits 16))
    <|> (do word "0o"; return Text.ofDigits 8 (← digits 8))
    <|> (do word "0b"; return Text.ofDigits 2 (← digits 2))
  if n < 1 <<< 63 then return else failure

def integer : Parser Unit := do
  let (negative, ds) ← signedDigits
  if Text.ofDigits 10 ds < (1 <<< 63) + (if negative then 1 else 0) then return
  else failure

/-! ## §5  Dates -/

/-- A number of exactly this many digits, between two bounds. -/
def field (size low high : Nat) : Parser Nat := do
  let cs ← exactly (satisfying Char.isDigit) size
  let n := Text.ofDigits 10 (cs.filterMap (Text.digit? 10))
  if low ≤ n ∧ n ≤ high then return n else failure

def daysIn (year month : Nat) : Nat :=
  if month = 2 then
    if year % 4 = 0 ∧ (year % 100 ≠ 0 ∨ year % 400 = 0) then 29 else 28
  else if month = 4 ∨ month = 6 ∨ month = 9 ∨ month = 11 then 30
  else 31

def day : Parser Unit := do
  let year ← field 4 0 9999
  char '-'
  let month ← field 2 1 12
  char '-'
  discard (field 2 1 (daysIn year month))

/-- A time of day; the second may be a leap second. -/
def time : Parser Unit := do
  discard (field 2 0 23)
  char ':'
  discard (field 2 0 59)
  char ':'
  discard (field 2 0 60)
  discard (optional (do char '.'; many1 (satisfying Char.isDigit)))

def offset : Parser Unit :=
  char 'Z' <|> char 'z' <|> (do
    char '+' <|> char '-'
    discard (field 2 0 23)
    char ':'
    discard (field 2 0 59))

/-- A date, a time, or both, then also with an offset. -/
def date : Parser Unit :=
  (do
    day
    discard (optional (do
      char 'T' <|> char 't' <|> char ' '
      time
      optional offset)))
  <|> time

/-! ## §6  Scalars -/

def scalar : Parser Value :=
  (do return .text (← string))
    <|> (do word "true"; return .bool true)
    <|> (do word "false"; return .bool false)
    <|> (do date; return .date)
    <|> (do real <|> special <|> radixInteger <|> integer; return .number)

end Instrumentation.Toml
