import Instrumentation.Json.Value
import Instrumentation.Decimal.Notation

/-!
# Writing JSON

Module files are written over several lines, two spaces a level, each member on
a line of its own, a colon and a space after its key; an empty array or object
is its two brackets. Strings escape what they must: the quote, the backslash and
the characters below the space.
-/

namespace Instrumentation.Json

def hexUnit (u : Nat) : List Char :=
  [12, 8, 4, 0].map fun k => Nat.digitChar ((u >>> k) % 16)

def escapedChar (c : Char) : List Char :=
  match c with
  | '"' => ['\\', '"']
  | '\\' => ['\\', '\\']
  | '\x08' => ['\\', 'b']
  | '\x0c' => ['\\', 'f']
  | '\n' => ['\\', 'n']
  | '\r' => ['\\', 'r']
  | '\t' => ['\\', 't']
  | c => if c.toNat < 0x20 then '\\' :: 'u' :: hexUnit c.toNat else [c]

def stringChars (s : String) : List Char :=
  '"' :: s.toList.flatMap escapedChar ++ ['"']

def numberChars : Number → List Char
  | .integer i => (toString i).toList
  | .real x => (Decimal.stored x).toList

def newLine (level : Nat) : List Char :=
  '\n' :: List.replicate (2 * level) ' '

mutual

/-- The characters of a value at a level of nesting. What means no value is
written as null. -/
def Value.chars (level : Nat) : Value → List Char
  | .null | .number none | .text none | .cut => "null".toList
  | .bool b => (if b then "true" else "false").toList
  | .number (some n) => numberChars n
  | .text (some s) => stringChars s
  | .array [] => ['[', ']']
  | .array (v :: vs) =>
    '[' :: newLine (level + 1) ++ Value.chars (level + 1) v ++
      itemChars (level + 1) vs ++ newLine level ++ [']']
  | .object [] => ['\x7b', '\x7d']
  | .object ((k, v) :: ms) =>
    '\x7b' :: newLine (level + 1) ++ stringChars (k.getD "") ++
      ':' :: ' ' :: Value.chars (level + 1) v ++ memberChars (level + 1) ms ++
      newLine level ++ ['\x7d']

/-- Further items of an array, each after a comma. -/
def itemChars (level : Nat) : List Value → List Char
  | [] => []
  | v :: vs => ',' :: newLine level ++ Value.chars level v ++ itemChars level vs

def memberChars (level : Nat) : List (Option String × Value) → List Char
  | [] => []
  | (k, v) :: ms =>
    ',' :: newLine level ++ stringChars (k.getD "") ++
      ':' :: ' ' :: Value.chars level v ++ memberChars level ms

end

def write (v : Value) : String :=
  String.ofList (v.chars 0)

end Instrumentation.Json
