/-!
# Parsing from the front

A parser takes some characters from the front of a text or fails; what it leaves
is where the next one begins. An alternative is tried where the first one began.
-/

namespace Instrumentation.Toml

/-- Takes a value from the front of a text. -/
abbrev Parser := StateT (List Char) Option

namespace Parser

variable {α β : Type}

def satisfying (p : Char → Bool) : Parser Char
  | c :: cs => if p c then some (c, cs) else none
  | [] => none

def char (c : Char) : Parser Unit := discard (satisfying (· == c))

def word (s : String) : Parser Unit := s.toList.forM char

def atEnd : Parser Unit
  | [] => some ((), [])
  | _ => none

/-- Succeeds before a character of a class, and takes nothing. -/
def before (p : Char → Bool) : Parser Unit
  | c :: cs => if p c then some ((), c :: cs) else none
  | [] => none

def repeated (p : Parser α) : (times : Nat) → Parser (List α)
  | 0 => pure []
  | n + 1 => (do return (← p) :: (← repeated p n)) <|> pure []

/-- Takes as many as there are of something that has at least one character. -/
def many (p : Parser α) : Parser (List α) := fun cs => repeated p cs.length cs

def many1 (p : Parser α) : Parser (List α) := do return (← p) :: (← many p)

def exactly (p : Parser α) : (times : Nat) → Parser (List α)
  | 0 => pure []
  | n + 1 => do return (← p) :: (← exactly p n)

/-- Takes at least one, with a character between each and the next. -/
def separated (mark : Char) (p : Parser α) : Parser (List α) := do
  return (← p) :: (← many (do char mark; p))

/-- The value of something that is then complete. -/
def whole? (p : Parser α) (s : String) : Option α :=
  ((do let a ← p; atEnd; return a : Parser α).run s.toList).map (·.1)

end Parser

end Instrumentation.Toml
