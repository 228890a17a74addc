import Instrumentation.Toml.Scalar

/-!
# TOML documents

A document is a sequence of statements: a key with a value, the header of a
table, the header of one more element of an array of tables. Statements apply in
order; a document is refused if one of them does not fit what those before it
have made.

Sections: §1 keys · §2 values · §3 statements · §4 documents.
-/

namespace Instrumentation.Toml

open Instrumentation.Toml.Parser

/-! ## §1  Keys -/

/-- How many parts a key may have, and how deep arrays and tables written as
values may nest. -/
def maxDepth : Nat := 79

def isBareKeyChar (c : Char) : Bool := c.isAlphanum || c = '_' || c = '-'

def simpleKey : Parser String :=
  basicString <|> literalString <|>
    (do return String.ofList (← many1 (satisfying isBareKeyChar)))

def key : Parser (List String) := do
  let parts ← separated '.' (do blanks; let k ← simpleKey; blanks; return k)
  if parts.length ≤ maxDepth then return parts else failure

/-! ## §2  Values -/

def comment : Parser Unit := do
  char '#'
  discard (many (satisfying isPrintable))

def gap : Parser Unit :=
  discard (many (discard (satisfying isBlank) <|> newline <|> comment))

/-- An array; a comma may follow its last item. -/
def array (item : Parser Value) : Parser Value := do
  char '['
  let items ← (do
    let items ← separated ',' (do gap; let v ← item; gap; return v)
    discard (optional (char ','))
    return items) <|> pure []
  gap
  char ']'
  return .array items

def keyValue (item : Parser Value) : Parser (List String × Value) := do
  let k ← key
  char '='
  blanks
  let v ← item
  blanks
  return (k, v)

def inlineTable (item : Parser Value) : Parser Value := do
  char '\x7b'
  let members ← separated ',' (keyValue item) <|> pure []
  blanks
  char '\x7d'
  match members.foldlM (fun t (k, v) => Table.assign v true k t) [] with
  | some t => return .table .inline t
  | none => failure

def value : (depth : Nat) → Parser Value
  | 0 => scalar
  | depth + 1 => scalar <|> array (value depth) <|> inlineTable (value depth)

/-! ## §3  Statements -/

inductive Statement where
  | assign (key : List String) (v : Value)
  | openTable (path : List String)
  | openElement (path : List String)

def restOfLine : Parser Unit := do
  blanks
  discard (optional comment)
  newline <|> atEnd

def statement : Parser Statement :=
  (do
    word "[["
    let path ← key
    word "]]"
    return .openElement path)
  <|> (do
    char '['
    let path ← key
    char ']'
    return .openTable path)
  <|> (do
    let (k, v) ← keyValue (value maxDepth)
    return .assign k v)

def line : Parser (Option Statement) :=
  (do newline; return none)
    <|> (do comment; newline <|> atEnd; return none)
    <|> (do let s ← statement; restOfLine; return some s)

/-- All statements of a text, which may begin with a byte order mark. -/
def statements : Parser (List Statement) := do
  discard (optional (char '\uFEFF'))
  blanks
  let lines ← many (do let s ← line; blanks; return s)
  atEnd
  return lines.filterMap id

/-! ## §4  Documents -/

/-- The root table so far, and the path of the table that keys are in. -/
structure Draft where
  root : Table
  path : List String

namespace Draft

/-- Changes the table that holds the last part of a path and goes on in the
table at that path. -/
def openAt (change : (key : String) → Table → Option Table) (path : List String)
    (d : Draft) : Option Draft :=
  match path.getLast? with
  | none => none
  | some k =>
      (Table.within (change k) path.dropLast d.root).map fun root => ⟨root, path⟩

def apply (d : Draft) : Statement → Option Draft
  | .assign key v =>
      (Table.within (Table.assign v true key) d.path d.root).map fun root =>
        ⟨root, d.path⟩
  | .openTable path => d.openAt Table.openTable path
  | .openElement path => d.openAt Table.openElement path

end Draft

def read? (s : String) : Option Table := do
  let statements ← whole? statements s
  let draft ← statements.foldlM Draft.apply ⟨[], []⟩
  return draft.root

end Instrumentation.Toml
