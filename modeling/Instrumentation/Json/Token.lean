import Instrumentation.Json.Numeral

/-!
# JSON tokens

A text is cut into tokens one character at a time; `Scan` is what has been read
of the token that is open. A character that fits nowhere ends the list with the
token `fault`.

Sections: §1 tokens · §2 strings · §3 the scan.
-/

namespace Instrumentation.Json

/-! ## §1  Tokens -/

inductive Token where
  | openArray | closeArray | openObject | closeObject | comma | colon
  | null
  | bool (b : Bool)
  | number (n : Option Number)
  | text (s : Option String)
  | fault

/-- The four characters that may stand between tokens. -/
def isBlank (c : Char) : Bool :=
  c = ' ' || c = '\n' || c = '\t' || c = '\r'

def punctuation? : Char → Option Token
  | '[' => some .openArray
  | ']' => some .closeArray
  | '\x7b' => some .openObject
  | '\x7d' => some .closeObject
  | ',' => some .comma
  | ':' => some .colon
  | _ => none

def wordToken (word : String) : Token :=
  if word = "null" then .null
  else if word = "true" then .bool true
  else if word = "false" then .bool false
  else .fault

def numeralToken (cs : List Char) : Token :=
  match Numeral.ofChars? cs with
  | some n => .number n.number?
  | none => .fault

def isNumeralChar (c : Char) : Bool :=
  c.isDigit || c = '-' || c = '+' || c = '.' || c = 'e' || c = 'E'

/-! ## §2  Strings -/

/-- The content of a string so far, last character first. `high` is a first
surrogate that waits for its second; `paired` turns false once one stood alone. -/
structure Content where
  rev : List Char
  high : Option Nat
  paired : Bool

namespace Content

def empty : Content := ⟨[], none, true⟩

/-- Adds a character; a surrogate that waited stays alone. -/
def push (t : Content) (c : Char) : Content :=
  ⟨c :: t.rev, none, t.paired && t.high.isNone⟩

def pushUnit (t : Content) (u : Nat) : Content :=
  if 0xD800 ≤ u ∧ u < 0xDC00 then ⟨t.rev, some u, t.paired && t.high.isNone⟩
  else if 0xDC00 ≤ u ∧ u < 0xE000 then
    match t.high with
    | some h =>
        ⟨Char.ofNat (0x10000 + (h - 0xD800) * 0x400 + (u - 0xDC00)) :: t.rev, none,
          t.paired⟩
    | none => ⟨t.rev, none, false⟩
  else t.push (Char.ofNat u)

/-- The string; none if a surrogate stood alone. -/
def finish (t : Content) : Option String :=
  if t.paired && t.high.isNone then some (String.ofList t.rev.reverse) else none

end Content

def simpleEscape? : Char → Option Char
  | '"' => some '"'
  | '\\' => some '\\'
  | '/' => some '/'
  | 'b' => some '\x08'
  | 'f' => some '\x0c'
  | 'n' => some '\n'
  | 'r' => some '\r'
  | 't' => some '\t'
  | _ => none

/-! ## §3  The scan -/

inductive Scan where
  | between
  | word (rev : List Char)
  | numeral (rev : List Char)
  | string (content : Content)
  | escape (content : Content)
  | unit (content : Content) (left value : Nat)

namespace Scan

/-- What a character does where no token is open: the tokens it completes and
where the scan stands then; none if the character begins nothing. -/
def start (c : Char) : List Token × Option Scan :=
  if isBlank c then ([], some .between)
  else match punctuation? c with
    | some t => ([t], some .between)
    | none =>
      if c = '"' then ([], some (.string .empty))
      else if c.isDigit || c = '-' then ([], some (.numeral [c]))
      else if c.isAlpha then ([], some (.word [c]))
      else ([.fault], none)

/-- The same after tokens that the character has ended. -/
def startAfter (t : Token) (c : Char) : List Token × Option Scan :=
  let (ts, next) := start c
  (t :: ts, next)

def step : Scan → Char → List Token × Option Scan
  | .between, c => start c
  | .word rev, c =>
    if c.isAlpha then ([], some (.word (c :: rev)))
    else startAfter (wordToken (String.ofList rev.reverse)) c
  | .numeral rev, c =>
    if isNumeralChar c then ([], some (.numeral (c :: rev)))
    else startAfter (numeralToken rev.reverse) c
  | .string t, c =>
    if c = '"' then ([.text t.finish], some .between)
    else if c = '\\' then ([], some (.escape t))
    else if c.toNat < 0x20 then ([.fault], none)
    else ([], some (.string (t.push c)))
  | .escape t, c =>
    if c = 'u' then ([], some (.unit t 4 0))
    else match simpleEscape? c with
      | some c => ([], some (.string (t.push c)))
      | none => ([.fault], none)
  | .unit t left value, c =>
    match Text.hexDigit? c with
    | some d =>
      if left ≤ 1 then ([], some (.string (t.pushUnit (16 * value + d))))
      else ([], some (.unit t (left - 1) (16 * value + d)))
    | none => ([.fault], none)

/-- The token that the end of the text completes. -/
def finish : Scan → List Token
  | .between => []
  | .word rev => [wordToken (String.ofList rev.reverse)]
  | .numeral rev => [numeralToken rev.reverse]
  | .string _ | .escape _ | .unit .. => [.fault]

def tokens : Scan → List Char → List Token
  | s, [] => s.finish
  | s, c :: cs =>
    match s.step c with
    | (ts, some next) => ts ++ tokens next cs
    | (ts, none) => ts

end Scan

def tokens (s : String) : List Token :=
  Scan.between.tokens s.toList

end Instrumentation.Json
