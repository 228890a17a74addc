import Instrumentation.Json.Token

/-!
# Reading JSON

Tokens build a tree on a stack of open arrays and objects, so that no nesting is
too deep. Where a token does not fit, the leaf `cut` takes its place and
everything that is open is closed around it.

Sections: §1 open containers · §2 the builder · §3 documents.
-/

namespace Instrumentation.Json

/-! ## §1  Open containers -/

/-- An array or object that is being read; what it holds so far stands last
first. `key` is the key whose value is being read. -/
inductive Frame where
  | array (rev : List Value)
  | object (rev : List (Option String × Value)) (key : Option String)

def Frame.close : Frame → Value → Value
  | .array rev, v => .array (v :: rev).reverse
  | .object rev key, v => .object ((key, v) :: rev).reverse

def closeAll (v : Value) : List Frame → Value
  | [] => v
  | f :: fs => closeAll (f.close v) fs

/-! ## §2  The builder -/

/-- What may come next: a value (or the end of an array that is empty so far), a
key (or the end of an object that is empty so far), the colon after a key, or
what follows a complete value. -/
inductive Expect where
  | value (mayClose : Bool)
  | key (mayClose : Bool)
  | colon
  | more

/-- What a token does: it moves on, it completes the outermost value, or it does
not fit. -/
inductive Move where
  | next (stack : List Frame) (expect : Expect)
  | root (v : Value)
  | stop

def place (v : Value) : List Frame → Move
  | [] => .root v
  | .array rev :: fs => .next (.array (v :: rev) :: fs) .more
  | .object rev key :: fs => .next (.object ((key, v) :: rev) none :: fs) .more

def move (stack : List Frame) : Expect → Token → Move
  | .value _, .null => place .null stack
  | .value _, .bool b => place (.bool b) stack
  | .value _, .number n => place (.number n) stack
  | .value _, .text s => place (.text s) stack
  | .value _, .openArray => .next (.array [] :: stack) (.value true)
  | .value _, .openObject => .next (.object [] none :: stack) (.key true)
  | .value true, .closeArray =>
    match stack with
    | .array rev :: fs => place (.array rev.reverse) fs
    | _ => .stop
  | .key _, .text s =>
    match stack with
    | .object rev _ :: fs => .next (.object rev s :: fs) .colon
    | _ => .stop
  | .key true, .closeObject =>
    match stack with
    | .object rev _ :: fs => place (.object rev.reverse) fs
    | _ => .stop
  | .colon, .colon => .next stack (.value false)
  | .more, .comma =>
    match stack with
    | .array _ :: _ => .next stack (.value false)
    | .object _ _ :: _ => .next stack (.key false)
    | [] => .stop
  | .more, .closeArray =>
    match stack with
    | .array rev :: fs => place (.array rev.reverse) fs
    | _ => .stop
  | .more, .closeObject =>
    match stack with
    | .object rev _ :: fs => place (.object rev.reverse) fs
    | _ => .stop
  | _, _ => .stop

/-- A value and whether the text was that value and nothing else. -/
structure Document where
  value : Value
  clean : Bool

def build : List Frame → Expect → List Token → Document
  | stack, _, [] => ⟨closeAll .cut stack, false⟩
  | stack, expect, t :: ts =>
    match move stack expect t with
    | .next stack expect => build stack expect ts
    | .root v => ⟨v, ts.isEmpty⟩
    | .stop => ⟨closeAll .cut stack, false⟩

/-! ## §3  Documents -/

def read (s : String) : Document :=
  build [] (.value false) (tokens s)

end Instrumentation.Json
