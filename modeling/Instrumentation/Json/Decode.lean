import Instrumentation.Json.Reader

/-!
# Decoding JSON

A decoder turns a tree into data or names the fault that a reader of the text,
going from its beginning, meets first. That order shows because two kinds of
fault differ: a text may be malformed, or a method body in it may refer to a
position it does not have.

The fields of a structure may be given by name in any order, unknown names being
skipped, or as an array in the order of their declaration. `room` is how many
more arrays and objects may be entered; what is skipped needs no room.

Sections: §1 faults · §2 plain values · §3 gathering · §4 structures · §5
variants · §6 whole texts.
-/

namespace Instrumentation.Json

/-! ## §1  Faults -/

inductive Fault where
  | malformed
  | dangling (position length : Nat)
deriving DecidableEq

/-- Whether a tree was just read from a text or comes as a value of a request.
In a text the fields of a variant, too, may be given as an array. -/
inductive Source where
  | text
  | request
deriving DecidableEq

/-- A decoder of values that may enter `room` more levels. -/
abbrev Decode (α : Type) := (room : Nat) → Value → Except Fault α

namespace Decode

/-! ## §2  Plain values -/

def bool : Decode Bool
  | _, .bool b => .ok b
  | _, _ => .error .malformed

def string : Decode String
  | _, .text (some s) => .ok s
  | _, _ => .error .malformed

/-- A whole number between two bounds, written as one. -/
def int (low high : Int) : Decode Int
  | _, .number (some (.integer i)) =>
      if low ≤ i ∧ i ≤ high then .ok i else .error .malformed
  | _, _ => .error .malformed

def nat (high : Nat) : Decode Nat :=
  fun room v => (int 0 high room v).map Int.toNat

def uint16 : Decode UInt16 :=
  fun room v => (nat (UInt16.size - 1) room v).map UInt16.ofNat

def int32 : Decode Int32 :=
  fun room v => (int Int32.minValue.toInt Int32.maxValue.toInt room v).map Int32.ofInt

def int64 : Decode Int64 :=
  fun room v => (int Int64.minValue.toInt Int64.maxValue.toInt room v).map Int64.ofInt

/-- Any number; a whole number is rounded to the nearest double. -/
def float64 : Decode Binary64
  | _, .number (some (.real x)) => .ok x
  | _, .number (some (.integer i)) =>
    match Binary64.ofInt? i with
    | some x => .ok x
    | none => .error .malformed
  | _, _ => .error .malformed

def list {α : Type} (item : Decode α) : Decode (List α)
  | room + 1, .array items => items.mapM (item room)
  | _, _ => .error .malformed

def option {α : Type} (content : Decode α) : Decode (Option α)
  | _, .null => .ok none
  | room, v => (content room v).map some

end Decode

/-! ## §3  Gathering -/

/-- What reading several members comes to: all of them, or the fault that stands
first. -/
inductive Gather (α : Type) where
  | all (a : α)
  | fault (place : Nat) (f : Fault)

namespace Gather

def ofExcept {α : Type} (place : Nat) : Except Fault α → Gather α
  | .ok a => .all a
  | .error f => .fault place f

def toExcept {α : Type} : Gather α → Except Fault α
  | .all a => .ok a
  | .fault _ f => .error f

protected def map {α β : Type} (g : α → β) : Gather α → Gather β
  | .all a => .all (g a)
  | .fault p f => .fault p f

/-- Of two faults the one that stands first. -/
protected def seq {α β : Type} : Gather (α → β) → Gather α → Gather β
  | .all g, .all a => .all (g a)
  | .all _, .fault p f => .fault p f
  | .fault p f, .all _ => .fault p f
  | .fault p f, .fault q h => if q < p then .fault q h else .fault p f

instance : Applicative Gather where
  pure := .all
  map := Gather.map
  seq g a := Gather.seq g (a ())

end Gather

/-! ## §4  Structures -/

/-- A structure that has been entered: its known members with their places, the
place of the first fault among the rest, and how much room is left. -/
structure Fields where
  room : Nat
  byName : Bool
  known : List (String × Nat × Value)
  flaw? : Option Nat
  size : Nat

namespace Fields

/-- Sorts out the members of an object: a repeated name and a text that breaks
off are flaws, and nothing after a flaw counts. -/
def sortOut (names : List String) :
    (place : Nat) → (seen : List String) → List (Option String × Value) →
      List (String × Nat × Value) × Option Nat
  | _, _, [] => ([], none)
  | place, _, (none, _) :: _ => ([], some place)
  | place, seen, (some k, v) :: ms =>
    if k ∈ names then
      if k ∈ seen then ([], some place)
      else
        let (known, flaw?) := sortOut names (place + 1) (k :: seen) ms
        ((k, place, v) :: known, flaw?)
    else if v.isWhole then sortOut names (place + 1) seen ms
    else ([], some place)

/-- Gives the elements of an array the names of the fields, in order. -/
def nameInOrder : (place : Nat) → List String → List Value →
    List (String × Nat × Value) × Option Nat
  | _, _, [] => ([], none)
  | place, [], _ :: _ => ([], some place)
  | place, n :: ns, v :: vs =>
    let (known, flaw?) := nameInOrder (place + 1) ns vs
    ((n, place, v) :: known, flaw?)

def enter? (names : List String) : (room : Nat) → Value → Option Fields
  | room + 1, .object members =>
    let (known, flaw?) := sortOut names 0 [] members
    some { room, byName := true, known, flaw?, size := members.length }
  | room + 1, .array items =>
    let (known, flaw?) := nameInOrder 0 names items
    some { room, byName := false, known, flaw?, size := items.length }
  | _, _ => none

def find? (f : Fields) (name : String) : Option (Nat × Value) :=
  (f.known.find? (fun m => m.1 == name)).map (·.2)

/-- A field; `absent` is what it is when it is not given. -/
def read {α : Type} (f : Fields) (name : String) (absent : Option α)
    (content : Decode α) : Gather α :=
  match f.find? name with
  | some (place, v) => .ofExcept place (content f.room v)
  | none =>
    match absent with
    | some a => .all a
    | none => .fault f.size .malformed

def required {α : Type} (f : Fields) (name : String) (content : Decode α) :
    Gather α :=
  f.read name none content

/-- A field that may be null, and that only an object may leave out. -/
def nullable {α : Type} (f : Fields) (name : String) (content : Decode α) :
    Gather (Option α) :=
  f.read name (if f.byName then some none else none) (Decode.option content)

/-- That nothing but known fields, each once, was given. -/
def sound (f : Fields) : Gather Unit :=
  match f.flaw? with
  | some place => .fault place .malformed
  | none => .all ()

end Fields

def Decode.structure {α : Type} (names : List String) (body : Fields → Gather α) :
    Decode α :=
  fun room v =>
    match Fields.enter? names room v with
    | some f => (body f <* f.sound).toExcept
    | none => .error .malformed

/-! ## §5  Variants -/

/-- The fields of a variant: a structure, but an array only in a text. -/
def Decode.variantFields {α : Type} (source : Source) (names : List String)
    (body : Fields → Gather α) : Decode α :=
  fun room v =>
    match source, v with
    | .request, .array _ => .error .malformed
    | _, _ => Decode.structure names body room v

/-- A variant as it is written: by its name alone or with content. A variant
without content may also have null for it. -/
inductive Variant where
  | plain (tag : String)
  | carrying (tag : String) (room : Nat) (content : Value)

def variant? : (room : Nat) → Value → Option Variant
  | _, .text (some tag) => some (.plain tag)
  | room + 1, .object [(some tag, content)] => some (.carrying tag room content)
  | _, _ => none

def Decode.name {α : Type} (ofName? : String → Option α) : Decode α :=
  fun room v =>
    match variant? room v with
    | some (.plain tag) | some (.carrying tag _ .null) =>
      match ofName? tag with
      | some a => .ok a
      | none => .error .malformed
    | _ => .error .malformed

/-! ## §6  Whole texts -/

def maxNesting : Nat := 127

/-- Decodes a text that must hold the value and nothing else. -/
def decodeText {α : Type} (content : Decode α) (s : String) : Except Fault α :=
  let doc := read s
  match content maxNesting doc.value with
  | .error f => .error f
  | .ok a => if doc.clean then .ok a else .error .malformed

end Instrumentation.Json
