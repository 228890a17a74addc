import Instrumentation.Decimal.Binary64

/-!
# JSON values

A tree that keeps the order and the repetitions of members. It also holds what a
text may say without meaning a value: a numeral beyond the doubles and a string
with half a surrogate pair stand as leaves without content (both are harmless
where a reader skips them), and `cut` marks the point at which a text stops
being JSON. So a reader of the tree meets the faults of a text in the order in
which they stand there.
-/

namespace Instrumentation.Json

/-- A number: whole if written as a whole number that fits a machine word, real
otherwise. -/
inductive Number where
  | integer (i : Int)
  | real (x : Binary64)
deriving DecidableEq

inductive Value where
  | null
  | bool (b : Bool)
  | number (n : Option Number)
  | text (s : Option String)
  | array (items : List Value)
  | object (members : List (Option String × Value))
  | cut
deriving Inhabited

namespace Value

abbrev str (s : String) : Value := .text (some s)

abbrev int (i : Int) : Value := .number (some (.integer i))

abbrev nat (n : Nat) : Value := .int n

/-- The object with these members, in this order. -/
def record (members : List (String × Value)) : Value :=
  .object (members.map fun (k, v) => (some k, v))

/-- One member, the key naming the kind of the content. -/
def tagged (tag : String) (content : Value) : Value :=
  .object [(some tag, content)]

mutual

/-- Whether the text did not break off inside the value. -/
def isWhole : Value → Bool
  | .cut => false
  | .array items => areWhole items
  | .object members => membersWhole members
  | _ => true

def areWhole : List Value → Bool
  | [] => true
  | v :: vs => isWhole v && areWhole vs

def membersWhole : List (Option String × Value) → Bool
  | [] => true
  | (_, v) :: ms => isWhole v && membersWhole ms

end

/-- Puts a member among members in the order of their keys, in the place of one
of the same key. -/
def putMember (key : Option String) (v : Value) :
    List (Option String × Value) → List (Option String × Value)
  | [] => [(key, v)]
  | (k, w) :: ms =>
    if key = k then (key, v) :: ms
    else if key.getD "" < k.getD "" then (key, v) :: (k, w) :: ms
    else (k, w) :: putMember key v ms

mutual

/-- The value as a finite map holds it: members in the order of their keys, the
last of several with one key. -/
def asMap : Value → Value
  | .array items => .array (asMaps items)
  | .object members => .object (membersAsMap members [])
  | v => v

def asMaps : List Value → List Value
  | [] => []
  | v :: vs => asMap v :: asMaps vs

def membersAsMap :
    List (Option String × Value) → List (Option String × Value) →
      List (Option String × Value)
  | [], done => done
  | (k, v) :: ms, done => membersAsMap ms (putMember k (asMap v) done)

end

def member? (v : Value) (key : String) : Option Value :=
  match v with
  | .object members => (members.find? (fun m => m.1 == some key)).map (·.2)
  | _ => none

end Value

end Instrumentation.Json
