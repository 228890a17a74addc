/-!
# TOML values

A document is a table of values. Tables differ by what made them, since that
decides what may still be added: a dotted key extends the tables that dotted
keys made, a header completes a table that other headers merely imply, and a
table written as a value is closed. A repeated header in double brackets adds an
element to an array of tables.

Nothing here needs the value of a number or a date, so only their kind is kept.

Sections: §1 values · §2 members · §3 adding.
-/

namespace Instrumentation.Toml

/-! ## §1  Values -/

/-- What made a table: a header of its own, the header of a table inside it, a
dotted key, or its being written as a value. -/
inductive Origin where
  | header
  | implied
  | dotted
  | inline
deriving DecidableEq

inductive Value where
  | text (s : String)
  | bool (b : Bool)
  | number
  | date
  | array (items : List Value)
  | table (origin : Origin) (members : List (String × Value))
  /-- An array of tables, last element apart. -/
  | tables (earlier : List (List (String × Value))) (last : List (String × Value))

abbrev Table := List (String × Value)

/-! ## §2  Members -/

namespace Table

def find? (t : Table) (key : String) : Option Value :=
  (List.find? (fun m => m.1 == key) t).map (·.2)

/-- Replaces the member of a key or adds one at the end. -/
def put (key : String) (v : Value) : Table → Table
  | [] => [(key, v)]
  | (k, w) :: ms => if k = key then (key, v) :: ms else (k, w) :: put key v ms

/-! ## §3  Adding -/

/-- Adds the value of a key with these parts. What the key passes is made where
it is missing; it must have been made by dotted keys, or be an element of an
array. `takes` says whether the table at hand may have new members. -/
def assign (v : Value) : (takes : Bool) → (key : List String) → Table → Option Table
  | _, [], _ => none
  | takes, [k], t => if takes && (t.find? k).isNone then some (t.put k v) else none
  | _, k :: rest, t =>
    match t.find? k with
    | none => (assign v true rest []).map fun inner => t.put k (.table .dotted inner)
    | some (.table .dotted inner) =>
      (assign v true rest inner).map fun inner => t.put k (.table .dotted inner)
    | some (.table .implied inner) =>
      (assign v false rest inner).map fun inner => t.put k (.table .implied inner)
    | some (.tables earlier last) =>
      (assign v false rest last).map fun last => t.put k (.tables earlier last)
    | _ => none

/-- Changes the table at the end of a path. What the path passes is implied
where it is missing, and of an array of tables the last element is meant. -/
def within (change : Table → Option Table) : (path : List String) →
    Table → Option Table
  | [], t => change t
  | k :: rest, t =>
    match t.find? k with
    | none => (within change rest []).map fun inner => t.put k (.table .implied inner)
    | some (.table .inline _) => none
    | some (.table origin inner) =>
      (within change rest inner).map fun inner => t.put k (.table origin inner)
    | some (.tables earlier last) =>
      (within change rest last).map fun last => t.put k (.tables earlier last)
    | _ => none

/-- Gives a table its header, which it must not have had. -/
def openTable (key : String) (t : Table) : Option Table :=
  match t.find? key with
  | none => some (t.put key (.table .header []))
  | some (.table .implied inner) => some (t.put key (.table .header inner))
  | _ => none

def openElement (key : String) (t : Table) : Option Table :=
  match t.find? key with
  | none => some (t.put key (.tables [] []))
  | some (.tables earlier last) => some (t.put key (.tables (earlier ++ [last]) []))
  | _ => none

end Table

end Instrumentation.Toml
