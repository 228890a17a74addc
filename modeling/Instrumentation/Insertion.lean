import Instrumentation.Flow.Depth
import Instrumentation.Module

/-!
# Insertions

Instructions that go into a body together, with the local slots they need. They
are put, in their order, immediately before an anchor, an instruction of the
body. Branches and handlers that name the anchor go on naming it. New slots come
after the old ones, and the declared stack grows to what the body needs now;
where that cannot be told, it grows by what the insertion needs.

Sections: §1 insertions · §2 failures · §3 the declared stack · §4 inserting.
-/

namespace Instrumentation

/-! ## §1  Insertions -/

/-- Instructions to be put into a body, and the types of the local slots to be
added for them. -/
structure Insertion where
  instructions : List (Instruction Handle)
  newLocals : List TypeSig
deriving DecidableEq

namespace Insertion

/-- The greatest depth that instructions reach, from a depth and a greatest
depth so far on; a stack that holds too little counts as empty. -/
def peakFrom : (position depth peak : Nat) → List (Instruction Handle) →
    Except VerifyError Nat
  | _, _, peak, [] => .ok peak
  | position, depth, peak, i :: code => do
    let effect ← i.effect false position
    let depth := depth - effect.pops + effect.pushes
    peakFrom (position + 1) depth (max peak depth) code

/-- How many values the instructions have on the stack at most, besides those
that were there before. -/
def peak (s : Insertion) : Except VerifyError Nat := peakFrom 0 0 0 s.instructions

end Insertion

/-! ## §2  Failures -/

/-- Why nothing could be inserted into a method, which each cause names. -/
inductive InsertionError where
  | noBody (method : String)
  | emptyBody (method : String)
  | unknownAnchor (method : String) (anchor : Handle)
  | tooManyLocals (method : String)
  | list (cause : BodyError)
  | malformedSequence (cause : VerifyError)
deriving DecidableEq

def InsertionError.message : InsertionError → String
  | noBody m => "Method " ++ m ++ " has no body"
  | emptyBody m => "Method " ++ m ++ " has an empty body"
  | unknownAnchor m anchor =>
      "Anchor " ++ anchor.text ++ " is not an instruction of " ++ m
  | tooManyLocals m => "Too many local variables in " ++ m ++ " (max 65536)"
  | list cause => "Instruction list error: " ++ cause.message
  | malformedSequence cause => "Malformed injection sequence: " ++ cause.message

/-! ## §3  The declared stack -/

namespace Body

/-- The sum of two stack sizes, at most what sixteen bits can say. -/
def addStack (declared : UInt16) (added : Nat) : UInt16 :=
  UInt16.ofNat (min (declared.toNat + added) (UInt16.size - 1))

/-- The body with a stack that is at least as large as before and covers what it
needs now. -/
def widenStack (b : Body) (returnsValue : Bool) (added : Nat) : Body :=
  match b.requiredStack returnsValue with
  | .ok required => { b with maxStack := max b.maxStack required }
  | .error _ => { b with maxStack := addStack b.maxStack added }

end Body

/-! ## §4  Inserting -/

namespace MethodDef

/-- Puts an insertion immediately before an anchor. The answer holds the method
as it is afterwards, also after a failure. -/
def insertBefore (m : MethodDef Body) (anchor : Handle) (s : Insertion) :
    Except InsertionError Unit × MethodDef Body :=
  match m.body? with
  | none => (.error (.noBody m.name), m)
  | some b =>
    if !b.instructions.contains anchor then (.error (.unknownAnchor m.name anchor), m)
    else if Body.maxLocals < b.locals.size + s.newLocals.length then
      (.error (.tooManyLocals m.name), m)
    else
      match s.peak with
      | .error e => (.error (.malformedSequence e), m)
      | .ok added =>
        let (inserted, instructions) :=
          b.instructions.insertBefore anchor s.instructions
        let b := { b with locals := b.locals ++ s.newLocals.toArray, instructions }
        match inserted with
        | .error e => (.error (.list e), m.withBody (some b))
        | .ok _ => (.ok (), m.withBody (some (b.widenStack m.returnsValue added)))

end MethodDef

end Instrumentation
