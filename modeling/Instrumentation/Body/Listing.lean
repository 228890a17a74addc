import Instrumentation.Body

/-!
# Listings

A listing labels instructions by their position in program order, at least four
hexadecimal digits, and writes branch targets and the ends of handlers as
labels. A handle that is none of the body's is marked as dangling.
-/

namespace Instrumentation.Body

/-- A label: the position with four hexadecimal digits or as many more as it
needs. -/
def label (position : Nat) : String :=
  let digits := Nat.toDigits 16 position
  "IL_" ++ String.ofList (List.replicate (4 - digits.length) '0' ++ digits)

/-- How a handle of any list is written in the listing of this body. -/
def reference (b : Body) (h : Handle) : String :=
  match b.instructions.position? h with
  | some p => label p
  | none => "<dangling " ++ h.text ++ ">"

def endReference (b : Body) : Option Handle → String
  | some h => b.reference h
  | none => "end"

def clauseText (b : Body) : HandlerKind Handle → String
  | .catches t => "catch " ++ t.fullName
  | .filter s => "filter " ++ b.reference s
  | .finallyBlock => "finally"
  | .faultBlock => "fault"

def handlerText (b : Body) (h : ExceptionHandler Handle) : String :=
  ".try " ++ b.reference h.tryStart ++ " to " ++ b.endReference h.tryEnd? ++ " " ++
    b.clauseText h.kind ++ " handler " ++ b.reference h.handlerStart ++ " to " ++
    b.endReference h.handlerEnd?

/-- The lines of a listing: the stack, the locals if there are any, the
instructions, the handlers. -/
def lines (b : Body) : List String :=
  [".maxstack " ++ toString b.maxStack.toNat]
    ++ (if b.locals.isEmpty then [] else
      [".locals (" ++ ", ".intercalate (b.locals.toList.map TypeSig.fullName) ++ ")"])
    ++ b.instructions.code.zipIdx.map
      (fun (i, p) => label p ++ ": " ++ i.text b.reference)
    ++ b.handlers.map b.handlerText

/-- The text of a body, every line ended. -/
def listing (b : Body) : String :=
  String.join (b.lines.map (· ++ "\n"))

end Instrumentation.Body
