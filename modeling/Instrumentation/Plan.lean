import Instrumentation.EmptyArray
import Instrumentation.LogCall

/-!
# Plans

A method is instrumented in two steps. Planning builds every log call and
collects every anchor and changes nothing; applying checks all anchors and then
inserts, the entry call first, so that it also comes first where the first
instruction is a return.

A return just after a protected region or a handler is no exit: a call before it
would belong to the region, behind the instruction that leaves it, and never
run.

Sections: §1 plans · §2 planning · §3 applying.
-/

namespace Instrumentation

/-! ## §1  Plans -/

/-- Whether returns are logged: not at all, by an exit call, or not for want of
the empty array. -/
inductive ExitLogging where
  | disabled
  | enabled (emptyArray : MethodRef) (message : String)
  | unavailable (cause : EmptyArrayError)
deriving DecidableEq

/-- The log calls for one method, each with its anchor. -/
structure Plan where
  entry : Handle × Insertion
  exits : List (Handle × Insertion)
deriving DecidableEq

inductive PlanError where
  | insertion (cause : InsertionError)
  | emptyArray (cause : EmptyArrayError)
  | tooManyParameters (method : String)
deriving DecidableEq

def PlanError.message : PlanError → String
  | insertion cause => cause.message
  | emptyArray cause => cause.message
  | tooManyParameters m => "Too many parameters in " ++ m ++ " (max 65534)"

def PlanError.ofEntry : EntryError → PlanError
  | .tooManyParameters m => .tooManyParameters m
  | .tooManyLocals m => .insertion (.tooManyLocals m)

/-! ## §2  Planning -/

/-- The instructions just after a region of any handler. -/
def Body.afterRegions (b : Body) : List Handle := b.handlers.flatMap (·.ends)

/-- The returns that are exits. -/
def Body.exits (b : Body) : List Handle :=
  let ends := b.afterRegions
  b.returns.filter (fun site => site ∉ ends)

namespace MethodDef

def plan (m : MethodDef Body) (logger : FieldRef) (callable : MethodRef)
    (exit : ExitLogging) : Except PlanError Plan :=
  match m.body? with
  | none => .error (.insertion (.noBody m.name))
  | some b =>
    match b.instructions.first? with
    | none => .error (.insertion (.emptyBody m.name))
    | some first =>
      match m.entryCall logger callable with
      | .error e => .error (.ofEntry e)
      | .ok entry =>
        match exit with
        | .disabled => .ok ⟨(first, entry), []⟩
        | .unavailable cause => .error (.emptyArray cause)
        | .enabled emptyArray message =>
          .ok ⟨(first, entry),
            b.exits.map fun site =>
              (site, exitCall logger callable emptyArray message)⟩

/-! ## §3  Applying -/

/-- Makes insertions one after the other, up to the first that fails. -/
def insertAll (m : MethodDef Body) : List (Handle × Insertion) →
    Except InsertionError Unit × MethodDef Body
  | [] => (.ok (), m)
  | (anchor, s) :: rest =>
    match m.insertBefore anchor s with
    | (.ok (), m) => insertAll m rest
    | (.error e, m) => (.error e, m)

/-- Why a plan does not suit a body: an anchor that is none of its instructions,
or too many slots. -/
def planFault? (m : MethodDef Body) (b : Body) (steps : List (Handle × Insertion)) :
    Option InsertionError :=
  match steps.find? (fun step => !b.instructions.contains step.1) with
  | some (anchor, _) => some (.unknownAnchor m.name anchor)
  | none =>
    if Body.maxLocals < b.locals.size + (steps.flatMap (·.2.newLocals)).length then
      some (.tooManyLocals m.name)
    else none

/-- Applies a plan; the answer is the number of exits. -/
def apply (m : MethodDef Body) (p : Plan) :
    Except InsertionError Nat × MethodDef Body :=
  match m.body? with
  | none => (.error (.noBody m.name), m)
  | some b =>
    let steps := p.entry :: p.exits
    match m.planFault? b steps with
    | some e => (.error e, m)
    | none =>
      match m.insertAll steps with
      | (.ok (), m) => (.ok p.exits.length, m)
      | (.error e, m) => (.error e, m)

end MethodDef

end Instrumentation
