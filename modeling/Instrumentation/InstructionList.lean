import Instrumentation.Arena
import Instrumentation.Instruction

/-!
# Instruction lists

A list issues a handle for every instruction that it takes in and never takes a
handle back. Program order is kept apart from the order of issue: an insertion
changes the links between instructions only, so a handle goes on denoting its
instruction wherever that comes to stand. A handle names the list that issued
it; a copy of a list keeps its identity, and handles of any other list denote
nothing.

Sections: §1 handles · §2 lists · §3 lookup · §4 order · §5 growth.
-/

namespace Instrumentation

/-! ## §1  Handles -/

/-- A lasting name of an instruction: the list it comes from and how many that
list issued before. -/
structure Handle where
  origin : Nat
  index : Nat
deriving DecidableEq, Inhabited

/-- A handle in texts, without its list. -/
def Handle.text (h : Handle) : String := "#" ++ toString h.index

instance : Inhabited (Instruction Handle) := ⟨⟨.nop, .none⟩⟩

inductive BodyError where
  | unknownInstruction (anchor : Handle)
  | danglingReference (position length : Nat)
  | full
  | tooManyLocals
deriving DecidableEq

def BodyError.message : BodyError → String
  | .unknownInstruction h =>
      "Instruction " ++ h.text ++ " does not belong to this body"
  | .danglingReference position length =>
    "Reference to instruction position " ++ toString position ++ " in a body of " ++
      toString length ++ " instructions"
  | .full => "Instruction list is full"
  | .tooManyLocals => "Too many local variables (max 65536)"

/-! ## §2  Lists -/

/-- Instructions by order of issue, linked in program order. -/
structure InstructionList where
  identity : Nat
  arena : Arena (Instruction Handle)
  linked : arena.IsLinked

namespace InstructionList

def capacity : Nat := UInt32.size

def empty (identity : Nat) : InstructionList :=
  ⟨identity, .empty, Arena.isLinked_empty⟩

def size (l : InstructionList) : Nat := l.arena.size

def isEmpty (l : InstructionList) : Bool := l.size = 0

/-! ## §3  Lookup -/

def handle (l : InstructionList) (index : Nat) : Handle := ⟨l.identity, index⟩

def contains (l : InstructionList) (h : Handle) : Bool :=
  h.origin = l.identity && h.index < l.size

def get? (l : InstructionList) (h : Handle) : Option (Instruction Handle) :=
  if h.origin = l.identity then l.arena.value? h.index else none

/-- Replaces the instruction that a handle denotes; a handle that denotes none
changes nothing. -/
def set (l : InstructionList) (h : Handle) (i : Instruction Handle) :
    InstructionList :=
  if h.origin = l.identity then
    ⟨l.identity, l.arena.set h.index i, l.linked.set h.index i⟩
  else l

/-! ## §4  Order -/

def first? (l : InstructionList) : Option Handle := l.arena.head?.map l.handle

def last? (l : InstructionList) : Option Handle := l.arena.tail?.map l.handle

def next? (l : InstructionList) (h : Handle) : Option Handle :=
  if h.origin = l.identity then (l.arena.next? h.index).map l.handle else none

def prev? (l : InstructionList) (h : Handle) : Option Handle :=
  if h.origin = l.identity then (l.arena.prev? h.index).map l.handle else none

def order (l : InstructionList) : List Nat := l.arena.order

def issued (l : InstructionList) (index : Nat) : Instruction Handle :=
  (l.arena.value? index).getD default

def handles (l : InstructionList) : List Handle := l.order.map l.handle

def code (l : InstructionList) : List (Instruction Handle) := l.order.map l.issued

def entries (l : InstructionList) : List (Handle × Instruction Handle) :=
  l.order.map fun i => (l.handle i, l.issued i)

def position? (l : InstructionList) (h : Handle) : Option Nat :=
  if l.contains h then l.arena.rank? h.index else none

theorem position?_eq (l : InstructionList) (h : Handle) :
    l.position? h = if l.contains h then l.order.idxOf? h.index else none := by
  rw [position?, Arena.rank?_eq, order]

def handleAt? (l : InstructionList) (position : Nat) : Option Handle :=
  l.order[position]?.map l.handle

/-! ## §5  Growth -/

/-- Issues instructions and puts them, in order, before one that is there, or at
the end. -/
def putAll (l : InstructionList) (before? : Option Nat)
    (hbefore : ∀ m ∈ before?, m < l.size) (block : List (Instruction Handle)) :
    InstructionList :=
  ⟨l.identity, l.arena.putAll before? block, l.linked.putAll hbefore block⟩

def ofList (identity : Nat) (code : List (Instruction Handle)) : InstructionList :=
  (empty identity).putAll none nofun code

def push : InstructionList → Instruction Handle →
    Except BodyError (Handle × InstructionList)
  | ⟨identity, arena, linked⟩, i =>
    let index := arena.size
    if index < capacity then
      .ok (⟨identity, index⟩, ⟨identity, arena.put none i, linked.push i⟩)
    else .error .full

theorem index_lt_size {l : InstructionList} {h : Handle} (hin : l.contains h = true) :
    h.index < l.size := by
  simp_all [contains]

/-- Puts a block of instructions, in order, immediately before an anchor. An
unknown anchor changes nothing; a block that the list cannot hold goes in as far
as there is room. -/
def insertBefore (l : InstructionList) (anchor : Handle)
    (block : List (Instruction Handle)) :
    Except BodyError (List Handle) × InstructionList :=
  if hin : l.contains anchor then
    let fitting := block.take (capacity - l.size)
    (if fitting.length = block.length then
      .ok ((List.range' l.size block.length).map l.handle)
      else .error .full,
     l.putAll (some anchor.index)
       (fun _ hm => Option.some.inj hm ▸ index_lt_size hin) fitting)
  else (.error (.unknownInstruction anchor), l)

end InstructionList

end Instrumentation
