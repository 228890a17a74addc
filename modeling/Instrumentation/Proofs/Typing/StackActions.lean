import Instrumentation.StackTyping

/-!
# Typing on top of a stack

Every instruction but those that empty the stack is an action on its top: it
takes so many values, leaves so many in their place, and sees nothing of what
lies below. How many is what its effect says, although typing does not ask for
the effect but takes one value after the other, with checks in between. Actions
are put together from a few that take one value or leave some, so that each
instruction is an action because its parts are.

Code that can be typed from an empty stack on can therefore be typed on top of
any stack, and leaves that stack below its own.

Sections: §1 positions of refusals · §2 actions · §3 parts of instructions · §4
instructions · §5 sequences.
-/

namespace Instrumentation

/-! ## §1  Positions of refusals -/

def VerifyError.position? : VerifyError → Option Nat
  | malformedOperand _ p | stackUnderflow p | inconsistentDepth p _ _
  | typeMismatch p _ _ | invalidTarget _ p | invalidLocal _ _ p | invalidArg _ _ p
  | fallOffEnd p => some p
  | inMethod _ cause => cause.position?
  | stackOverflow _ _ | invalidHandler _ => none

def VerifyError.IsUnderflow : VerifyError → Prop
  | stackUnderflow _ => True
  | _ => False

def Opcode.emptiesStack : Opcode → Bool
  | ret | leave | endfinally => true
  | _ => false

namespace StackTyping

/-! ## §2  Actions -/

/-- A step that may stand at any position, as an action on the top of the stack.
Whatever lies below is left alone, values are taken and left as the effect says,
every refusal names the position, and only a stack that is too low is refused
for want of values. -/
structure Acts (effect : StackEffect)
    (f : Nat → KindStack → Except VerifyError KindStack) : Prop where
  onTop : ∀ {p stack after}, f p stack = .ok after →
    ∀ q below, f q (stack ++ below) = .ok (after ++ below)
  height : ∀ {p stack after}, f p stack = .ok after →
    effect.pops ≤ stack.length ∧
    after.length = stack.length - effect.pops + effect.pushes
  place : ∀ {p stack e}, f p stack = .error e → e.position? = some p
  starved : ∀ {p stack e}, f p stack = .error e → e.IsUnderflow →
    stack.length < effect.pops

/-- An answer that does not come from the stack: the same at every position, or
a refusal that names the position and is not for want of values. -/
inductive Offhand {α : Type} (x : Nat → Except VerifyError α) : Prop
  | known (a : α) (hx : ∀ p, x p = .ok a)
  | refused (e : Nat → VerifyError) (hx : ∀ p, x p = .error (e p))
      (hplace : ∀ p, (e p).position? = some p) (hnot : ∀ p, ¬ (e p).IsUnderflow)

section

variable {f : Nat → KindStack → Except VerifyError KindStack} {n m : Nat}
  {effect : StackEffect}

theorem acts_push (kinds : List StackKind) :
    Acts ⟨0, kinds.length⟩ fun _ stack => .ok (kinds ++ stack) := by
  refine ⟨?_, ?_, nofun, nofun⟩
  · rintro p stack - ⟨⟩ q below
    rw [List.append_assoc]
  · rintro p stack - ⟨⟩
    exact ⟨Nat.zero_le _, by simp [Nat.add_comm]⟩

theorem acts_refusal {e : Nat → VerifyError} (hplace : ∀ p, (e p).position? = some p)
    (hnot : ∀ p, ¬ (e p).IsUnderflow) : Acts effect fun p _ => .error (e p) := by
  refine ⟨nofun, nofun, ?_, ?_⟩
  · rintro p stack - ⟨⟩
    exact hplace p
  · rintro p stack - ⟨⟩ hunder
    exact absurd hunder (hnot p)

/-- What refuses the empty stack for want of a value, and acts below whatever
value is on top, takes one value more. -/
theorem acts_top (hnil : ∀ p, f p [] = .error (.stackUnderflow p))
    (htop : ∀ k, Acts ⟨n, m⟩ fun p stack => f p (k :: stack)) :
    Acts ⟨n + 1, m⟩ f := by
  refine ⟨?_, ?_, ?_, ?_⟩
  · intro p stack after hok q below
    cases stack with
    | nil => simp [hnil] at hok
    | cons k stack => exact (htop k).onTop hok q below
  · intro p stack after hok
    cases stack with
    | nil => simp [hnil] at hok
    | cons k stack =>
        obtain ⟨hle, hlength⟩ := (htop k).height hok
        simp only [List.length_cons] at hle hlength ⊢
        omega
  · intro p stack e herror
    cases stack with
    | nil =>
        obtain rfl := Except.error.inj ((hnil p).symm.trans herror)
        rfl
    | cons k stack => exact (htop k).place herror
  · intro p stack e herror hunder
    cases stack with
    | nil => exact Nat.succ_pos n
    | cons k stack => exact Nat.succ_lt_succ ((htop k).starved herror hunder)

theorem Offhand.acts {α : Type} {x : Nat → Except VerifyError α}
    {g : α → Nat → KindStack → Except VerifyError KindStack} (hx : Offhand x)
    (hg : ∀ a, Acts effect (g a)) :
    Acts effect fun p stack => x p >>= fun a => g a p stack := by
  cases hx with
  | known a hx =>
      simp only [hx]
      exact hg a
  | refused e hx hplace hnot =>
      simp only [hx]
      exact acts_refusal hplace hnot

end

/-! ## §3  Parts of instructions -/

section

variable {n m : Nat} {args locals : Array TypeSig} {index : UInt16}

section

variable {g : Nat → StackKind × KindStack → Except VerifyError KindStack}

theorem acts_take (hg : ∀ k, Acts ⟨n, m⟩ fun p stack => g p (k, stack)) :
    Acts ⟨n + 1, m⟩ fun p stack => take p stack >>= g p :=
  acts_top (fun _ => rfl) hg

theorem acts_takeKind (wanted : StackKind)
    (hg : ∀ k, Acts ⟨n, m⟩ fun p stack => g p (k, stack)) :
    Acts ⟨n + 1, m⟩ fun p stack => takeKind p wanted stack >>= g p := by
  refine acts_top (fun _ => rfl) fun k => ?_
  by_cases haccepts : wanted.accepts k = true
  · simp only [takeKind, if_pos haccepts]
    exact hg k
  · simp only [takeKind, if_neg haccepts]
    exact acts_refusal (fun _ => rfl) fun _ => id

end

variable {g : Nat → KindStack → Except VerifyError KindStack}

theorem acts_takeKinds (wanted : List StackKind) (hg : Acts ⟨n, m⟩ g) :
    Acts ⟨n + wanted.length, m⟩ fun p stack => takeKinds p wanted stack >>= g p := by
  induction wanted with
  | nil => exact hg
  | cons k wanted ih =>
      have hfirst :=
        acts_takeKind (g := fun p x => takeKinds p wanted x.2 >>= g p) k fun _ => ih
      simp only [takeKinds, bind_assoc]
      exact hfirst

theorem acts_takeMany (count : Nat) (hg : Acts ⟨n, m⟩ g) :
    Acts ⟨n + count, m⟩ fun p stack => takeMany p count stack >>= g p := by
  induction count with
  | zero => exact hg
  | succ count ih =>
      have hfirst :=
        acts_take (g := fun p x => takeMany p count x.2 >>= g p) fun _ => ih
      simp only [takeMany, bind_assoc]
      exact hfirst

theorem bind_push_nil (x : Except VerifyError KindStack) :
    (x >>= fun stack => .ok ([] ++ stack)) = x :=
  bind_pure x

theorem acts_takeKinds_all (wanted : List StackKind) :
    Acts ⟨wanted.length, 0⟩ fun p stack => takeKinds p wanted stack := by
  simpa only [bind_push_nil, Nat.zero_add, List.length_nil]
    using acts_takeKinds wanted (acts_push [])

theorem acts_takeMany_all (count : Nat) :
    Acts ⟨count, 0⟩ fun p stack => takeMany p count stack := by
  simpa only [bind_push_nil, Nat.zero_add, List.length_nil]
    using acts_takeMany count (acts_push [])

theorem offhand_argType : Offhand fun p => argType args p index := by
  cases harg : args[index.toNat]? with
  | some t => exact .known t fun p => by simp only [argType, harg]
  | none =>
      exact .refused _ (fun p => by simp only [argType, harg]; rfl) (fun _ => rfl)
        fun _ => id

theorem offhand_localType : Offhand fun p => localType locals p index := by
  cases hlocal : locals[index.toNat]? with
  | some t => exact .known t fun p => by simp only [localType, hlocal]
  | none =>
      exact .refused _ (fun p => by simp only [localType, hlocal]; rfl) (fun _ => rfl)
        fun _ => id

theorem Offhand.discard {α : Type} {x : Nat → Except VerifyError α} (hx : Offhand x) :
    Offhand fun p => Functor.discard (x p) := by
  cases hx with
  | known a hx => exact .known () fun p => by rw [hx]; rfl
  | refused e hx hplace hnot =>
      exact .refused e (fun p => by rw [hx]; rfl) hplace hnot

end

/-! ## §4  Instructions -/

section

variable {args locals : Array TypeSig}

theorem acts_call (m : MethodRef) :
    Acts ⟨m.takes, if m.returnsValue then 1 else 0⟩ fun p stack =>
      call p m stack := by
  have hresult : Acts ⟨0, if m.returnsValue then 1 else 0⟩
      fun _ stack =>
        .ok (if m.returnsValue then m.returnType.stackKind :: stack else stack) := by
    cases m.returnsValue with
    | true => exact acts_push [m.returnType.stackKind]
    | false => exact acts_push []
  have hparams :
      m.params.length = (m.params.reverse.map TypeSig.stackKind).length := by simp
  rw [MethodRef.takes, Nat.add_comm, hparams]
  refine acts_takeKinds _ ?_
  cases m.hasThis with
  | false => exact hresult
  | true =>
      refine acts_take fun receiver => ?_
      by_cases hreceiver : receiver = .objectRef ∨ receiver = .managedPtr
      · simp only [if_pos hreceiver]
        exact hresult
      · simp only [if_neg hreceiver]
        exact acts_refusal (fun _ => rfl) fun _ => id

theorem acts_newobj (m : MethodRef) :
    Acts ⟨m.params.length, 1⟩ fun p stack => newobj p m stack := by
  have hparams :
      m.params.length = 0 + (m.params.reverse.map TypeSig.stackKind).length := by simp
  rw [hparams]
  exact acts_takeKinds _
    (acts_push [if m.declaringType.isValueType then .value else .objectRef])

theorem acts_box : Acts ⟨1, 1⟩ fun p stack => box p stack := by
  refine acts_take fun k => ?_
  cases k
  case managedPtr => exact acts_refusal (fun _ => rfl) fun _ => id
  all_goals exact acts_push [.objectRef]

theorem acts_arithmetic : Acts ⟨2, 1⟩ fun p stack => arithmetic p stack :=
  acts_take fun right => acts_takeKind right fun left => acts_push [left]

section

variable {ρ : Type} {i : Instruction ρ} {effect : StackEffect} {returnsValue : Bool}
  {position : Nat}

/-- An instruction whose operand has the shape that its opcode needs does what
its effect says, unless it empties the stack. -/
theorem acts_apply (hshape : i.isWellFormed = true)
    (hkeeps : i.op.emptiesStack = false) :
    ∃ effect, (∀ returnsValue position, i.effect returnsValue position = .ok effect) ∧
      Acts effect fun p stack => apply args locals p i stack := by
  obtain ⟨op, operand⟩ := i
  have hshape : op.shape = operand.shape := by
    simpa [Instruction.isWellFormed] using hshape
  cases op
  case ret | leave | endfinally => simp [Opcode.emptiesStack] at hkeeps
  case ldarg =>
    cases operand with
    | arg index =>
        exact ⟨_, fun _ _ => rfl,
          offhand_argType.acts fun t => acts_push [t.stackKind]⟩
    | _ => cases hshape
  case ldarga =>
    cases operand with
    | arg index =>
        exact ⟨_, fun _ _ => rfl,
          offhand_argType.discard.acts fun _ => acts_push [.managedPtr]⟩
    | _ => cases hshape
  case starg =>
    cases operand with
    | arg index =>
        exact ⟨_, fun _ _ => rfl,
          offhand_argType.acts fun t => acts_takeKinds_all [t.stackKind]⟩
    | _ => cases hshape
  case ldloc =>
    cases operand with
    | «local» index =>
        exact ⟨_, fun _ _ => rfl,
          offhand_localType.acts fun t => acts_push [t.stackKind]⟩
    | _ => cases hshape
  case ldloca =>
    cases operand with
    | «local» index =>
        exact ⟨_, fun _ _ => rfl,
          offhand_localType.discard.acts fun _ => acts_push [.managedPtr]⟩
    | _ => cases hshape
  case stloc =>
    cases operand with
    | «local» index =>
        exact ⟨_, fun _ _ => rfl,
          offhand_localType.acts fun t => acts_takeKinds_all [t.stackKind]⟩
    | _ => cases hshape
  case call | callvirt =>
    cases operand with
    | method m => exact ⟨_, fun _ _ => rfl, acts_call m⟩
    | _ => cases hshape
  case newobj =>
    cases operand with
    | method m => exact ⟨_, fun _ _ => rfl, acts_newobj m⟩
    | _ => cases hshape
  case ldfld =>
    cases operand with
    | field f =>
        exact ⟨_, fun _ _ => rfl,
          acts_take fun _ => acts_push [f.fieldType.stackKind]⟩
    | _ => cases hshape
  case stfld =>
    cases operand with
    | field f =>
        exact ⟨_, fun _ _ => rfl,
          acts_takeKinds [f.fieldType.stackKind] (acts_takeMany_all 1)⟩
    | _ => cases hshape
  case ldsfld =>
    cases operand with
    | field f => exact ⟨_, fun _ _ => rfl, acts_push [f.fieldType.stackKind]⟩
    | _ => cases hshape
  case stsfld =>
    cases operand with
    | field f => exact ⟨_, fun _ _ => rfl, acts_takeKinds_all [f.fieldType.stackKind]⟩
    | _ => cases hshape
  case unboxAny =>
    cases operand with
    | type t =>
        exact ⟨_, fun _ _ => rfl,
          acts_takeKinds [.objectRef] (acts_push [t.stackKind])⟩
    | _ => cases hshape
  case ldobj =>
    cases operand with
    | type t =>
        exact ⟨_, fun _ _ => rfl,
          acts_takeKinds [.managedPtr] (acts_push [t.stackKind])⟩
    | _ => cases hshape
  case ldnull | ldstr | ldcI4 | ldcI8 | ldcR8 =>
    exact ⟨_, fun _ _ => rfl, acts_push [_]⟩
  case dup => exact ⟨_, fun _ _ => rfl, acts_take fun top => acts_push [top, top]⟩
  case neg => exact ⟨_, fun _ _ => rfl, acts_take fun top => acts_push [top]⟩
  case newarr =>
    exact ⟨_, fun _ _ => rfl, acts_takeKinds [.int32] (acts_push [.objectRef])⟩
  case ldlen =>
    exact ⟨_, fun _ _ => rfl, acts_takeKinds [.objectRef] (acts_push [.nativeInt])⟩
  case ldelemRef =>
    exact ⟨_, fun _ _ => rfl,
      acts_takeKinds [.int32, .objectRef] (acts_push [.objectRef])⟩
  case stelemRef =>
    exact ⟨_, fun _ _ => rfl, acts_takeKinds_all [.objectRef, .int32, .objectRef]⟩
  case castclass | isinst =>
    exact ⟨_, fun _ _ => rfl, acts_takeKinds [.objectRef] (acts_push [.objectRef])⟩
  case box => exact ⟨_, fun _ _ => rfl, acts_box⟩
  case add | sub | mul | div | rem => exact ⟨_, fun _ _ => rfl, acts_arithmetic⟩
  case ceq | cgt | clt =>
    exact ⟨_, fun _ _ => rfl, acts_takeMany 2 (acts_push [.int32])⟩
  -- the rest are branches and the like, which only take what their opcode says
  all_goals exact ⟨_, fun _ _ => rfl, acts_takeMany_all _⟩

/-- An instruction that does not empty the stack does what its effect says, or
is refused wherever it stands because its operand does not fit. -/
theorem acts_step (args locals : Array TypeSig) (hkeeps : i.op.emptiesStack = false) :
    (∃ effect,
      (∀ returnsValue position, i.effect returnsValue position = .ok effect) ∧
      Acts effect fun p stack => step args locals p i stack) ∨
    ∀ p stack, step args locals p i stack = .error (.malformedOperand i.op p) := by
  by_cases hshape : i.isWellFormed = true
  · simp only [step, if_pos hshape]
    exact .inl (acts_apply hshape hkeeps)
  · exact .inr fun p stack => if_neg hshape

end

end

/-! ## §5  Sequences -/

section

variable {ρ : Type} {args locals : Array TypeSig}
  {position : Nat} {stack after : KindStack} {i : Instruction ρ}
  {code front back : List (Instruction ρ)}

theorem run_cons :
    run args locals position (i :: code) stack =
      (step args locals position i stack).bind
        (run args locals (position + 1) code) :=
  rfl

theorem run_append :
    ∀ (front : List (Instruction ρ)) (position : Nat) (stack : KindStack),
    run args locals position (front ++ back) stack =
      (run args locals position front stack).bind
        (run args locals (position + front.length) back)
  | [], _, _ => rfl
  | i :: front, position, stack => by
      rw [List.cons_append, run_cons, run_cons, List.length_cons]
      cases step args locals position i stack with
      | error e => rfl
      | ok after =>
          have hrest := run_append front (position + 1) after
          rwa [Nat.add_right_comm, Nat.add_assoc] at hrest

theorem run_cons_of_ok (hstep : step args locals position i stack = .ok after) :
    run args locals position (i :: code) stack =
      run args locals (position + 1) code after := by
  rw [run_cons, hstep, Except.bind]

theorem run_append_of_ok (hfront : run args locals position front stack = .ok after) :
    run args locals position (front ++ back) stack =
      run args locals (position + front.length) back after := by
  rw [run_append, hfront, Except.bind]

theorem run_cons_eq_ok :
    run args locals position (i :: code) stack = .ok after ↔
      ∃ mid, step args locals position i stack = .ok mid ∧
        run args locals (position + 1) code mid = .ok after := by
  rw [run_cons]
  cases step args locals position i stack with
  | error e => simp [Except.bind]
  | ok mid => simp [Except.bind]

/-- Code that does not empty the stack runs on top of any other stack as well,
at any position, and leaves that one below. -/
theorem run_onTop (hkeeps : ∀ i ∈ code, i.op.emptiesStack = false)
    (hrun : run args locals position code stack = .ok after) (q : Nat)
    (below : KindStack) :
    run args locals q code (stack ++ below) = .ok (after ++ below) := by
  induction code generalizing position stack q with
  | nil =>
      obtain rfl : stack = after := Except.ok.inj hrun
      rfl
  | cons i code ih =>
      obtain ⟨hfirst, hrest⟩ := List.forall_mem_cons.mp hkeeps
      obtain ⟨mid, hstep, hlater⟩ := run_cons_eq_ok.mp hrun
      rcases acts_step args locals hfirst with ⟨effect, -, hacts⟩ | hrefused
      · rw [run_cons_of_ok (hacts.onTop hstep q below)]
        exact ih hrest hlater (q + 1)
      · simp [hrefused] at hstep

theorem finalStack_eq_ok {kinds : List StackKind} :
    finalStack code args locals = .ok kinds ↔
      run args locals 0 code [] = .ok kinds.reverse := by
  rw [finalStack]
  cases run args locals 0 code [] with
  | error e => simp [Except.map]
  | ok after => simp [Except.map, List.reverse_eq_iff]

/-- If two sequences can each be typed from an empty stack on, and the second
one does not empty the stack, then the second can be typed after the first: what
it leaves comes to lie on what the first has left. -/
theorem finalStack_on_top (front code : List (Instruction ρ))
    (args locals : Array TypeSig) (base top : List StackKind)
    (hkeeps : ∀ i ∈ code, i.op.emptiesStack = false)
    (hfront : finalStack front args locals = .ok base)
    (hcode : finalStack code args locals = .ok top) :
    finalStack (front ++ code) args locals = .ok (base ++ top) := by
  rw [finalStack_eq_ok] at hfront hcode ⊢
  rw [run_append_of_ok hfront, List.reverse_append]
  exact run_onTop hkeeps hcode _ base.reverse

end

def twoConstants : List (Instruction Handle) := [.ldstr "total", .ldcI4 7]

/-- Stores the second argument, boxed, in a new array of as many objects as the
first one says. -/
def storingArgument : List (Instruction Handle) :=
  [.ldarg 0, .onType .newarr .object, ⟨.dup, .none⟩, .ldcI4 0, .ldarg 1,
    .onType .box (.primitive .int64), ⟨.stelemRef, .none⟩]

theorem finalStack_on_top_storing :
    finalStack twoConstants #[.primitive .int32, .primitive .int64] #[] =
      .ok [.objectRef, .int32] ∧
    finalStack storingArgument #[.primitive .int32, .primitive .int64] #[] =
      .ok [.objectRef] ∧
    finalStack (twoConstants ++ storingArgument)
        #[.primitive .int32, .primitive .int64] #[] =
      .ok [.objectRef, .int32, .objectRef] :=
  ⟨rfl, rfl, finalStack_on_top twoConstants storingArgument _ _
    [.objectRef, .int32] [.objectRef] (by decide) rfl rfl⟩

end StackTyping

end Instrumentation
