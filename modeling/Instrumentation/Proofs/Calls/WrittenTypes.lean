import Instrumentation.CallableSearch

/-!
# Types that are told by their texts

A pattern gives the types of parameters by their full names, so a method fits if
its types are written like this, whatever they are. What is written is less than
what a type is: a named type has the same text as a value and as a reference,
the text does not say which of its dots ends the namespace, and a name may hold
any text, that of a primitive type or of an array among them. The other types
cannot be mistaken for one another as long as the text has none of the marks by
which constructed types and generic parameters are told.

For the usual pattern this leaves the types that it has in mind and some named
types that look like them.

Sections: §1 names · §2 signatures · §3 patterns.
-/

namespace Instrumentation

/-! ## §1  Names -/

namespace TypeName

variable {n : TypeName} {text : String}

/-- All that can be written as a text: the text may be a name in the global
namespace, and what follows one of its dots may be a name in the namespace
before that dot, unless nothing stands there. -/
def readings (text : String) : List TypeName :=
  ⟨"", text⟩ ::
    ((List.range text.toList.length).filter fun i =>
      0 < i ∧ text.toList[i]? = some '.').map fun i =>
      ⟨.ofList (text.toList.take i), .ofList (text.toList.drop (i + 1))⟩

theorem mem_readings :
    n ∈ readings text ↔ n = ⟨"", text⟩ ∨
      ∃ i, 0 < i ∧ text.toList[i]? = some '.' ∧
        n = ⟨.ofList (text.toList.take i), .ofList (text.toList.drop (i + 1))⟩ := by
  simp only [readings, List.mem_cons, List.mem_map, List.mem_filter,
    List.mem_range, decide_eq_true_eq]
  refine or_congr_right ⟨?_, ?_⟩
  · rintro ⟨i, ⟨-, hpos, hdot⟩, rfl⟩
    exact ⟨i, hpos, hdot, rfl⟩
  · rintro ⟨i, hpos, hdot, rfl⟩
    exact ⟨i, ⟨(List.getElem?_eq_some_iff.mp hdot).1, hpos, hdot⟩, rfl⟩

theorem toList_fullName (hspace : n.space ≠ "") :
    n.fullName.toList = n.space.toList ++ '.' :: n.name.toList := by
  have hsome : n.space.isEmpty = false := by simpa using hspace
  simp [fullName, hsome, String.toList_append]

theorem fullName_eq_iff : n.fullName = text ↔ n ∈ readings text := by
  rw [mem_readings]
  constructor
  · rintro rfl
    by_cases hspace : n.space = ""
    · left
      obtain ⟨space, name⟩ := n
      obtain rfl : space = "" := hspace
      rfl
    · right
      have hpos : 0 < n.space.toList.length := by
        rw [List.length_pos_iff]
        simpa using hspace
      refine ⟨n.space.toList.length, hpos, ?_, ?_⟩
      · simp [toList_fullName hspace]
      · simp [toList_fullName hspace]
  · rintro (rfl | ⟨i, hpos, hdot, rfl⟩)
    · rfl
    · obtain ⟨hi, hdot⟩ := List.getElem?_eq_some_iff.mp hdot
      have hspace : String.ofList (text.toList.take i) ≠ "" := by
        intro hnone
        have hlength := congrArg (fun s => s.toList.length) hnone
        simp only [String.toList_ofList, List.length_take,
          String.toList_empty, List.length_nil] at hlength
        omega
      rw [← String.toList_inj, toList_fullName hspace, String.toList_ofList,
        String.toList_ofList, ← hdot, ← List.drop_eq_getElem_cons hi,
        List.take_append_drop]

example : readings "System.String" =
    [⟨"", "System.String"⟩, ⟨"System", "String"⟩] := by decide

end TypeName

/-! ## §2  Signatures -/

theorem Primitive.fullName_inj {p q : Primitive} :
    p.fullName = q.fullName ↔ p = q := by
  cases p <;> cases q <;> decide

theorem Primitive.getLast?_fullName (p : Primitive) :
    p.fullName.toList.getLast? ≠ some ']' := by
  cases p <;> decide

namespace TypeSig

variable {t : TypeSig} {text : String}

/-- Whether a type goes by one of several names, be it a reference or a value
type. -/
def IsNamed (t : TypeSig) (names : List TypeName) : Prop :=
  ∃ n ∈ names, t = .reference n ∨ t = .value n

theorem fullName_of_isNamed (hnamed : t.IsNamed (TypeName.readings text)) :
    t.fullName = text := by
  obtain ⟨n, hn, rfl | rfl⟩ := hnamed <;> exact TypeName.fullName_eq_iff.mpr hn

theorem isNamed_of_fullName {n : TypeName} (ht : t = .reference n ∨ t = .value n)
    (htext : t.fullName = text) : t.IsNamed (TypeName.readings text) := by
  refine ⟨n, TypeName.fullName_eq_iff.mp ?_, ht⟩
  rcases ht with rfl | rfl <;> exact htext

theorem getLast?_append (stem : String) {ending : String} {c : Char}
    (hlast : ending.toList.getLast? = some c) :
    (stem ++ ending).toList.getLast? = some c := by
  rw [String.toList_append, List.getLast?_append, hlast, Option.some_or]

/-- A type that is neither primitive nor named has a mark in its text: at the
end if it is constructed from others, at the beginning if it is a generic
parameter. -/
theorem shape_of_fullName (t : TypeSig) :
    (∃ p, t = .primitive p) ∨ (∃ n, t = .reference n ∨ t = .value n) ∨
      (∃ e, t = .array e) ∨
      t.fullName.toList.getLast? = some '>' ∨ t.fullName.toList.getLast? = some '&' ∨
      t.fullName.toList.head? = some '!' := by
  cases t with
  | primitive p => exact .inl ⟨p, rfl⟩
  | reference n => exact .inr (.inl ⟨n, .inl rfl⟩)
  | value n => exact .inr (.inl ⟨n, .inr rfl⟩)
  | array e => exact .inr (.inr (.inl ⟨e, rfl⟩))
  | generic d isValue args => exact .inr (.inr (.inr (.inl (getLast?_append _ rfl))))
  | byRef e => exact .inr (.inr (.inr (.inr (.inl (getLast?_append _ rfl)))))
  | typeParam i =>
      exact .inr (.inr (.inr (.inr (.inr
        (by simp [fullName, String.toList_append])))))
  | methodParam i =>
      exact .inr (.inr (.inr (.inr (.inr
        (by simp [fullName, String.toList_append])))))

/-- Whether a text has none of the marks of a constructed type or a generic
parameter. -/
def isUnmarked (text : String) : Bool :=
  text.toList.head? != some '!' &&
    [']', '>', '&'].all (text.toList.getLast? != some ·)

theorem fullName_eq_unmarked_iff (htext : isUnmarked text = true) :
    t.fullName = text ↔
    (∃ p, t = .primitive p ∧ p.fullName = text) ∨
    t.IsNamed (TypeName.readings text) := by
  simp only [isUnmarked, Bool.and_eq_true, bne_iff_ne, List.all_eq_true] at htext
  obtain ⟨hfirst, hlast⟩ := htext
  constructor
  · rintro rfl
    rcases t.shape_of_fullName with ⟨p, rfl⟩ | ⟨n, hn⟩ | ⟨e, rfl⟩ | hmark
      | hmark | hmark
    · exact .inl ⟨p, rfl, rfl⟩
    · exact .inr (isNamed_of_fullName hn rfl)
    · exact absurd (getLast?_append _ rfl) (hlast ']' (by decide))
    · exact absurd hmark (hlast '>' (by decide))
    · exact absurd hmark (hlast '&' (by decide))
    · exact absurd hmark hfirst
  · rintro (⟨p, rfl, hp⟩ | hnamed)
    · exact hp
    · exact fullName_of_isNamed hnamed

theorem fullName_eq_iff_isNamed (htext : isUnmarked text = true)
    (hnone : ∀ p : Primitive, p.fullName ≠ text) :
    t.fullName = text ↔ t.IsNamed (TypeName.readings text) := by
  rw [fullName_eq_unmarked_iff htext, or_iff_right]
  rintro ⟨p, -, hp⟩
  exact hnone p hp

theorem fullName_eq_primitive_iff (p : Primitive)
    (htext : isUnmarked p.fullName = true) :
    t.fullName = p.fullName ↔
      t = .primitive p ∨ t.IsNamed (TypeName.readings p.fullName) := by
  simp only [fullName_eq_unmarked_iff htext, Primitive.fullName_inj, exists_eq_right]

theorem fullName_eq_array_iff (text : String) (htext : text.toList.head? ≠ some '!') :
    t.fullName = text ++ "[]" ↔
    (∃ e, t = .array e ∧ e.fullName = text) ∨
    t.IsNamed (TypeName.readings (text ++ "[]")) := by
  constructor
  · intro heq
    have hlast : t.fullName.toList.getLast? = some ']' :=
      heq ▸ getLast?_append text rfl
    rcases t.shape_of_fullName with ⟨p, rfl⟩ | ⟨n, hn⟩ | ⟨e, rfl⟩ | hmark
      | hmark | hmark
    · exact absurd hlast p.getLast?_fullName
    · exact .inr (isNamed_of_fullName hn heq)
    · exact .inl ⟨e, rfl, (String.append_left_inj _).mp heq⟩
    · exact absurd (hmark.symm.trans hlast) (by decide)
    · exact absurd (hmark.symm.trans hlast) (by decide)
    · rw [heq, String.toList_append, List.head?_append] at hmark
      cases hfirst : text.toList.head? with
      | none => simp [hfirst] at hmark
      | some c => simp_all
  · rintro (⟨e, rfl, rfl⟩ | hnamed)
    · rfl
    · exact fullName_of_isNamed hnamed

end TypeSig

/-! ## §3  Patterns -/

section

variable {β : Type}

theorem MethodPattern.parametersFit_iff {names : List String}
    {params : List ParamDef} :
    parametersFit names params = true ↔
      names <+: params.map (·.paramType.fullName) := by
  induction names generalizing params with
  | nil => simp [parametersFit]
  | cons name names ih =>
    cases params with
    | nil => simp [parametersFit]
    | cons param params =>
      rw [List.map_cons, List.cons_prefix_cons, ← ih]
      simp only [parametersFit, List.length_cons, Nat.add_le_add_iff_right,
        List.zip_cons_cons, List.all_cons, Bool.and_eq_true,
        decide_eq_true_eq, beq_iff_eq]
      rw [and_left_comm, eq_comm]

theorem MethodPattern.fits_iff {p : MethodPattern} {m : MethodDef β} :
    p.fits m = true ↔
    m.isStatic = true ∧ m.genericParams = [] ∧ m.name = p.method ∧
      p.parameters <+: m.params.map (·.paramType.fullName) := by
  simp only [fits, Bool.and_eq_true, parametersFit_iff, MethodDef.isGeneric,
    Bool.not_not, List.isEmpty_iff, beq_iff_eq, and_assoc]

end

theorem cons_prefix_map_iff {α γ : Type} {f : α → γ} {y : γ} {ys : List γ}
    {xs : List α} :
    y :: ys <+: xs.map f ↔
      ∃ x rest, xs = x :: rest ∧ f x = y ∧ ys <+: rest.map f := by
  cases xs with
  | nil => simp
  | cons x rest =>
    rw [List.map_cons, List.cons_prefix_cons]
    constructor
    · rintro ⟨rfl, hrest⟩
      exact ⟨x, rest, rfl, rfl, hrest⟩
    · rintro ⟨_, _, hcons, rfl, hrest⟩
      obtain ⟨rfl, rfl⟩ := List.cons.inj hcons
      exact ⟨rfl, hrest⟩

/-- A method fits the usual pattern if it is a static one of the right name
whose leading types are a logger, a text and an array of objects, or go by names
that are written like these. -/
theorem MethodPattern.fits_usual_iff {β : Type} (m : MethodDef β) :
    fits {} m = true ↔
      m.isStatic = true ∧ m.genericParams = [] ∧ m.name = "LogInformation" ∧
      ∃ logger message args others, m.params = logger :: message :: args :: others ∧
        logger.paramType.IsNamed [⟨"", "Microsoft.Extensions.Logging.ILogger"⟩,
          ⟨"Microsoft", "Extensions.Logging.ILogger"⟩,
          ⟨"Microsoft.Extensions", "Logging.ILogger"⟩,
          ⟨"Microsoft.Extensions.Logging", "ILogger"⟩] ∧
        (message.paramType = .string ∨
          message.paramType.IsNamed [⟨"", "System.String"⟩, ⟨"System", "String"⟩]) ∧
        ((∃ e, args.paramType = .array e ∧
            (e = .object ∨ e.IsNamed [⟨"", "System.Object"⟩, ⟨"System", "Object"⟩])) ∨
          args.paramType.IsNamed
            [⟨"", "System.Object[]"⟩, ⟨"System", "Object[]"⟩]) := by
  have hlogger (t : TypeSig) :
      t.fullName = "Microsoft.Extensions.Logging.ILogger" ↔ t.IsNamed _ :=
    TypeSig.fullName_eq_iff_isNamed (by decide) (by intro p; cases p <;> decide)
  have hmessage (t : TypeSig) :
      t.fullName = "System.String" ↔ t = .string ∨ t.IsNamed _ :=
    TypeSig.fullName_eq_primitive_iff .string (by decide)
  have hobject (e : TypeSig) :
      e.fullName = "System.Object" ↔ e = .object ∨ e.IsNamed _ :=
    TypeSig.fullName_eq_primitive_iff .object (by decide)
  have hargs (t : TypeSig) :
      t.fullName = "System.Object[]" ↔
        (∃ e, t = .array e ∧ e.fullName = "System.Object") ∨ t.IsNamed _ :=
    TypeSig.fullName_eq_array_iff "System.Object" (by decide)
  rw [fits_iff]
  refine and_congr_right' (and_congr_right' (and_congr_right' ?_))
  simp only [cons_prefix_map_iff, hlogger, hmessage, hargs, hobject]
  constructor
  · rintro ⟨logger, -, hparams, h₁, message, -, rfl, h₂, args, others, rfl, h₃, -⟩
    exact ⟨logger, message, args, others, hparams, h₁, h₂, h₃⟩
  · rintro ⟨logger, message, args, others, hparams, h₁, h₂, h₃⟩
    exact ⟨logger, _, hparams, h₁, message, _, rfl, h₂, args, others, rfl,
      h₃, List.nil_prefix⟩

/-- A method whose types are written like those of the usual pattern and are
none of them: a value type, a type of the name of texts, and one whose name has
the brackets of an array. -/
def lookalikeMethod : MethodDef StoredBody :=
  { name := "LogInformation", visibility := .publicAccess, isStatic := true,
    genericParams := []
    params := [⟨"logger", .value ⟨"Microsoft.Extensions.Logging", "ILogger"⟩⟩,
      ⟨"message", .reference ⟨"System", "String"⟩⟩,
      ⟨"args", .reference ⟨"System", "Object[]"⟩⟩]
    returnType := .void, body? := none }

theorem lookalike_fits_usual :
    ¬ ∀ m : MethodDef StoredBody, MethodPattern.fits {} m = true ↔
    m.isStatic = true ∧ m.genericParams = [] ∧ m.name = "LogInformation" ∧
      ∃ logger message args others, m.params = logger :: message :: args :: others ∧
        logger.paramType = .reference ⟨"Microsoft.Extensions.Logging", "ILogger"⟩ ∧
        message.paramType = .string ∧ args.paramType = .objects := by
  intro halways
  have hfits : MethodPattern.fits {} lookalikeMethod = true := by decide
  obtain ⟨-, -, -, logger, message, args, others, hparams, hlogger, -, -⟩ :=
    (halways lookalikeMethod).mp hfits
  obtain rfl := (List.cons.inj hparams).1
  cases hlogger

end Instrumentation
