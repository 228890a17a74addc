import Instrumentation.LogCall
import Mathlib.Data.List.Basic

/-!
# Format texts read back

A format text sets down the names of parameters and their numbered placeholders
one after the other and escapes nothing. Whoever reads it cannot go by the
separators then: a name may be empty, or hold commas, equals signs and digits.
The placeholders are found all the same, for nothing but a placeholder has an
opening brace as long as no name has one, and what stands between two of them is
a name with a separator and an equals sign of known length. So names without
opening braces are read back, and texts of different names differ.

Sections: §1 scanning · §2 what is written · §3 reading back.
-/

namespace Instrumentation

namespace FormatText

/-! ## §1  Scanning -/

/-- The placeholder that a text begins with, digits between braces: its number
and what comes after it. -/
def leading? : List Char → Option (Nat × List Char)
  | '\x7b' :: rest =>
    match rest.takeWhile Char.isDigit, rest.dropWhile Char.isDigit with
    | d :: ds, '\x7d' :: after => some (Nat.ofDigitChars 10 (d :: ds) 0, after)
    | _, _ => none
  | _ => none

theorem length_lt_of_leading? {text after : List Char} {n : Nat}
    (h : leading? text = some (n, after)) : after.length < text.length := by
  unfold leading? at h
  split at h
  · rename_i rest
    split at h
    · rename_i d ds after' hdigits hafter
      obtain ⟨-, rfl⟩ := Prod.mk.inj (Option.some.inj h)
      have hle := (List.dropWhile_suffix (l := rest) Char.isDigit).length_le
      rw [hafter, List.length_cons] at hle
      rw [List.length_cons]
      omega
    · cases h
  · cases h

/-- The text in front of a placeholder, from the one before it on, and the
number in the placeholder. -/
structure Piece where
  text : String
  ordinal : Nat
deriving DecidableEq

/-- Scans a text from left to right for placeholders, with the characters read
since the last one. What is left over behind them all comes second. -/
def scanFrom (read : List Char) : List Char → List Piece × String
  | [] => ([], .ofList read)
  | c :: rest =>
    match h : leading? (c :: rest) with
    | some (n, after) =>
      have : after.length < rest.length + 1 := length_lt_of_leading? h
      let (pieces, last) := scanFrom [] after
      (⟨.ofList read, n⟩ :: pieces, last)
    | none => scanFrom (read ++ [c]) rest
termination_by text => text.length

def scan (text : String) : List Piece × String := scanFrom [] text.toList

/-- The names in a format text: what stands in front of its placeholders,
without the separator, which the first one has not, and without the equals sign. -/
def names (text : String) : List String :=
  (scan text).1.map fun piece =>
    .ofList (piece.text.toList.drop (if piece.ordinal = 0 then 0 else 2)).dropLast

theorem leading?_of_ne {c : Char} {rest : List Char} (hc : c ≠ '\x7b') :
    leading? (c :: rest) = none := by
  unfold leading?
  split
  · rename_i heq
    exact absurd (List.cons.inj heq).1 hc
  · rfl

theorem leading?_digits (n : Nat) (after : List Char) :
    leading? ('\x7b' :: (Nat.toDigits 10 n ++ '\x7d' :: after)) =
      some (n, after) := by
  have hdigits : ∀ c ∈ Nat.toDigits 10 n, c.isDigit = true :=
    fun c hc => Nat.isDigit_of_mem_toDigits (by decide) (by decide) hc
  obtain ⟨d, ds, hds⟩ :=
    List.exists_cons_of_ne_nil (Nat.toDigits_ne_nil (n := n) (b := 10))
  have htake :
      (Nat.toDigits 10 n ++ '\x7d' :: after).takeWhile Char.isDigit = d :: ds := by
    rw [List.takeWhile_append_of_pos hdigits, List.takeWhile_cons_of_neg (by decide),
      List.append_nil, hds]
  have hdrop : (Nat.toDigits 10 n ++ '\x7d' :: after).dropWhile Char.isDigit =
      '\x7d' :: after := by
    rw [List.dropWhile_append_of_pos hdigits, List.dropWhile_cons_of_neg (by decide)]
  have hvalue : Nat.ofDigitChars 10 (d :: ds) 0 = n := by
    rw [← hds, Nat.ofDigitChars_ten_toDigits]
  simp only [leading?, htake, hdrop, hvalue]

/-- Text without an opening brace is passed over. -/
theorem scanFrom_plain {plain : List Char} (hplain : '\x7b' ∉ plain)
    (read rest : List Char) :
    scanFrom read (plain ++ rest) = scanFrom (read ++ plain) rest := by
  induction plain generalizing read with
  | nil => rw [List.nil_append, List.append_nil]
  | cons c plain ih =>
    obtain ⟨hc, hplain⟩ := List.ne_and_not_mem_of_not_mem_cons hplain
    rw [List.cons_append, scanFrom]
    split
    · rename_i hleading
      rw [leading?_of_ne (Ne.symm hc)] at hleading
      cases hleading
    · rw [ih hplain, List.append_assoc, List.singleton_append]

/-- A placeholder ends the piece that is being read. -/
theorem scanFrom_digits (read : List Char) (n : Nat) (after : List Char) :
    scanFrom read ('\x7b' :: (Nat.toDigits 10 n ++ '\x7d' :: after)) =
      (⟨.ofList read, n⟩ :: (scanFrom [] after).1, (scanFrom [] after).2) := by
  rw [scanFrom]
  split
  · rename_i hleading
    rw [leading?_digits] at hleading
    obtain ⟨rfl, rfl⟩ := Prod.mk.inj (Option.some.inj hleading)
    rfl
  · rename_i hleading
    rw [leading?_digits] at hleading
    cases hleading

/-! ## §2  What is written -/

def label (name : String) (ordinal : Nat) : String :=
  (if ordinal = 0 then "" else ", ") ++ name ++ "="

theorem toList_label (name : String) (ordinal : Nat) :
    (label name ordinal).toList =
      (if ordinal = 0 then [] else [',', ' ']) ++ name.toList ++ ['='] := by
  rw [label]
  split <;> simp

theorem toList_placeholder (name : String) (ordinal : Nat) :
    (placeholder name ordinal).toList =
    name.toList ++ '=' :: '\x7b' :: (Nat.toDigits 10 ordinal ++ ['\x7d']) := by
  simp [placeholder]

/-- A list of texts with a separator between them is the first one, and the
others each behind a separator. -/
theorem intercalate_cons_eq_flatMap {α : Type} (sep first : List α)
    (others : List (List α)) :
    sep.intercalate (first :: others) = first ++ others.flatMap (sep ++ ·) := by
  induction others generalizing first with
  | nil => simp [List.intercalate]
  | cons second others ih =>
    rw [List.intercalate_cons_cons, ih, List.flatMap_cons,
      List.append_assoc, List.append_assoc]

theorem toList_formatText {β : Type} (m : MethodDef β) :
    m.formatText.toList = m.params.zipIdx.flatMap fun x =>
      (label x.1.name x.2).toList ++ '\x7b' :: (Nat.toDigits 10 x.2 ++ ['\x7d']) := by
  rw [MethodDef.formatText, String.toList_intercalate, List.map_map]
  cases m.params with
  | nil => rfl
  | cons p params =>
    rw [List.zipIdx_cons, List.map_cons, intercalate_cons_eq_flatMap,
      List.flatMap_map, List.flatMap_cons]
    congr 1
    · simp [toList_placeholder, toList_label]
    · refine List.flatMap_congr fun x hx => ?_
      have hlater : x.2 ≠ 0 := by
        have := List.le_snd_of_mem_zipIdx hx
        omega
      simp [toList_placeholder, toList_label, hlater]

/-! ## §3  Reading back -/

theorem scanFrom_params (params : List ParamDef)
    (hparams : ∀ p ∈ params, '\x7b' ∉ p.name.toList) (k : Nat) :
    scanFrom [] ((params.zipIdx k).flatMap fun x =>
        (label x.1.name x.2).toList ++ '\x7b' :: (Nat.toDigits 10 x.2 ++ ['\x7d'])) =
      ((params.zipIdx k).map fun x => ⟨label x.1.name x.2, x.2⟩, "") := by
  induction params generalizing k with
  | nil => simp [scanFrom]
  | cons p params ih =>
    obtain ⟨hp, hparams⟩ := List.forall_mem_cons.mp hparams
    have hplain : '\x7b' ∉ (label p.name k).toList := by
      rw [toList_label]
      split <;> simp [hp]
    rw [List.zipIdx_cons, List.flatMap_cons, List.append_assoc, scanFrom_plain hplain,
      List.nil_append, List.cons_append, List.append_assoc, List.singleton_append,
      scanFrom_digits, ih hparams (k + 1), String.ofList_toList]
    rfl

theorem scan_formatText {β : Type} {m : MethodDef β}
    (hm : ∀ p ∈ m.params, '\x7b' ∉ p.name.toList) :
    scan m.formatText =
      (m.params.zipIdx.map fun x => ⟨label x.1.name x.2, x.2⟩, "") := by
  rw [scan, toList_formatText, scanFrom_params m.params hm]

theorem names_formatText {β : Type} {m : MethodDef β}
    (hm : ∀ p ∈ m.params, '\x7b' ∉ p.name.toList) :
    names m.formatText = m.params.map (·.name) := by
  have hname (x : ParamDef × Nat) :
      ((label x.1.name x.2).toList.drop (if x.2 = 0 then 0 else 2)).dropLast =
        x.1.name.toList := by
    rw [toList_label]
    split <;> simp
  calc names m.formatText
      = m.params.zipIdx.map fun x => x.1.name := by
        rw [names, scan_formatText hm, List.map_map]
        simp only [Function.comp_def, hname, String.ofList_toList]
    _ = (m.params.zipIdx.map Prod.fst).map (·.name) := by
        rw [List.map_map]
        rfl
    _ = m.params.map (·.name) := by
        rw [List.zipIdx_map_fst]

end FormatText

/-- A format text of names without opening braces has one placeholder per
parameter, numbered from nothing on, and the names stand between them, each
behind a separator unless it is the first and in front of an equals sign. So the
names can be read back, and two methods with the same format text have
parameters of the same names. -/
theorem MethodDef.formatText_read_back {β γ : Type} (m : MethodDef β)
    (m' : MethodDef γ) (hm : ∀ p ∈ m.params, '\x7b' ∉ p.name.toList)
    (hm' : ∀ p ∈ m'.params, '\x7b' ∉ p.name.toList) :
    (FormatText.scan m.formatText).1.map (·.ordinal) = List.range m.params.length ∧
    FormatText.scan m.formatText = (m.params.zipIdx.map fun (p, ordinal) =>
      ⟨(if ordinal = 0 then "" else ", ") ++ p.name ++ "=", ordinal⟩, "") ∧
    FormatText.names m.formatText = m.params.map (·.name) ∧
    (m'.formatText = m.formatText →
      m'.params.map (·.name) = m.params.map (·.name)) := by
  have hscan := FormatText.scan_formatText hm
  refine ⟨?_, hscan, FormatText.names_formatText hm, fun hsame => ?_⟩
  · rw [hscan, List.map_map, List.range_eq_range']
    exact List.zipIdx_map_snd 0 m.params
  · calc m'.params.map (·.name)
        = FormatText.names m'.formatText := (FormatText.names_formatText hm').symm
      _ = FormatText.names m.formatText := by rw [hsame]
      _ = m.params.map (·.name) := FormatText.names_formatText hm

/-- A method whose parameters have names that look like parts of a format text,
or none. -/
def oddlyNamedMethod (type : TypeSig) : MethodDef Body :=
  { name := "Send", visibility := .publicAccess, isStatic := false,
    genericParams := []
    params := ["", "a=, b", "=", "3\x7d", ""].map fun name => ⟨name, type⟩
    returnType := .void, body? := none }

theorem formatText_read_back_oddlyNamed :
    FormatText.scan (oddlyNamedMethod .string).formatText =
      ([⟨"=", 0⟩, ⟨", a=, b=", 1⟩, ⟨", ==", 2⟩, ⟨", 3\x7d=", 3⟩, ⟨", =", 4⟩], "") ∧
    FormatText.names (oddlyNamedMethod .string).formatText =
      ["", "a=, b", "=", "3\x7d", ""] ∧
    (oddlyNamedMethod .object).params.map (·.name) =
      (oddlyNamedMethod .string).params.map (·.name) := by
  obtain ⟨-, hscan, hnames, hsame⟩ := MethodDef.formatText_read_back
    (oddlyNamedMethod .string) (oddlyNamedMethod .object) (by decide) (by decide)
  exact ⟨hscan, hnames, hsame rfl⟩

end Instrumentation
