import Mathlib.Data.List.TakeWhile
import Instrumentation.Json.Reader
import Instrumentation.Json.Writer

/-!
# Reading what was written

Reading the text of a value gives that value back and finds nothing after it.
Two steps carry this, each by recursion on the value: the text is cut into the
tokens of the value, wherever it ends in a character that no token goes on with,
and the tokens build the value inside whatever is open around it.

Numbers are read back where their own text is. That is proved of whole numbers
that fit a machine word; of reals it is a condition (`RealReadsBack`), since the
reader scales by powers of ten that are rounded.

Sections: §1 strings · §2 words and numerals · §3 numbers · §4 tokens of a value
· §5 building · §6 documents.
-/

namespace Instrumentation.Json

/-! ## §1  Strings -/

theorem hexDigit?_digitChar :
    ∀ d < 16, Text.hexDigit? (Nat.digitChar d) = some d := by decide

namespace Scan

theorem tokens_of_step {s : Scan} {c : Char} (next : Scan)
    (hstep : s.step c = ([], some next)) (cs : List Char) :
    s.tokens (c :: cs) = next.tokens cs := by
  rw [tokens, hstep]
  rfl

theorem tokens_digit {d : Nat} (hd : d < 16) (t : Content) (left value : Nat)
    (cs : List Char) :
    (unit t (left + 2) value).tokens (Nat.digitChar d :: cs) =
      (unit t (left + 1) (16 * value + d)).tokens cs :=
  tokens_of_step _ (by simp [step, hexDigit?_digitChar d hd]) cs

theorem tokens_lastDigit {d : Nat} (hd : d < 16) (t : Content) (value : Nat)
    (cs : List Char) :
    (unit t 1 value).tokens (Nat.digitChar d :: cs) =
      (string (t.pushUnit (16 * value + d))).tokens cs :=
  tokens_of_step _ (by simp [step, hexDigit?_digitChar d hd]) cs

/-- Four digits give the unit that they write. -/
theorem tokens_hexUnit {u : Nat} (hu : u < 1 <<< 16) (t : Content)
    (rest : List Char) :
    (unit t 4 0).tokens (hexUnit u ++ rest) =
      (string (t.pushUnit u)).tokens rest := by
  have hvalue : 16 * (16 * (16 * (16 * 0 + (u >>> 12) % 16) + (u >>> 8) % 16) +
      (u >>> 4) % 16) + (u >>> 0) % 16 = u := by
    simp only [Nat.shiftRight_eq_div_pow, Nat.shiftLeft_eq] at *
    omega
  have hdigit (k : Nat) : (u >>> k) % 16 < 16 := Nat.mod_lt _ (by decide)
  simp only [hexUnit, List.map_cons, List.map_nil, List.cons_append, List.nil_append]
  rw [tokens_digit (hdigit 12), tokens_digit (hdigit 8), tokens_digit (hdigit 4),
    tokens_lastDigit (hdigit 0), hvalue]

/-- Inside a string, a character that has been written is read. -/
theorem tokens_escapedChar (rev : List Char) (c : Char) (rest : List Char) :
    (string ⟨rev, none, true⟩).tokens (escapedChar c ++ rest) =
      (string ⟨c :: rev, none, true⟩).tokens rest := by
  have hsimple (e : Char) (he : simpleEscape? e = some c) (hu : e ≠ 'u') :
      (string ⟨rev, none, true⟩).tokens ('\\' :: e :: rest) =
        (string ⟨c :: rev, none, true⟩).tokens rest := by
    rw [tokens_of_step (escape ⟨rev, none, true⟩) rfl]
    exact tokens_of_step (string ⟨c :: rev, none, true⟩)
      (by simp [step, he, hu, Content.push]) rest
  unfold escapedChar
  split
  · exact hsimple '"' rfl (by decide)
  · exact hsimple '\\' rfl (by decide)
  · exact hsimple 'b' rfl (by decide)
  · exact hsimple 'f' rfl (by decide)
  · exact hsimple 'n' rfl (by decide)
  · exact hsimple 'r' rfl (by decide)
  · exact hsimple 't' rfl (by decide)
  · rename_i hquote hbackslash _ _ _ _ _
    split
    · rename_i hlow
      have hunit :
          Content.pushUnit ⟨rev, none, true⟩ c.toNat = ⟨c :: rev, none, true⟩ := by
        rw [Content.pushUnit, if_neg (by omega), if_neg (by omega), Char.ofNat_toNat]
        rfl
      rw [List.cons_append, List.cons_append,
        tokens_of_step (escape ⟨rev, none, true⟩) rfl,
        tokens_of_step (unit ⟨rev, none, true⟩ 4 0) rfl,
        tokens_hexUnit (by omega), hunit]
    · rename_i hhigh
      refine tokens_of_step _ ?_ rest
      rw [step, if_neg hquote, if_neg hbackslash, if_neg hhigh]
      rfl

theorem tokens_stringChars (s : String) (rest : List Char) :
    between.tokens (stringChars s ++ rest) =
      .text (some s) :: between.tokens rest := by
  have hcontent : ∀ (cs rev : List Char),
      (string ⟨rev, none, true⟩).tokens (cs.flatMap escapedChar ++ '"' :: rest) =
        .text (some (String.ofList (rev.reverse ++ cs))) :: between.tokens rest := by
    intro cs
    induction cs with
    | nil =>
      intro rev
      simp [tokens, step, Content.finish]
    | cons c cs ih =>
      intro rev
      rw [List.flatMap_cons, List.append_assoc, tokens_escapedChar, ih]
      simp
  rw [stringChars, List.append_assoc, List.cons_append,
    tokens_of_step (string ⟨[], none, true⟩) rfl]
  simpa using hcontent s.toList []

/-! ## §2  Words and numerals -/

/-- Whether a token that ends here is complete: what follows does not go on with
a word or a numeral. -/
def EndsToken (rest : List Char) : Prop :=
  ∀ c ∈ rest.head?, c.isAlpha = false ∧ isNumeralChar c = false

theorem tokens_of_startAfter {s : Scan} {t : Token} {c : Char}
    (hstep : s.step c = startAfter t c) (cs : List Char) :
    s.tokens (c :: cs) = t :: between.tokens (c :: cs) := by
  rw [tokens, hstep, startAfter, tokens, step]
  rcases start c with ⟨ts, next | next⟩ <;> rfl

theorem tokens_word {cs rest : List Char} (hword : ∀ c ∈ cs, c.isAlpha = true)
    (hends : EndsToken rest) (rev : List Char) :
    (word rev).tokens (cs ++ rest) =
      wordToken (String.ofList (rev.reverse ++ cs)) :: between.tokens rest := by
  induction cs generalizing rev with
  | nil =>
    cases rest with
    | nil => simp [tokens, finish]
    | cons c rest =>
      have hc : c.isAlpha = false := (hends c rfl).1
      rw [List.nil_append, List.append_nil]
      exact tokens_of_startAfter (by rw [step, if_neg (by simp [hc])]) rest
  | cons c cs ih =>
    obtain ⟨hc, hcs⟩ := List.forall_mem_cons.mp hword
    rw [List.cons_append,
      tokens_of_step (word (c :: rev)) (by rw [step, if_pos hc]), ih hcs]
    simp

theorem tokens_numeral {cs rest : List Char}
    (hnumeral : ∀ c ∈ cs, isNumeralChar c = true) (hends : EndsToken rest)
    (rev : List Char) :
    (numeral rev).tokens (cs ++ rest) =
      numeralToken (rev.reverse ++ cs) :: between.tokens rest := by
  induction cs generalizing rev with
  | nil =>
    cases rest with
    | nil => simp [tokens, finish]
    | cons c rest =>
      have hc : isNumeralChar c = false := (hends c rfl).2
      rw [List.nil_append, List.append_nil]
      exact tokens_of_startAfter (by rw [step, if_neg (by simp [hc])]) rest
  | cons c cs ih =>
    obtain ⟨hc, hcs⟩ := List.forall_mem_cons.mp hnumeral
    rw [List.cons_append,
      tokens_of_step (numeral (c :: rev)) (by rw [step, if_pos hc]), ih hcs]
    simp

end Scan

/-! ## §3  Numbers -/

def Number.ReadsBack (n : Number) : Prop :=
  ∃ c cs, numberChars n = c :: cs ∧ (c.isDigit = true ∨ c = '-') ∧
    (∀ d ∈ cs, isNumeralChar d = true) ∧
    numeralToken (c :: cs) = .number (some n)

theorem Scan.start_numeral {c : Char} (hc : c.isDigit = true ∨ c = '-') :
    start c = ([], some (.numeral [c])) := by
  have hne (d : Char) (hd : d.isDigit = false) (hminus : d ≠ '-') : c ≠ d := by
    rintro rfl
    simp_all
  have hblank : isBlank c = false := by
    simp [isBlank, hne ' ' rfl, hne '\n' rfl, hne '\t' rfl, hne '\r' rfl]
  have hpunctuation : punctuation? c = none := by
    unfold punctuation?
    split
    iterate 6 exact absurd hc (by decide)
    rfl
  rw [start, if_neg (by simp [hblank]), hpunctuation]
  simp [hne '"' rfl, hc]

theorem Scan.tokens_number {n : Number} (hn : n.ReadsBack) {rest : List Char}
    (hends : EndsToken rest) :
    between.tokens (numberChars n ++ rest) =
      .number (some n) :: between.tokens rest := by
  obtain ⟨c, cs, hchars, hc, hcs, htoken⟩ := hn
  rw [hchars, List.cons_append,
    tokens_of_step (numeral [c]) (by rw [step, start_numeral hc]),
    tokens_numeral hcs hends, ← htoken]
  rfl

def decimalDigits (n : Nat) : List Nat :=
  (Nat.toDigits 10 n).map fun c => c.toNat - '0'.toNat

theorem ofDigits_decimalDigits (n : Nat) :
    Text.ofDigits 10 (decimalDigits n) = n := by
  rw [Text.ofDigits, decimalDigits, List.foldl_map]
  exact Nat.ofDigitChars_toDigits (by decide) (by decide)

/-- Whole numbers are written without leading zeros. -/
theorem decimalDigits_cases (n : Nat) :
    decimalDigits n = [0] ∨ ∃ d ds, decimalDigits n = (d + 1) :: ds := by
  -- by taking off the last digit, the leading one stays
  induction n using Nat.strongRecOn with
  | ind n ih =>
    by_cases hlt : n < 10
    · have hdigit : ∀ d < 10, (Nat.digitChar d).toNat - '0'.toNat = d := by decide
      rw [decimalDigits, Nat.toDigits_of_lt_base hlt,
        List.map_singleton, hdigit n hlt]
      cases n with
      | zero => exact .inl rfl
      | succ d => exact .inr ⟨d, [], rfl⟩
    · have hsplit : decimalDigits n =
          decimalDigits (n / 10) ++ [(n % 10).digitChar.toNat - '0'.toNat] := by
        rw [decimalDigits, Nat.toDigits_of_base_le (by decide) (by omega),
          List.map_append]
        rfl
      rcases ih (n / 10) (by omega) with hzero | ⟨d, ds, hds⟩
      · have hvalue := ofDigits_decimalDigits (n / 10)
        rw [hzero] at hvalue
        have hnone : n / 10 = 0 := hvalue.symm
        omega
      · exact .inr ⟨d, _, by rw [hsplit, hds, List.cons_append]⟩

namespace Numeral

theorem digits_toDigits (n : Nat) :
    digits (Nat.toDigits 10 n) = (decimalDigits n, []) := by
  have hdigits : ∀ c ∈ Nat.toDigits 10 n, c.isDigit = true :=
    fun c hc => Nat.isDigit_of_mem_toDigits (by decide) (by decide) hc
  rw [digits, List.takeWhile_eq_self_iff.mpr hdigits,
    List.dropWhile_eq_nil_iff.mpr hdigits]
  rfl

theorem ofChars?_toDigits (negative : Bool) (n : Nat) :
    ofChars? ((if negative then ['-'] else []) ++ Nat.toDigits 10 n) =
      some ⟨negative, decimalDigits n, [], none⟩ := by
  obtain ⟨c, cs, hcs⟩ :=
    List.exists_cons_of_ne_nil (Nat.toDigits_ne_nil (n := n) (b := 10))
  have hc : c ≠ '-' := by
    rintro rfl
    exact absurd (Nat.isDigit_of_mem_toDigits (by decide) (by decide)
      (hcs ▸ List.mem_cons_self)) (by decide)
  have hdigits := digits_toDigits n
  rw [hcs] at hdigits
  rcases decimalDigits_cases n with hcases | ⟨d, ds, hcases⟩ <;>
    rw [hcases] at hdigits ⊢ <;> cases negative <;>
    simp [ofChars?, hcs, hc, hdigits, fractionPart?, exponentPart?]

end Numeral

theorem numberChars_integer (i : Int) :
    numberChars (.integer i) =
      (if decide (i < 0) then ['-'] else []) ++ Nat.toDigits 10 i.natAbs := by
  have hrepr (n : Nat) : n.repr.toList = Nat.toDigits 10 n := by
    rw [Nat.repr_eq_ofList_toDigits, String.toList_ofList]
  cases i with
  | ofNat n => exact hrepr n
  | negSucc n =>
    show ("-" ++ n.succ.repr).toList = _
    rw [String.toList_append, hrepr]
    simp [Int.negSucc_lt_zero]

/-- A whole number that fits a machine word is read back. -/
theorem Number.readsBack_integer {i : Int} (hlow : -(1 <<< 63) ≤ i)
    (hhigh : i < UInt64.size) : (Number.integer i).ReadsBack := by
  have htoken :
      numeralToken (numberChars (.integer i)) = .number (some (.integer i)) := by
    have hvalue : Numeral.integer? ⟨decide (i < 0), decimalDigits i.natAbs,
        [], none⟩ = some i := by
      rw [Numeral.integer?, if_pos ⟨rfl, rfl⟩, ofDigits_decimalDigits]
      by_cases hi : i < 0
      · have hfits : 0 < i.natAbs ∧ i.natAbs ≤ 1 <<< 63 := by omega
        have hvalue : -(i.natAbs : Int) = i := by omega
        simp only [hi, decide_true, if_true, if_pos hfits, hvalue]
      · have hfits : i.natAbs < UInt64.size := by omega
        have hvalue : (i.natAbs : Int) = i := by omega
        simp only [hi, decide_false, Bool.false_eq_true, if_false,
          if_pos hfits, hvalue]
    rw [numberChars_integer, numeralToken, Numeral.ofChars?_toDigits]
    simp only [Numeral.number?, hvalue]
  have hdigit {c : Char} (hc : c ∈ Nat.toDigits 10 i.natAbs) : c.isDigit = true :=
    Nat.isDigit_of_mem_toDigits (by decide) (by decide) hc
  have hnumeral {c : Char} (hc : c ∈ Nat.toDigits 10 i.natAbs) :
      isNumeralChar c = true := by
    simp [isNumeralChar, hdigit hc]
  cases hnegative : decide (i < 0) with
  | true =>
    have hchars : numberChars (.integer i) = '-' :: Nat.toDigits 10 i.natAbs := by
      rw [numberChars_integer, hnegative]
      rfl
    exact ⟨_, _, hchars, .inr rfl, fun d hd => hnumeral hd, hchars ▸ htoken⟩
  | false =>
    obtain ⟨c, cs, hcs⟩ :=
      List.exists_cons_of_ne_nil (Nat.toDigits_ne_nil (n := i.natAbs) (b := 10))
    have hchars : numberChars (.integer i) = c :: cs := by
      rw [numberChars_integer, hnegative]
      exact hcs
    exact ⟨c, cs, hchars, .inl (hdigit (hcs ▸ List.mem_cons_self)),
      fun d hd => hnumeral (hcs ▸ List.mem_cons_of_mem c hd), hchars ▸ htoken⟩

structure IsNumeralText (cs : List Char) : Prop where
  head : ∃ c ds, cs = c :: ds ∧ c.isDigit = true
  all : ∀ d ∈ cs, isNumeralChar d = true

theorem isNumeralText_positional (x : Decimal) :
    IsNumeralText (Decimal.positional ".0" x).toList := by
  obtain ⟨c, cs, hcs⟩ :=
    List.exists_cons_of_ne_nil (Nat.toDigits_ne_nil (n := x.digits) (b := 10))
  have hdigit : ∀ d ∈ c :: cs, d.isDigit = true :=
    fun d hd => Nat.isDigit_of_mem_toDigits (by decide) (by decide) (hcs ▸ hd)
  have hnumeral : ∀ d ∈ c :: cs, isNumeralChar d = true := fun d hd => by
    simp [isNumeralChar, hdigit d hd]
  have hc : c.isDigit = true := hdigit c List.mem_cons_self
  unfold Decimal.positional
  rw [hcs]
  split
  · rw [String.toList_append, String.toList_ofList]
    refine ⟨⟨c, _, rfl, hc⟩, ?_⟩
    intro d hd
    simp only [List.mem_append, List.mem_replicate] at hd
    rcases hd with (hd | ⟨-, rfl⟩) | hd
    · exact hnumeral d hd
    · rfl
    · exact List.all_eq_true.mp
        (by decide : ".0".toList.all isNumeralChar = true) d hd
  · split
    · rw [String.toList_ofList]
      refine ⟨⟨c, _, rfl, hc⟩, ?_⟩
      intro d hd
      rw [List.mem_append, List.mem_cons] at hd
      rcases hd with hd | rfl | hd
      · exact hnumeral d (List.mem_of_mem_take hd)
      · rfl
      · exact hnumeral d (List.mem_of_mem_drop hd)
    · rw [String.toList_ofList]
      refine ⟨⟨'0', _, rfl, rfl⟩, ?_⟩
      intro d hd
      simp only [List.cons_append, List.mem_cons,
        List.mem_append, List.mem_replicate] at hd
      rcases hd with rfl | rfl | ⟨-, rfl⟩ | hd
      · rfl
      · rfl
      · rfl
      · exact hnumeral d (List.mem_cons.mpr hd)

theorem isNumeralText_scientific (x : Decimal) :
    IsNumeralText (Decimal.scientific x).toList := by
  obtain ⟨c, cs, hcs⟩ :=
    List.exists_cons_of_ne_nil (Nat.toDigits_ne_nil (n := x.digits) (b := 10))
  have hnumeral (n : Nat) {d : Char} (hd : d ∈ Nat.toDigits 10 n) :
      isNumeralChar d = true := by
    simp [isNumeralChar, Nat.isDigit_of_mem_toDigits (by decide) (by decide) hd]
  have hc : c.isDigit = true :=
    Nat.isDigit_of_mem_toDigits (by decide) (by decide) (hcs ▸ List.mem_cons_self)
  have hsign : ∀ d ∈ (if x.leading < 0 then "e-" else "e+").toList,
      isNumeralChar d = true := by
    split <;> exact List.all_eq_true.mp (by decide)
  have hexponent :
      ∀ d ∈ (toString x.leading.natAbs).toList, isNumeralChar d = true := by
    rw [Nat.toString_eq_ofList_toDigits, String.toList_ofList]
    exact fun d hd => hnumeral _ hd
  have htail : ∀ ds : List Char, (∀ d ∈ ds, isNumeralChar d = true) →
      IsNumeralText (c :: ds ++ (if x.leading < 0 then "e-" else "e+").toList ++
        (toString x.leading.natAbs).toList) := by
    intro ds hds
    refine ⟨⟨c, _, rfl, hc⟩, ?_⟩
    refine List.forall_mem_append.mpr
      ⟨List.forall_mem_append.mpr ⟨?_, hsign⟩, hexponent⟩
    exact List.forall_mem_cons.mpr ⟨by simp [isNumeralChar, hc], hds⟩
  unfold Decimal.scientific
  rw [hcs]
  simp only [String.toList_append, String.toList_ofList]
  cases cs with
  | nil => exact htail [] (by simp)
  | cons d rest =>
    refine htail ('.' :: d :: rest) (List.forall_mem_cons.mpr ⟨rfl, fun e he => ?_⟩)
    exact hnumeral x.digits (hcs ▸ List.mem_cons_of_mem c he)

/-- A real is written as a numeral is. -/
theorem exists_storedChars (x : Binary64) :
    ∃ c cs, (Decimal.stored x).toList = c :: cs ∧
      (c.isDigit = true ∨ c = '-') ∧ ∀ d ∈ cs, isNumeralChar d = true := by
  have hmagnitude (d : Decimal) : IsNumeralText
      (if -5 ≤ d.leading ∧ d.leading ≤ 15 then Decimal.positional ".0" d
        else Decimal.scientific d).toList := by
    split
    · exact isNumeralText_positional d
    · exact isNumeralText_scientific d
  obtain ⟨⟨c, cs, hcs, hc⟩, hall⟩ := hmagnitude (Decimal.shortest .toEven x)
  unfold Decimal.stored Decimal.signed
  simp only
  split
  · rw [String.toList_append]
    exact ⟨'-', _, rfl, .inr rfl, hall⟩
  · exact ⟨c, cs, hcs, .inl hc, fun d hd => hall d (hcs ▸ List.mem_cons_of_mem c hd)⟩

/-! ## §4  Tokens of a value -/

namespace Value

mutual

/-- Whether a value is one that a text can say and that is read back: what
stands for no value does not, and numbers may not. -/
def ReadsBack : Value → Prop
  | .null | .bool _ | .text (some _) => True
  | .number (some n) => n.ReadsBack
  | .number none | .text none | .cut => False
  | .array items => ItemsReadBack items
  | .object members => MembersReadBack members

def ItemsReadBack : List Value → Prop
  | [] => True
  | v :: vs => v.ReadsBack ∧ ItemsReadBack vs

def MembersReadBack : List (Option String × Value) → Prop
  | [] => True
  | (k, v) :: ms => k.isSome = true ∧ v.ReadsBack ∧ MembersReadBack ms

end

theorem itemsReadBack_iff {vs : List Value} :
    ItemsReadBack vs ↔ ∀ v ∈ vs, v.ReadsBack := by
  induction vs with
  | nil => simp [ItemsReadBack]
  | cons v vs ih => rw [ItemsReadBack, ih, List.forall_mem_cons]

@[simp]
theorem readsBack_array {vs : List Value} :
    (array vs).ReadsBack ↔ ∀ v ∈ vs, v.ReadsBack := by
  rw [ReadsBack, itemsReadBack_iff]

@[simp] theorem readsBack_record {ms : List (String × Value)} :
    (record ms).ReadsBack ↔ ∀ m ∈ ms, m.2.ReadsBack := by
  rw [record, ReadsBack]
  induction ms with
  | nil => simp [MembersReadBack]
  | cons m ms ih =>
    obtain ⟨k, v⟩ := m
    rw [List.map_cons, MembersReadBack, ih, List.forall_mem_cons]
    simp

@[simp]
theorem readsBack_tagged {tag : String} {v : Value} :
    (tagged tag v).ReadsBack ↔ v.ReadsBack := by
  simp [tagged, ReadsBack, MembersReadBack]

@[simp] theorem readsBack_str (s : String) : (str s).ReadsBack := trivial

@[simp] theorem readsBack_bool (b : Bool) : (bool b).ReadsBack := trivial

theorem readsBack_nat {n : Nat} (hn : n < UInt64.size) : (nat n).ReadsBack := by
  have hn' : (n : Int) < UInt64.size := Int.ofNat_lt.mpr hn
  exact Number.readsBack_integer (by omega) hn'

@[simp] theorem readsBack_uint16 (n : UInt16) : (nat n.toNat).ReadsBack :=
  readsBack_nat (Nat.lt_trans n.toNat_lt (by decide))

@[simp] theorem readsBack_int32 (i : Int32) : (int i.toInt).ReadsBack := by
  have hlow := i.minValue_le_toInt
  have hhigh := i.toInt_le
  rw [show Int32.minValue.toInt = -2147483648 from rfl] at hlow
  rw [show Int32.maxValue.toInt = 2147483647 from rfl] at hhigh
  exact Number.readsBack_integer (by omega) (by simp only [UInt64.size]; omega)

@[simp] theorem readsBack_int64 (i : Int64) : (int i.toInt).ReadsBack := by
  have hlow := i.minValue_le_toInt
  have hhigh := i.toInt_le
  rw [show Int64.minValue.toInt = -9223372036854775808 from rfl] at hlow
  rw [show Int64.maxValue.toInt = 9223372036854775807 from rfl] at hhigh
  exact Number.readsBack_integer (by omega) (by simp only [UInt64.size]; omega)

mutual

def tokens : Value → List Token
  | .null => [.null]
  | .bool b => [.bool b]
  | .number n => [.number n]
  | .text s => [.text s]
  | .array [] => [.openArray, .closeArray]
  | .array (v :: vs) => .openArray :: tokens v ++ itemTokens vs ++ [.closeArray]
  | .object [] => [.openObject, .closeObject]
  | .object ((k, v) :: ms) =>
    .openObject :: .text k :: .colon :: tokens v ++ memberTokens ms ++ [.closeObject]
  | .cut => [.fault]

def itemTokens : List Value → List Token
  | [] => []
  | v :: vs => .comma :: tokens v ++ itemTokens vs

def memberTokens : List (Option String × Value) → List Token
  | [] => []
  | (k, v) :: ms => .comma :: .text k :: .colon :: tokens v ++ memberTokens ms

end

end Value

namespace Scan

theorem tokens_newLine (level : Nat) (rest : List Char) :
    between.tokens (newLine level ++ rest) = between.tokens rest := by
  have hspaces (n : Nat) :
      between.tokens (List.replicate n ' ' ++ rest) = between.tokens rest := by
    induction n with
    | zero => rfl
    | succ n ih =>
        rw [List.replicate_succ, List.cons_append, tokens_of_step between rfl, ih]
  rw [newLine, List.cons_append, tokens_of_step between rfl, hspaces]

theorem endsToken_newLine (level : Nat) (rest : List Char) :
    EndsToken (newLine level ++ rest) := by
  rintro c ⟨⟩
  exact ⟨rfl, rfl⟩

theorem tokens_punctuation {c : Char} {t : Token}
    (hc : start c = ([t], some .between)) (rest : List Char) :
    between.tokens (c :: rest) = t :: between.tokens rest := by
  rw [tokens, step, hc]
  rfl

theorem endsToken_itemChars (level : Nat) (vs : List Value) {rest : List Char}
    (hends : EndsToken rest) : EndsToken (itemChars level vs ++ rest) := by
  cases vs with
  | nil => exact hends
  | cons v vs =>
    rintro c ⟨⟩
    exact ⟨rfl, rfl⟩

theorem endsToken_memberChars (level : Nat) (ms : List (Option String × Value))
    {rest : List Char} (hends : EndsToken rest) :
    EndsToken (memberChars level ms ++ rest) := by
  cases ms with
  | nil => exact hends
  | cons m ms =>
    obtain ⟨k, v⟩ := m
    rintro c ⟨⟩
    exact ⟨rfl, rfl⟩

theorem tokens_wordChars {s : String} {c : Char} {cs : List Char} {t : Token}
    (hs : s.toList = c :: cs) (hc : start c = ([], some (.word [c])))
    (hcs : cs.all Char.isAlpha = true) (ht : wordToken s = t) {rest : List Char}
    (hends : EndsToken rest) :
    between.tokens (s.toList ++ rest) = t :: between.tokens rest := by
  have hword : String.ofList ([c].reverse ++ cs) = s := by
    rw [List.reverse_singleton, List.singleton_append, ← hs, String.ofList_toList]
  rw [hs, List.cons_append, tokens_of_step (word [c]) (by rw [step, hc]),
    tokens_word (List.all_eq_true.mp hcs) hends, hword, ht]

mutual

/-- Where nothing goes on with its last token, the text of a value is cut into
the tokens of the value. -/
theorem tokens_chars :
    ∀ (v : Value) (level : Nat) (rest : List Char), v.ReadsBack → EndsToken rest →
      between.tokens (v.chars level ++ rest) = v.tokens ++ between.tokens rest
  | .null, level, rest, _, hends => tokens_wordChars rfl rfl (by decide) rfl hends
  | .bool b, level, rest, _, hends => by
    cases b
    · exact tokens_wordChars rfl rfl (by decide) rfl hends
    · exact tokens_wordChars rfl rfl (by decide) rfl hends
  | .number (some n), level, rest, hv, hends => tokens_number hv hends
  | .text (some s), level, rest, _, _ => tokens_stringChars s rest
  | .array [], level, rest, _, _ => by
    rw [Value.chars, List.cons_append, tokens_punctuation rfl]
    exact congrArg _ (tokens_punctuation rfl rest)
  | .array (v :: vs), level, rest, ⟨hv, hvs⟩, hends => by
    have hclose := endsToken_newLine level (']' :: rest)
    simp only [Value.chars, Value.tokens, List.cons_append,
      List.append_assoc, List.nil_append]
    rw [tokens_punctuation rfl, tokens_newLine,
      tokens_chars v _ _ hv (endsToken_itemChars _ vs hclose),
      tokens_itemChars vs _ _ hvs hclose, tokens_newLine, tokens_punctuation rfl]
  | .object [], level, rest, _, _ => by
    rw [Value.chars, List.cons_append, tokens_punctuation rfl]
    exact congrArg _ (tokens_punctuation rfl rest)
  | .object ((some k, v) :: ms), level, rest, ⟨_, hv, hms⟩, hends => by
    have hclose := endsToken_newLine level ('\x7d' :: rest)
    simp only [Value.chars, Value.tokens, Option.getD_some, List.cons_append,
      List.append_assoc, List.nil_append]
    rw [tokens_punctuation rfl, tokens_newLine, tokens_stringChars,
      tokens_punctuation rfl, tokens_of_step between rfl,
      tokens_chars v _ _ hv (endsToken_memberChars _ ms hclose),
      tokens_memberChars ms _ _ hms hclose, tokens_newLine, tokens_punctuation rfl]

theorem tokens_itemChars :
    ∀ (vs : List Value) (level : Nat) (rest : List Char),
    Value.ItemsReadBack vs → EndsToken rest →
      between.tokens (itemChars level vs ++ rest) =
        Value.itemTokens vs ++ between.tokens rest
  | [], level, rest, _, _ => rfl
  | v :: vs, level, rest, ⟨hv, hvs⟩, hends => by
    simp only [itemChars, Value.itemTokens, List.cons_append, List.append_assoc]
    rw [tokens_punctuation rfl, tokens_newLine,
      tokens_chars v _ _ hv (endsToken_itemChars _ vs hends),
      tokens_itemChars vs _ _ hvs hends]

theorem tokens_memberChars :
    ∀ (ms : List (Option String × Value)) (level : Nat) (rest : List Char),
    Value.MembersReadBack ms → EndsToken rest →
      between.tokens (memberChars level ms ++ rest) =
        Value.memberTokens ms ++ between.tokens rest
  | [], level, rest, _, _ => rfl
  | (some k, v) :: ms, level, rest, ⟨_, hv, hms⟩, hends => by
    simp only [memberChars, Value.memberTokens, Option.getD_some,
      List.cons_append, List.append_assoc]
    rw [tokens_punctuation rfl, tokens_newLine, tokens_stringChars,
      tokens_punctuation rfl, tokens_of_step between rfl,
      tokens_chars v _ _ hv (endsToken_memberChars _ ms hends),
      tokens_memberChars ms _ _ hms hends]

end

end Scan

/-! ## §5  Building -/

/-- What becomes of a text when a value is complete inside some containers. -/
def placed (v : Value) (ts : List Token) : List Frame → Document
  | [] => ⟨v, ts.isEmpty⟩
  | .array rev :: fs => build (.array (v :: rev) :: fs) .more ts
  | .object rev key :: fs => build (.object ((key, v) :: rev) none :: fs) .more ts

theorem build_of_place {stack : List Frame} {expect : Expect} {t : Token}
    {v : Value} {outer : List Frame} (hmove : move stack expect t = place v outer)
    (ts : List Token) : build stack expect (t :: ts) = placed v ts outer := by
  rw [build, hmove]
  cases outer with
  | nil => rfl
  | cons f fs => cases f <;> rfl

mutual

/-- The tokens of a value build it. -/
theorem build_tokens :
    ∀ (v : Value) (stack : List Frame) (mayClose : Bool) (ts : List Token),
    v.ReadsBack → build stack (.value mayClose) (v.tokens ++ ts) = placed v ts stack
  | .null, stack, _, ts, _ => build_of_place rfl ts
  | .bool b, stack, _, ts, _ => build_of_place rfl ts
  | .number n, stack, _, ts, _ => build_of_place rfl ts
  | .text s, stack, _, ts, _ => build_of_place rfl ts
  | .array [], stack, _, ts, _ => build_of_place rfl ts
  | .array (v :: vs), stack, _, ts, ⟨hv, hvs⟩ => by
    simp only [Value.tokens, List.cons_append, List.append_assoc, List.nil_append]
    rw [build]
    simp only [move]
    rw [build_tokens v _ _ _ hv, placed, build_itemTokens vs _ _ _ hvs]
    rfl
  | .object [], stack, _, ts, _ => build_of_place rfl ts
  | .object ((k, v) :: ms), stack, _, ts, ⟨_, hv, hms⟩ => by
    simp only [Value.tokens, List.cons_append, List.append_assoc, List.nil_append]
    rw [build]
    simp only [move, build]
    rw [build_tokens v _ _ _ hv, placed, build_memberTokens ms _ _ _ hms]
    rfl

theorem build_itemTokens :
    ∀ (vs rev : List Value) (fs : List Frame) (ts : List Token),
    Value.ItemsReadBack vs →
      build (.array rev :: fs) .more (Value.itemTokens vs ++ .closeArray :: ts) =
        placed (.array (rev.reverse ++ vs)) ts fs
  | [], rev, fs, ts, _ => by
    rw [List.append_nil]
    exact build_of_place rfl ts
  | v :: vs, rev, fs, ts, ⟨hv, hvs⟩ => by
    simp only [Value.itemTokens, List.cons_append, List.append_assoc]
    rw [build]
    simp only [move]
    rw [build_tokens v _ _ _ hv, placed, build_itemTokens vs _ _ _ hvs]
    simp

theorem build_memberTokens :
    ∀ (ms rev : List (Option String × Value)) (fs : List Frame) (ts : List Token),
    Value.MembersReadBack ms →
      build (.object rev none :: fs) .more
          (Value.memberTokens ms ++ .closeObject :: ts) =
        placed (.object (rev.reverse ++ ms)) ts fs
  | [], rev, fs, ts, _ => by
    rw [List.append_nil]
    exact build_of_place rfl ts
  | (k, v) :: ms, rev, fs, ts, ⟨_, hv, hms⟩ => by
    simp only [Value.memberTokens, List.cons_append, List.append_assoc]
    rw [build]
    simp only [move, build]
    rw [build_tokens v _ _ _ hv, placed, build_memberTokens ms _ _ _ hms]
    simp

end

/-! ## §6  Documents -/

/-- Reading the text of a value gives the value back, with nothing after it. -/
theorem read_write {v : Value} (hv : v.ReadsBack) : read (write v) = ⟨v, true⟩ := by
  have hends : Scan.EndsToken [] := by
    rintro c ⟨⟩
  have htokens := Scan.tokens_chars v 0 [] hv hends
  rw [List.append_nil] at htokens
  rw [read, write, tokens, String.toList_ofList, htokens]
  exact build_tokens v [] false [] hv

def RealReadsBack (x : Binary64) : Prop :=
  read (Decimal.stored x) = ⟨.number (some (.real x)), true⟩

/-- The text of a real is one token. -/
theorem tokens_stored (x : Binary64) :
    tokens (Decimal.stored x) = [numeralToken (Decimal.stored x).toList] := by
  obtain ⟨c, cs, hchars, hc, hcs⟩ := exists_storedChars x
  have hends : Scan.EndsToken [] := by
    rintro d ⟨⟩
  have hrest := Scan.tokens_numeral hcs hends [c]
  rw [List.append_nil] at hrest
  rw [tokens, hchars,
    Scan.tokens_of_step (.numeral [c]) (by rw [Scan.step, Scan.start_numeral hc]),
    hrest]
  rfl

theorem realReadsBack_iff {x : Binary64} :
    RealReadsBack x ↔
      numeralToken (Decimal.stored x).toList = .number (some (.real x)) := by
  rw [RealReadsBack, read, tokens_stored]
  constructor
  · intro h
    unfold numeralToken at h ⊢
    split at h
    · exact congrArg Token.number (Value.number.inj (congrArg Document.value h))
    · exact absurd (congrArg Document.clean h) Bool.false_ne_true
  · intro h
    rw [h]
    rfl

/-- What is read back from its own text is read back from any. -/
theorem Number.readsBack_real {x : Binary64} (hx : RealReadsBack x) :
    (Number.real x).ReadsBack := by
  obtain ⟨c, cs, hchars, hc, hcs⟩ := exists_storedChars x
  refine ⟨c, cs, hchars, hc, hcs, ?_⟩
  rw [← realReadsBack_iff.mp hx, hchars]

end Instrumentation.Json
