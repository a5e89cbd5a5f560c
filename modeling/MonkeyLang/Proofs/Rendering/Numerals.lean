import Mathlib.Data.Nat.Digits.Defs
import MonkeyLang.Proofs.Evaluation.Arithmetic
import MonkeyLang.Proofs.Lexing.Bytes
import MonkeyLang.Proofs.Lexing.Spelling
import MonkeyLang.Proofs.Parsing.Reading
import MonkeyLang.Value.Inspect

namespace MonkeyLang

open Grammar Lexer Eval

/-- The digit that a character shows. -/
def digitValue (c : Char) : Nat := c.toNat - '0'.toNat

/-- The number that digits stand for in decimal positional notation. -/
def decimalValue (digits : List Char) : Nat := Nat.ofDigits 10 (digits.map digitValue).reverse

/-- Digits alone, and at least one. -/
structure IsNumeral (text : String) : Prop where
  digits : ∀ c ∈ text.toList, c.isDigit
  nonempty : text.toList ≠ []

/-- The decimal digits of a number without leading zeros. Only that of zero begins with a zero. -/
structure IsDecimal (text : String) (n : Nat) : Prop extends IsNumeral text where
  value : decimalValue text.toList = n
  leading : text.toList.head? = some '0' → text = "0"

/-- The value is the one that comes of taking up the digits from the left. -/
theorem decimalValue_eq (digits : List Char) :
    decimalValue digits = Nat.ofDigitChars 10 digits 0 := by
  have hstep (n : Nat) (c : Char) : digitValue c + 10 * n = 10 * n + (c.toNat - '0'.toNat) :=
    Nat.add_comm _ _
  rw [decimalValue, Nat.ofDigits_eq_foldr, List.foldr_reverse, List.foldl_map,
    Nat.ofDigitChars_eq_foldl]
  simp only [Nat.cast_id, hstep]

theorem digitValue_of_digit {c : Char} (h : c.isDigit) :
    digitValue c < 10 ∧ Nat.digitChar (digitValue c) = c := by
  have hc : 48 ≤ c.toNat ∧ c.toNat ≤ 57 := Char.isDigit_iff_toNat.mp h
  have hvalue : digitValue c = c.toNat - 48 := rfl
  have hlt : digitValue c < 10 := by omega
  refine ⟨hlt, Char.toNat_inj.mp ?_⟩
  rw [Nat.toNat_digitChar_of_lt_ten hlt]
  omega

/-- Digits behind those of a number that is not zero are the digits of the number they make with
it. -/
theorem toDigits_append {digits : List Char} (hd : ∀ c ∈ digits, c.isDigit) {n : Nat} (hn : 0 < n) :
    Nat.toDigits 10 n ++ digits = Nat.toDigits 10 (Nat.ofDigitChars 10 digits n) := by
  induction digits generalizing n with
  | nil => rw [List.append_nil, Nat.ofDigitChars_nil]
  | cons c cs ih =>
    obtain ⟨hc, hcs⟩ := List.forall_mem_cons.mp hd
    obtain ⟨hlt, hchar⟩ := digitValue_of_digit hc
    have hfirst : Nat.toDigits 10 n ++ [c] = Nat.toDigits 10 (10 * n + digitValue c) := by
      rw [← Nat.toDigits_append_toDigits (by decide) hn hlt, Nat.toDigits_of_lt_base hlt, hchar]
    have hrest := ih hcs (n := 10 * n + digitValue c) (by omega)
    rw [← hfirst, List.append_assoc] at hrest
    rw [Nat.ofDigitChars_cons]
    exact hrest

/-- The digits of a number that is not zero do not begin with a zero. -/
theorem head_toDigits {n : Nat} (hn : 0 < n) : (Nat.toDigits 10 n).head? ≠ some '0' := by
  induction n using Nat.strongRecOn with
  | ind n ih =>
    by_cases hlt : n < 10
    · rw [Nat.toDigits_of_lt_base hlt, List.head?_cons, ne_eq, Option.some.injEq,
        Nat.digitChar_eq_zero]
      omega
    · have hfront := ih (n / 10) (by omega) (by omega)
      have hne : Nat.toDigits 10 (n / 10) ≠ [] := Nat.toDigits_ne_nil
      obtain ⟨c, cs, hcs⟩ := List.exists_cons_of_ne_nil hne
      rw [Nat.toDigits_of_base_le (by decide) (by omega), hcs, List.cons_append, List.head?_cons]
      rwa [hcs, List.head?_cons] at hfront

/-- The text that a number is printed as is made of its decimal digits. -/
theorem isDecimal_repr (n : Nat) : IsDecimal n.repr n where
  digits c hc := by
    rw [Nat.toList_repr] at hc
    exact Nat.isDigit_of_mem_toDigits (by decide) (by decide) hc
  nonempty := by
    rw [Nat.toList_repr]
    exact Nat.toDigits_ne_nil
  value := by rw [decimalValue_eq, Nat.toList_repr, Nat.ofDigitChars_ten_toDigits]
  leading h := by
    rw [Nat.toList_repr] at h
    cases n with
    | zero => rfl
    | succ n => exact absurd h (head_toDigits (Nat.succ_pos n))

/-- There is no other numeral of the number without leading zeros. -/
theorem IsDecimal.eq_repr {text : String} {n : Nat} (h : IsDecimal text n) : text = n.repr := by
  obtain ⟨c, cs, hcs⟩ := List.exists_cons_of_ne_nil h.nonempty
  have hvalue := h.value
  by_cases hzero : c = '0'
  · have htext := h.leading (by rw [hcs, hzero, List.head?_cons])
    rw [htext] at hvalue ⊢
    rw [← hvalue]
    rfl
  · have hdigits := h.digits
    rw [hcs] at hdigits hvalue
    obtain ⟨hc, hrest⟩ := List.forall_mem_cons.mp hdigits
    obtain ⟨hlt, hchar⟩ := digitValue_of_digit hc
    have hpos : 0 < digitValue c := by
      refine Nat.pos_of_ne_zero fun h0 => hzero ?_
      rw [← hchar, h0]
      rfl
    have hfirst : Nat.ofDigitChars 10 (c :: cs) 0 = Nat.ofDigitChars 10 cs (digitValue c) := by
      rw [Nat.ofDigitChars_cons, Nat.mul_zero, Nat.zero_add, digitValue]
    apply String.toList_injective
    calc text.toList = Nat.toDigits 10 (digitValue c) ++ cs := by
          rw [hcs, Nat.toDigits_of_lt_base hlt, hchar, List.singleton_append]
      _ = Nat.toDigits 10 (decimalValue (c :: cs)) := by
          rw [toDigits_append hrest hpos, decimalValue_eq, hfirst]
      _ = n.repr.toList := by rw [hvalue, Nat.toList_repr]

theorem isDecimal_iff {text : String} {n : Nat} : IsDecimal text n ↔ text = n.repr := by
  constructor
  · exact IsDecimal.eq_repr
  · rintro rfl
    exact isDecimal_repr n

/-- The token of a whole text of digits. -/
def numeralToken (digits : String) : Token := ⟨.integer, digits, ⟨0, digits.utf8ByteSize⟩⟩

/-- The text is free of errors and a program of one integer literal, which is the whole of it, and
wherever this is run it comes to the integer and changes nothing. -/
structure ReadsInteger (text : String) (value : Int64) : Prop where
  errors : (Reading.ofSource text).errors = []
  program : (Reading.ofSource text).program =
    [.expression (numeralToken text) (.integer (numeralToken text) value)]
  run : ∀ limit scope store, (Reading.ofSource text).program.run limit scope store =
    (.value (.integer value), store)

section
variable {digits : String} (h : IsNumeral digits)
include h

theorem tokens_numeral : (Lexer.ofString digits).tokens = [numeralToken digits] := by
  obtain ⟨c, cs, hcs⟩ := List.exists_cons_of_ne_nil h.nonempty
  have hd := h.digits
  rw [hcs] at hd
  have htext : String.ofList (c :: cs) = digits := by rw [← hcs, String.ofList_toList]
  have hlexeme := @Lexeme.ofText_digits c cs [] hd (by simp)
  rw [List.append_nil] at hlexeme
  have hnext : (Lexer.ofString digits).next =
      (numeralToken digits, ⟨[], 0, digits.utf8ByteSize⟩) := by
    have hfirst := @next_lexeme [] (by simp) c (not_blank_of_digit (hd c (by simp))) cs 0
    rw [hlexeme, List.nil_append, htext, ← hcs, ← utf8ByteSize_eq] at hfirst
    exact hfirst.trans (by rw [byteLength, Nat.add_zero, Nat.zero_add, numeralToken])
  have hkind : (Lexer.ofString digits).next.1.kind ≠ .endOfInput := by
    rw [hnext]
    intro hend
    cases hend
  rw [tokens_cons hkind, hnext]
  rfl

/-- A numeral in range reads as its number. -/
theorem readsInteger_numeral (hn : decimalValue digits.toList ≤ 2 ^ 63 - 1) :
    ReadsInteger digits (Int64.ofNat (decimalValue digits.toList)) := by
  have hnumber : number (numeralToken digits) = decimalValue digits.toList :=
    (decimalValue_eq _).symm
  rw [← hnumber] at hn ⊢
  generalize hvalue : Int64.ofNat (number (numeralToken digits)) = value
  have hliteral : Derives False [numeralToken digits]
      (.expression 7 (.integer (numeralToken digits) value)) := hvalue ▸ .integer rfl hn
  have hprogram : Derives False ([numeralToken digits] ++ []) (.statements
      [.expression (numeralToken digits) (.integer (numeralToken digits) value)]) :=
    .unterminated (.expression hliteral.loosest) (by simp) .noStatements
  rw [List.append_nil] at hprogram
  have hcompletes : Completes (Lexer.ofString digits).tokens [numeralToken digits] := by
    rw [tokens_numeral h]
    exact completes_refl _
  have hreading := reading_of_derives hcompletes hprogram
  have hanswers : (Expr.integer (numeralToken digits) value).Answers (.value (.integer value)) := by
    refine Expr.answers_of_ok fun limit scope store => ?_
    rw [evaluate]
    rfl
  refine ⟨by rw [hreading], by rw [hreading], fun limit scope store => ?_⟩
  rw [hreading]
  exact (hanswers limit scope store).2 _

end

namespace Parse

variable {p : Parser}

/-- A statement that begins with an integer out of range stops there, with the error at its
token. -/
theorem statement_outOfRange (hk : p.current.kind = .integer) (hn : 2 ^ 63 - 1 < number p.current)
    (n : Nat) : Ends (statement (n + 3)) p (fun _ _ => False) fun s q =>
      s = .syntaxError ∧ q = p.record (.integerTooLarge p.current.literal) p.current := by
  rw [statement, Body.statement]
  refine ends_bind.2 (ends_current.2 ?_)
  rw [hk]
  refine ends_bind.2 ?_
  rw [expression, Body.expression]
  refine ends_bind.2 ?_
  rw [operand, Body.operand]
  refine ends_bind.2 (ends_current.2 ?_)
  rw [hk]
  have hlarge : ¬number p.current < Nat.pow 2 63 := Nat.not_lt.mpr (Nat.le_of_pred_lt hn)
  exact ends_ite.2 ⟨fun hsmall => absurd hsmall hlarge, fun _ => ends_fail.2 ⟨rfl, rfl⟩⟩

/-- If the integer is the last token, no statement is left, and no error comes after this one. -/
theorem program_outOfRange {t : Token} (ht : p.tokens = [t]) (hm : p.endMark.kind = .endOfInput)
    (hk : t.kind = .integer) (hn : 2 ^ 63 - 1 < number t) (n : Nat) :
    Ends (program (n + 4)) p (fun prog q => prog = [] ∧
      q.errors = p.errors ++ [⟨.integerTooLarge t.literal, t.span⟩]) fun _ _ => False := by
  have hcurrent : p.current = t := by rw [Parser.current, ht, List.headD_cons]
  rw [program, Body.program]
  refine ends_bind.2 (ends_current.2 (ends_ite.2 ⟨fun hend => ?_, fun _ => ?_⟩))
  · rw [hcurrent, hk] at hend
    cases hend
  · have hstatement := statement_outOfRange (by rw [hcurrent, hk]) (by rwa [hcurrent]) n
    refine ends_bind.2 (ends_attempt.2 (hstatement.mono (fun _ _ h => h.elim) ?_))
    rintro s q ⟨rfl, rfl⟩
    refine ⟨fun _ => ?_, fun hdepth => by cases hdepth⟩
    -- the integer is given up, and behind it is the end
    refine ends_bind.2 (ends_recover.2 (ends_bind.2 (ends_advance.2 ?_)))
    rw [program, Body.program]
    refine ends_bind.2 (ends_current.2 (ends_ite.2 ⟨fun _ => ?_, fun hend => absurd ?_ hend⟩))
    · refine ⟨rfl, ?_⟩
      rw [hcurrent]
      rfl
    · simp [Parser.current, Parser.advance, Parser.record, ht, Parser.abandon, hm]

end Parse

/-- A numeral out of range is no program, and an error that carries its digits. -/
theorem reading_outOfRange {digits : String} (h : IsNumeral digits)
    (hn : 2 ^ 63 - 1 < decimalValue digits.toList) :
    (Reading.ofSource digits).program = [] ∧ (Reading.ofSource digits).errors =
      [⟨.integerTooLarge digits, ⟨0, digits.utf8ByteSize⟩⟩] := by
  obtain ⟨q, hrun, herrors⟩ := reading_run_limit digits
  have htokens : (Parser.ofLexer (Lexer.ofString digits)).tokens = [numeralToken digits] :=
    tokens_numeral h
  have hlimit : (Parser.ofLexer (Lexer.ofString digits)).limit = 12 + 4 := by
    rw [Parser.limit, htokens]
    rfl
  rw [decimalValue_eq] at hn
  have hends := Parse.program_outOfRange htokens rfl rfl hn 12
  rw [hlimit] at hrun
  rw [← herrors]
  exact hends.of_ok hrun

/-- Integer literals are read exactly or rejected. Digits alone, however many and with however many
zeros in front, are a program of one literal if their number is at most 2^63 - 1: it comes to this
number, and its canonical text and the text of its value are the decimal digits of the number
without leading zeros, which read as the number again. If the number is greater, nothing is read,
and the one error carries the digits and spans them all. -/
theorem integer_literals_exact {digits : String} (h : IsNumeral digits) :
    let n := decimalValue digits.toList
    let reading := Reading.ofSource digits
    (n ≤ 2 ^ 63 - 1 → ∃ value : Int64, value.toInt = n ∧ ReadsInteger digits value ∧
      (∀ text, IsDecimal text n ↔ text = reading.program.text) ∧
      (Value.integer value).inspect = reading.program.text ∧
      ReadsInteger reading.program.text value) ∧
    (2 ^ 63 - 1 < n → reading.program = [] ∧
      reading.errors = [⟨.integerTooLarge digits, ⟨0, digits.utf8ByteSize⟩⟩]) := by
  intro n reading
  refine ⟨fun hn => ?_, reading_outOfRange h⟩
  have hreads : ReadsInteger digits (Int64.ofNat n) := readsInteger_numeral h hn
  have hinteger : (Int64.ofNat n).toInt = n :=
    Int64.toInt_ofNat_of_lt (Nat.lt_of_le_pred (by decide) hn)
  have hrepr : (Int64.ofNat n).toInt.repr = n.repr := by
    rw [hinteger]
    rfl
  have htext : reading.program.text = n.repr := by
    rw [hreads.program]
    exact hrepr
  have hinspect : (Value.integer (Int64.ofNat n)).inspect = n.repr := hrepr
  have hdecimal := isDecimal_repr n
  have hagain : ReadsInteger n.repr (Int64.ofNat (decimalValue n.repr.toList)) :=
    readsInteger_numeral hdecimal.toIsNumeral (hdecimal.value.symm ▸ hn)
  rw [hdecimal.value] at hagain
  rw [htext]
  exact ⟨_, hinteger, hreads, fun text => isDecimal_iff, hinspect, hagain⟩

/-- The limit is one on the number and not on how many digits there are: with two zeros in front,
the greatest integer is read and the next number is not. -/
theorem integer_literals_at_limit :
    (IsNumeral "009223372036854775807" ∧
      decimalValue "009223372036854775807".toList ≤ 2 ^ 63 - 1 ∧
      ReadsInteger "009223372036854775807" Int64.maxValue ∧
      (Reading.ofSource "009223372036854775807").program.text = "9223372036854775807") ∧
    IsNumeral "009223372036854775808" ∧
      2 ^ 63 - 1 < decimalValue "009223372036854775808".toList ∧
      (Reading.ofSource "009223372036854775808").errors =
        [⟨.integerTooLarge "009223372036854775808", ⟨0, 21⟩⟩] := by
  have hgreatest : IsNumeral "009223372036854775807" := ⟨by simp, by simp⟩
  have hnext : IsNumeral "009223372036854775808" := ⟨by simp, by simp⟩
  have hin : decimalValue "009223372036854775807".toList = 9223372036854775807 := by decide
  have hout : decimalValue "009223372036854775808".toList = 9223372036854775808 := by decide
  obtain ⟨value, hvalue, hreads, htext, -⟩ := (integer_literals_exact hgreatest).1 (by omega)
  obtain ⟨-, herrors⟩ := (integer_literals_exact hnext).2 (by omega)
  have hmax : value = Int64.maxValue := by
    apply Int64.toInt.inj
    rw [hvalue, hin]
    rfl
  rw [hmax] at hreads
  refine ⟨⟨hgreatest, by omega, hreads, ?_⟩, hnext, by omega, herrors⟩
  exact ((htext "9223372036854775807").mp ⟨⟨by simp, by simp⟩, by decide, by simp⟩).symm

end MonkeyLang
