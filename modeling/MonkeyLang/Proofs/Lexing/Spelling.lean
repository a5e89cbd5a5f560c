import MonkeyLang.Proofs.Lexing.Tokens

namespace MonkeyLang

/-- What follows does not make a word, a number or a symbol longer. -/
def Apart (cs : List Char) : Prop :=
  ∀ c ∈ cs.head?, isLetter c = false ∧ c.isDigit = false ∧ c ≠ '='

theorem apart_cons {c : Char} {cs : List Char}
    (h : isLetter c = false ∧ c.isDigit = false ∧ c ≠ '=') : Apart (c :: cs) := by
  intro d hd
  obtain rfl : c = d := by simpa using hd
  exact h

theorem apart_nil : Apart [] := by simp [Apart]

theorem of_isBlank {c : Char} (h : isBlank c) : isLetter c = false ∧ c.isDigit = false := by
  simp only [isBlank, Bool.or_eq_true, beq_iff_eq] at h
  rcases h with ((rfl | rfl) | rfl) | rfl <;> decide

theorem not_blank_of_letter {c : Char} (h : isLetter c) : isBlank c = false := by
  cases hb : isBlank c with
  | false => rfl
  | true => simp [(of_isBlank hb).1] at h

theorem not_blank_of_digit {c : Char} (h : c.isDigit) : isBlank c = false := by
  cases hb : isBlank c with
  | false => rfl
  | true => simp [(of_isBlank hb).2] at h

theorem not_letter_of_digit {c : Char} (h : c.isDigit) : isLetter c = false := by
  have hd := Char.isDigit_iff_toNat.mp h
  have hne : c ≠ '_' := by
    rintro rfl
    exact absurd h (by decide)
  have hnine : '9'.toNat = 57 := rfl
  have hA : 'A'.toNat = 65 := rfl
  have ha : 'a'.toNat = 97 := rfl
  simp only [← Bool.not_eq_true, isLetter_iff, char_le_iff, hne, or_false]
  omega

namespace Lexeme

/-- A run of characters of one class ends where the text behind does not go on with it. -/
theorem run_append {kind : List Char → Token.Kind} {p : Char → Bool} {word cs : List Char}
    (hw : ∀ c ∈ word, p c) (hc : ∀ c ∈ cs.head?, p c = false) :
    run kind p (word ++ cs) = ⟨kind word, word, byteLength word, cs, 0⟩ := by
  have hstop : cs.takeWhile p = [] ∧ cs.dropWhile p = cs := by
    cases cs with
    | nil => simp
    | cons c cs =>
      have h := hc c (by simp)
      simp [h]
  simp [run, List.takeWhile_append_of_pos hw, List.dropWhile_append_of_pos hw, hstop]

/-- A symbol is the longest at its place unless an equals sign follows. -/
theorem symbolAt_append {symbol : List Char} {kind : Token.Kind} {cs : List Char}
    (hs : (symbol, kind) ∈ Token.Kind.symbols) (hc : ∀ c ∈ cs.head?, c ≠ '=') :
    Token.Kind.symbolAt? (symbol ++ cs) = some (symbol, kind) := by
  have heq : ['='].isPrefixOf cs = false := by
    cases cs with
    | nil => rfl
    | cons c cs =>
      have h := hc c (by simp)
      simp [List.isPrefixOf, h.symm]
  have hall : ∀ pair ∈ Token.Kind.symbols, Token.Kind.symbolAt? (pair.1 ++ cs) = some pair := by
    simp [Token.Kind.symbolAt_eq_find, Token.Kind.symbols, List.isPrefixOf_cons_cons, heq]
  exact hall _ hs

section
variable {c : Char} {cs behind : List Char}

theorem ofText_word (hw : ∀ d ∈ c :: cs, isLetter d)
    (hb : ∀ d ∈ behind.head?, isLetter d = false) : ofText c (cs ++ behind) =
      ⟨Token.Kind.ofWord (String.ofList (c :: cs)), c :: cs, byteLength (c :: cs), behind, 0⟩ := by
  unfold ofText
  rw [if_pos (hw c (by simp)), ← List.cons_append, run_append hw hb]

theorem ofText_digits (hd : ∀ d ∈ c :: cs, d.isDigit)
    (hb : ∀ d ∈ behind.head?, d.isDigit = false) :
    ofText c (cs ++ behind) = ⟨.integer, c :: cs, byteLength (c :: cs), behind, 0⟩ := by
  have hc : c.isDigit := hd c (by simp)
  unfold ofText
  rw [if_neg (by simp [not_letter_of_digit hc]), if_pos hc, ← List.cons_append, run_append hd hb]

theorem ofText_string {content : List Char} (hq : '"' ∉ content) (behind : List Char) :
    ofText '"' (content ++ '"' :: behind) =
      ⟨.string, content, byteLength content + 2, behind, 0⟩ := by
  have hw : ∀ d ∈ content, (d != '"') = true := by
    intro d hm
    simp only [bne_iff_ne, ne_eq]
    rintro rfl
    exact hq hm
  have hletter : isLetter '"' = false := by decide
  simp [ofText, string, hletter, List.takeWhile_append_of_pos hw, List.dropWhile_append_of_pos hw]

/-- Neither blanks nor words, numbers or strings begin as a symbol does. -/
theorem symbols_head : ∀ pair ∈ Token.Kind.symbols, pair.1 ≠ [] ∧ ∀ c ∈ pair.1.head?,
    isBlank c = false ∧ isLetter c = false ∧ c.isDigit = false ∧ c ≠ '"' := by
  simp [Token.Kind.symbols, isBlank, isLetter]

theorem ofText_symbol {kind : Token.Kind} (hs : (c :: cs, kind) ∈ Token.Kind.symbols)
    (hb : ∀ d ∈ behind.head?, d ≠ '=') :
    ofText c (cs ++ behind) = ⟨kind, c :: cs, byteLength (c :: cs), behind, 0⟩ := by
  obtain ⟨-, hletter, hdigit, hquote⟩ := (symbols_head _ hs).2 c rfl
  have hat := symbolAt_append hs hb
  rw [List.cons_append] at hat
  simp [ofText, hletter, hdigit, hquote, hat]

end

end Lexeme

namespace Lexer

/-- The text is read before the rest, as tokens with `ok`. -/
def Scans (text rest : List Char) (ok : List Token → Prop) : Prop :=
  ∀ offset, ∃ ts offset', (⟨text ++ rest, 0, offset⟩ : Lexer).tokens =
    ts ++ (⟨rest, 0, offset'⟩ : Lexer).tokens ∧ ok ts

variable {text rest : List Char} {ok : List Token → Prop}

theorem Scans.nil (h : ok []) : Scans [] rest ok := fun offset => ⟨[], offset, rfl, h⟩

theorem Scans.mono {ok' : List Token → Prop} (h : Scans text rest ok) (hok : ∀ ts, ok ts → ok' ts) :
    Scans text rest ok' := by
  intro offset
  obtain ⟨ts, offset', hts, hts'⟩ := h offset
  exact ⟨ts, offset', hts, hok ts hts'⟩

theorem Scans.append {front : List Char} {first : List Token → Prop}
    (hf : Scans front (text ++ rest) first)
    (ht : ∀ ts, first ts → Scans text rest fun us => ok (ts ++ us)) :
    Scans (front ++ text) rest ok := by
  intro offset
  obtain ⟨ts, middle, hts, hfirst⟩ := hf offset
  obtain ⟨us, offset', hus, hok⟩ := ht ts hfirst middle
  refine ⟨ts ++ us, offset', ?_, hok⟩
  rw [List.append_assoc, hts, hus, List.append_assoc]

theorem Scans.blank (h : Scans text rest ok) : Scans (' ' :: text) rest ok := by
  intro offset
  obtain ⟨ts, offset', hts, hok⟩ := h (offset + 1)
  refine ⟨ts, offset', ?_, hok⟩
  rw [← hts]
  apply tokens_congr
  have hb : byteLength ((' ' :: (text ++ rest)).takeWhile isBlank) =
      1 + byteLength ((text ++ rest).takeWhile isBlank) := rfl
  have hd : (' ' :: (text ++ rest)).dropWhile isBlank = (text ++ rest).dropWhile isBlank := rfl
  simp only [next, List.cons_append, hb, hd, Nat.add_assoc]

/-- One lexeme, and the text behind it. -/
theorem Scans.lexeme {c : Char} {cs literal : List Char} {kind : Token.Kind} {length : Nat}
    (hc : isBlank c = false)
    (hl : Lexeme.ofText c (cs ++ (text ++ rest)) = ⟨kind, literal, length, text ++ rest, 0⟩)
    (h : ∀ t : Token, t.kind = kind → t.literal = String.ofList literal →
      Scans text rest fun us => ok (t :: us)) :
    Scans (c :: cs ++ text) rest ok := by
  intro offset
  have hnext : (⟨c :: cs ++ text ++ rest, 0, offset⟩ : Lexer).next =
      (⟨kind, String.ofList literal, ⟨offset, length⟩⟩, ⟨text ++ rest, 0, offset + length⟩) := by
    simp [next, hc, hl, byteLength]
  have hkind : kind ≠ .endOfInput := by
    have hp := (Lexeme.ofText_proper c (cs ++ (text ++ rest))).inside
    rwa [hl] at hp
  obtain ⟨ts, offset', hts, hok⟩ := h ⟨kind, String.ofList literal, ⟨offset, length⟩⟩ rfl rfl
    (offset + length)
  refine ⟨_ :: ts, offset', ?_, hok⟩
  rw [tokens_cons (by rw [hnext]; exact hkind), hnext, hts, List.cons_append]

theorem Scans.word {word : String} (hw : ∀ c ∈ word.toList, isLetter c) (hne : word.toList ≠ [])
    (hr : ∀ c ∈ (text ++ rest).head?, isLetter c = false)
    (h : ∀ t : Token, t.kind = Token.Kind.ofWord word → t.literal = word →
      Scans text rest fun us => ok (t :: us)) :
    Scans (word.toList ++ text) rest ok := by
  obtain ⟨c, cs, hcs⟩ := List.exists_cons_of_ne_nil hne
  have hword : String.ofList (c :: cs) = word := by rw [← hcs, String.ofList_toList]
  rw [hcs] at hw ⊢
  refine Scans.lexeme (not_blank_of_letter (hw c (by simp))) (Lexeme.ofText_word hw hr) ?_
  rwa [hword]

theorem Scans.digits {digits : List Char} (hd : ∀ c ∈ digits, c.isDigit) (hne : digits ≠ [])
    (hr : ∀ c ∈ (text ++ rest).head?, c.isDigit = false)
    (h : ∀ t : Token, t.kind = .integer → t.literal = String.ofList digits →
      Scans text rest fun us => ok (t :: us)) :
    Scans (digits ++ text) rest ok := by
  obtain ⟨c, cs, rfl⟩ := List.exists_cons_of_ne_nil hne
  exact Scans.lexeme (not_blank_of_digit (hd c (by simp))) (Lexeme.ofText_digits hd hr) h

theorem Scans.string {content : List Char} (hc : '"' ∉ content)
    (h : ∀ t : Token, t.kind = .string → t.literal = String.ofList content →
      Scans text rest fun us => ok (t :: us)) :
    Scans ('"' :: (content ++ '"' :: text)) rest ok := by
  have hl := Lexeme.ofText_string hc (text ++ rest)
  rw [List.append_cons] at hl
  have hs := Scans.lexeme (by decide) hl h
  simpa using hs

theorem Scans.symbol {symbol : List Char} {kind : Token.Kind}
    (hs : (symbol, kind) ∈ Token.Kind.symbols) (hr : ∀ c ∈ (text ++ rest).head?, c ≠ '=')
    (h : ∀ t : Token, t.kind = kind → Scans text rest fun us => ok (t :: us)) :
    Scans (symbol ++ text) rest ok := by
  obtain ⟨hne, hhead⟩ := Lexeme.symbols_head _ hs
  obtain ⟨c, cs, rfl⟩ := List.exists_cons_of_ne_nil hne
  exact Scans.lexeme (hhead c rfl).1 (Lexeme.ofText_symbol hs hr) fun t hk _ => h t hk

/-- A symbol of one character. -/
theorem Scans.mark {c : Char} (kind : Token.Kind) (hs : ([c], kind) ∈ Token.Kind.symbols)
    (hr : ∀ c ∈ (text ++ rest).head?, c ≠ '=')
    (h : ∀ t : Token, t.kind = kind → Scans text rest fun us => ok (t :: us)) :
    Scans (c :: text) rest ok := Scans.symbol hs hr h

/-- A keyword before what is no letter. -/
theorem Scans.keyword {word : String} (kind : Token.Kind)
    (hw : (word, kind) ∈ Token.Kind.keywords)
    (hr : ∀ c ∈ (text ++ rest).head?, isLetter c = false)
    (h : ∀ t : Token, t.kind = kind → Scans text rest fun us => ok (t :: us)) :
    Scans (word.toList ++ text) rest ok := by
  have hall : ∀ pair ∈ Token.Kind.keywords, pair.1.toList.all isLetter ∧
      pair.1.toList ≠ [] ∧ Token.Kind.ofWord pair.1 = pair.2 := by decide
  obtain ⟨hletters, hne, hkind⟩ := hall _ hw
  exact Scans.word (List.all_eq_true.mp hletters) hne hr fun t hk _ => h t (hk.trans hkind)

end Lexer

end MonkeyLang
