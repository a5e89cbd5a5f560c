import Mathlib.Data.List.TakeWhile
import MonkeyLang.Token.Lexer

namespace MonkeyLang

theorem char_le_iff {c d : Char} : c ≤ d ↔ c.toNat ≤ d.toNat := UInt32.le_iff_toNat_le

theorem isLetter_iff {c : Char} :
    isLetter c ↔ 'A' ≤ c ∧ c ≤ 'Z' ∨ 'a' ≤ c ∧ c ≤ 'z' ∨ c = '_' := by
  have hupper : c.isUpper = decide ('A' ≤ c ∧ c ≤ 'Z') := rfl
  have hlower : c.isLower = (decide ('a' ≤ c) && decide (c ≤ 'z')) := rfl
  have halpha : c.isAlpha = (c.isUpper || c.isLower) := rfl
  simp [isLetter, halpha, hupper, hlower, or_assoc]

/-- A word that is no keyword. -/
structure IsName (word : String) : Prop where
  letters : ∀ c ∈ word.toList, isLetter c
  nonempty : word.toList ≠ []
  kind : Token.Kind.ofWord word = .name

theorem Token.Kind.ofWord_ne (word : String) :
    ofWord word ≠ .endOfInput ∧ ofWord word ≠ .string := by
  have hall : ∀ pair ∈ keywords, pair.2 ≠ .endOfInput ∧ pair.2 ≠ .string := by decide
  cases hl : keywords.lookup word with
  | none => simp [ofWord, hl]
  | some kind =>
    have hmem : (word, kind) ∈ keywords := by
      obtain ⟨before, behind, heq, -⟩ := List.lookup_eq_some_iff.mp hl
      simp [heq]
    have h := hall _ hmem
    simpa [ofWord, hl] using h

namespace Token.Kind

/-- The symbols, each before those that begin it, so that the first that fits is the longest. -/
def symbols : List (List Char × Kind) :=
  [(['=', '='], .equal), (['!', '='], .notEqual), (['<', '='], .lessEqual),
    (['>', '='], .greaterEqual), (['&', '&'], .and), (['|', '|'], .or),
    (['='], .assign), (['+'], .plus), (['-'], .minus), (['*'], .star), (['/'], .slash),
    (['!'], .bang), (['<'], .less), (['>'], .greater), ([','], .comma), ([';'], .semicolon),
    (['('], .leftParen), ([')'], .rightParen), (['{'], .leftBrace), (['}'], .rightBrace),
    (['['], .leftBracket), ([']'], .rightBracket)]

/-- A single look ahead is enough for the longest symbol. -/
theorem symbolAt_eq_find (text : List Char) :
    symbolAt? text = symbols.find? fun symbol => symbol.1.isPrefixOf text := by
  cases text with
  | nil => rfl
  | cons c cs =>
    unfold symbolAt?
    dsimp only
    split
    case h_19 =>
      refine (List.find?_eq_none.mpr ?_).symm
      simp only [symbols, List.forall_mem_cons, List.isPrefixOf, Bool.and_eq_true, beq_iff_eq]
      grind
    all_goals
      rcases cs with _ | ⟨d, ds⟩
      · rfl
      · by_cases hd : d = '='
        · subst hd
          rfl
        · simp [symbols, List.find?_cons, List.isPrefixOf] <;> grind

theorem symbolAt_mem {text symbol : List Char} {kind : Kind}
    (h : symbolAt? text = some (symbol, kind)) :
    (symbol, kind) ∈ symbols ∧ symbol <+: text := by
  rw [symbolAt_eq_find] at h
  have hp := List.find?_some h
  exact ⟨List.mem_of_find?_eq_some h, List.isPrefixOf_iff_prefix.mp hp⟩

theorem symbols_ascii : ∀ pair ∈ symbols, ∀ a ∈ pair.1, a.toNat < 128 := by
  simp [symbols]

end Token.Kind

theorem byteLength_pos {cs : List Char} (h : cs ≠ []) : 0 < byteLength cs := by
  obtain ⟨c, cs, rfl⟩ := List.exists_cons_of_ne_nil h
  exact Nat.lt_of_lt_of_le c.utf8Size_pos (Nat.le_add_right _ _)

theorem byteLength_quoted (content : List Char) :
    byteLength ('"' :: (content ++ ['"'])) = byteLength content + 2 := by
  have hquote : '"'.utf8Size = 1 := rfl
  simp only [byteLength, byteLength_append, hquote]
  omega

namespace Lexeme

/-- The ways in which a lexeme is taken off the front of a text. -/
inductive Takes : Lexeme → List Char → Prop where
  | word {letters rest : List Char} (hl : ∀ c ∈ letters, isLetter c) (hne : letters ≠ []) :
    Takes ⟨Token.Kind.ofWord (String.ofList letters), letters, byteLength letters, rest, 0⟩
      (letters ++ rest)
  | number {digits rest : List Char} (hd : ∀ c ∈ digits, c.isDigit) (hne : digits ≠ []) :
    Takes ⟨.integer, digits, byteLength digits, rest, 0⟩ (digits ++ rest)
  | symbol {symbol rest : List Char} {kind : Token.Kind}
    (hs : (symbol, kind) ∈ Token.Kind.symbols) :
    Takes ⟨kind, symbol, byteLength symbol, rest, 0⟩ (symbol ++ rest)
  | closed {content rest : List Char} (hq : '"' ∉ content) :
    Takes ⟨.string, content, byteLength content + 2, rest, 0⟩ ('"' :: (content ++ '"' :: rest))
  | unclosed {content : List Char} (hq : '"' ∉ content) :
    Takes ⟨.string, content, byteLength content + 1, [], 0⟩ ('"' :: content)
  | mark {c : Char} {rest : List Char} (hc : c.utf8Size = 1) (hl : isLetter c = false)
    (hd : c.isDigit = false) (hq : c ≠ '"') (hs : Token.Kind.symbolAt? (c :: rest) = none) :
    Takes ⟨.illegal, [c], 1, rest, 0⟩ (c :: rest)
  | broken {c : Char} {rest : List Char} (hc : c.utf8Size ≠ 1) :
    Takes ⟨.illegal, ['\ufffd'], 1, rest, c.utf8Size - 1⟩ (c :: rest)

theorem string_takes (cs : List Char) : (string cs).Takes ('"' :: cs) := by
  have hq : '"' ∉ cs.takeWhile (· != '"') := by
    intro hm
    have h := List.all_eq_true.mp List.all_takeWhile _ hm
    simp at h
  have hsplit := List.takeWhile_append_dropWhile (p := (· != '"')) (l := cs)
  unfold string
  cases hd : cs.dropWhile (· != '"') with
  | nil =>
    rw [hd, List.append_nil] at hsplit
    have h := Takes.unclosed hq
    rwa [hsplit] at h ⊢
  | cons q rest =>
    have hne : cs.dropWhile (· != '"') ≠ [] := by simp [hd]
    have hq' : q = '"' := by
      have hn := List.head_dropWhile_not (· != '"') hne
      simpa [hd] using hn
    subst hq'
    rw [hd] at hsplit
    have h := @Takes.closed _ rest hq
    rwa [hsplit] at h

theorem ofText_takes (c : Char) (cs : List Char) : (ofText c cs).Takes (c :: cs) := by
  have hrun : ∀ p : Char → Bool, (c :: cs).takeWhile p ++ (c :: cs).dropWhile p = c :: cs :=
    fun p => List.takeWhile_append_dropWhile
  have hclass : ∀ p : Char → Bool, ∀ d ∈ (c :: cs).takeWhile p, p d :=
    fun p => List.all_eq_true.mp List.all_takeWhile
  unfold ofText
  split
  · next hc =>
    have h := @Takes.word _ ((c :: cs).dropWhile isLetter) (hclass isLetter)
      (by simp [List.takeWhile_cons_of_pos hc])
    rwa [hrun] at h
  · next hl =>
    split
    · next hc =>
      have h := @Takes.number _ ((c :: cs).dropWhile Char.isDigit) (hclass Char.isDigit)
        (by simp [List.takeWhile_cons_of_pos hc])
      rwa [hrun] at h
    · next hd =>
      split
      · next hc =>
        rw [beq_iff_eq.mp hc]
        exact string_takes cs
      · next hq =>
        split
        · next symbol kind hs =>
          obtain ⟨hmem, rest, hrest⟩ := Token.Kind.symbolAt_mem hs
          rw [← hrest, List.drop_left]
          exact .symbol hmem
        · next hs =>
          unfold illegal
          by_cases hc : c.utf8Size = 1
          · rw [if_pos hc, hc]
            exact .mark hc (by simpa using hl) (by simpa using hd) (by simpa using hq) hs
          · rw [if_neg hc]
            exact .broken hc

/-- The lexeme is a nonempty front of the text, and the rest is what is left. -/
structure Covers (lexeme : Lexeme) (text : List Char) : Prop where
  bytes : lexeme.length + lexeme.pending + byteLength lexeme.rest = byteLength text
  positive : 0 < lexeme.length

theorem Takes.covers {lexeme : Lexeme} {text : List Char} (h : lexeme.Takes text) :
    lexeme.Covers text := by
  have hquote : '"'.utf8Size = 1 := rfl
  cases h with
  | word hl hne => exact ⟨(byteLength_append _ _).symm, byteLength_pos hne⟩
  | number hd hne => exact ⟨(byteLength_append _ _).symm, byteLength_pos hne⟩
  | symbol hs =>
    have hall : ∀ pair ∈ Token.Kind.symbols, pair.1 ≠ [] := by decide
    exact ⟨(byteLength_append _ _).symm, byteLength_pos (hall _ hs)⟩
  | closed hq =>
    refine ⟨?_, Nat.succ_pos _⟩
    simp only [byteLength, byteLength_append, hquote]
    omega
  | unclosed hq =>
    refine ⟨?_, Nat.succ_pos _⟩
    simp only [byteLength, hquote]
    omega
  | mark hc hl hd hq hs => exact ⟨by simp only [byteLength, hc, Nat.add_zero], Nat.one_pos⟩
  | @broken c rest hc =>
    have hpos := c.utf8Size_pos
    refine ⟨?_, Nat.one_pos⟩
    simp only [byteLength]
    omega

theorem ofText_covers (c : Char) (cs : List Char) : (ofText c cs).Covers (c :: cs) :=
  (ofText_takes c cs).covers

/-- What a literal has to be like for its kind. -/
structure Proper (kind : Token.Kind) (literal : List Char) : Prop where
  inside : kind ≠ .endOfInput
  name : kind = .name → IsName (String.ofList literal)
  string : kind = .string → '"' ∉ literal

theorem Takes.proper {lexeme : Lexeme} {text : List Char} (h : lexeme.Takes text) :
    Proper lexeme.kind lexeme.literal := by
  cases h with
  | @word letters rest hl hne =>
    have hk := Token.Kind.ofWord_ne (String.ofList letters)
    refine ⟨hk.1, fun hn => ⟨?_, ?_, hn⟩, fun hs => absurd hs hk.2⟩
    · rwa [String.toList_ofList]
    · rwa [String.toList_ofList]
  | symbol hs =>
    have hall : ∀ pair ∈ Token.Kind.symbols,
        pair.2 ≠ .endOfInput ∧ pair.2 ≠ .name ∧ pair.2 ≠ .string := by decide
    obtain ⟨h1, h2, h3⟩ := hall _ hs
    exact ⟨h1, fun h => absurd h h2, fun h => absurd h h3⟩
  | closed hq | unclosed hq => exact ⟨nofun, nofun, fun _ => hq⟩
  | number | mark | broken => exact ⟨nofun, nofun, nofun⟩

theorem ofText_proper (c : Char) (cs : List Char) :
    Proper (ofText c cs).kind (ofText c cs).literal := (ofText_takes c cs).proper

end Lexeme

/-- The literal of the token is of its kind, and the token is not the mark of the end. -/
def Token.Proper (t : Token) : Prop := Lexeme.Proper t.kind t.literal.toList

namespace Lexer

/-- Behind the pending bytes a reading finds blanks and then the end of the text or a lexeme. -/
theorem by_next {P : Lexer → Prop} (pending : ∀ rest n offset, P ⟨rest, n + 1, offset⟩)
    (ending : ∀ gap offset, (∀ c ∈ gap, isBlank c) → P ⟨gap, 0, offset⟩)
    (lexeme : ∀ gap c cs offset, (∀ c ∈ gap, isBlank c) → isBlank c = false →
      P ⟨gap ++ c :: cs, 0, offset⟩) (lexer : Lexer) : P lexer := by
  obtain ⟨rest, n, offset⟩ := lexer
  cases n with
  | succ n => exact pending rest n offset
  | zero =>
    have hsplit := List.takeWhile_append_dropWhile (p := isBlank) (l := rest)
    have hgap : ∀ c ∈ rest.takeWhile isBlank, isBlank c := List.all_eq_true.mp List.all_takeWhile
    cases hd : rest.dropWhile isBlank with
    | nil => exact ending rest offset (List.dropWhile_eq_nil_iff.mp hd)
    | cons c cs =>
      have hne : rest.dropWhile isBlank ≠ [] := by simp [hd]
      have hc := List.head_dropWhile_not isBlank hne
      simp only [hd, List.head_cons] at hc
      have h := lexeme _ c cs offset hgap hc
      rwa [← hd, hsplit] at h

section
variable {gap : List Char} (hgap : ∀ c ∈ gap, isBlank c)
include hgap

theorem next_ending (offset : Nat) : (⟨gap, 0, offset⟩ : Lexer).next =
    (Token.endAt (offset + byteLength gap), ⟨[], 0, offset + byteLength gap⟩) := by
  have hd : gap.dropWhile isBlank = [] := List.dropWhile_eq_nil_iff.mpr hgap
  have ht := List.takeWhile_append_dropWhile (p := isBlank) (l := gap)
  rw [hd, List.append_nil] at ht
  simp only [next, hd, ht]

theorem next_lexeme {c : Char} (hc : isBlank c = false) (cs : List Char) (offset : Nat) :
    (⟨gap ++ c :: cs, 0, offset⟩ : Lexer).next =
      (⟨(Lexeme.ofText c cs).kind, String.ofList (Lexeme.ofText c cs).literal,
          ⟨offset + byteLength gap, (Lexeme.ofText c cs).length⟩⟩,
        ⟨(Lexeme.ofText c cs).rest, (Lexeme.ofText c cs).pending,
          offset + byteLength gap + (Lexeme.ofText c cs).length⟩) := by
  have hd : (c :: cs).dropWhile isBlank = c :: cs := by simp [hc]
  have ht : (c :: cs).takeWhile isBlank = [] := by simp [hc]
  simp only [next, List.dropWhile_append_of_pos hgap, List.takeWhile_append_of_pos hgap, hd, ht,
    List.append_nil]

end

/-- Where no token is left there are only blanks. -/
theorem of_end {lexer : Lexer} (h : lexer.next.1.kind = .endOfInput) :
    ∃ gap offset, lexer = ⟨gap, 0, offset⟩ ∧ ∀ c ∈ gap, isBlank c := by
  cases lexer using by_next with
  | pending rest n offset => cases h
  | ending gap offset hgap => exact ⟨gap, offset, rfl, hgap⟩
  | lexeme gap c cs offset hgap hc =>
    rw [next_lexeme hgap hc] at h
    exact absurd h (Lexeme.ofText_proper c cs).inside

/-- A token is a byte that is pending, or a lexeme behind blanks. -/
theorem of_token {lexer : Lexer} (h : lexer.next.1.kind ≠ .endOfInput) :
    (∃ rest n offset, lexer = ⟨rest, n + 1, offset⟩) ∨
      ∃ gap c cs offset, lexer = ⟨gap ++ c :: cs, 0, offset⟩ ∧ (∀ c ∈ gap, isBlank c) ∧
        isBlank c = false := by
  cases lexer using by_next with
  | pending rest n offset => exact .inl ⟨rest, n, offset, rfl⟩
  | ending gap offset hgap =>
    rw [next_ending hgap] at h
    exact absurd rfl h
  | lexeme gap c cs offset hgap hc => exact .inr ⟨gap, c, cs, offset, rfl, hgap, hc⟩

theorem next_proper (lexer : Lexer) (h : lexer.next.1.kind ≠ .endOfInput) :
    lexer.next.1.Proper ∧ lexer.next.2.remaining < lexer.remaining := by
  obtain ⟨rest, n, offset, rfl⟩ | ⟨gap, c, cs, offset, rfl, hgap, hc⟩ := of_token h
  · refine ⟨⟨nofun, nofun, nofun⟩, ?_⟩
    simp [next, remaining]
  · have hcovers := Lexeme.ofText_covers c cs
    have hbytes := hcovers.bytes
    have hpos := hcovers.positive
    rw [next_lexeme hgap hc]
    simp only [remaining, Token.Proper, String.toList_ofList, byteLength_append]
    exact ⟨Lexeme.ofText_proper c cs, by omega⟩

theorem remaining_pos {lexer : Lexer} (h : lexer.next.1.kind ≠ .endOfInput) :
    0 < lexer.remaining := Nat.lt_of_le_of_lt (Nat.zero_le _) (next_proper lexer h).2

/-- There are no more tokens than bytes. -/
theorem take_eq_take : ∀ n m lexer, lexer.remaining ≤ n → lexer.remaining ≤ m →
    take n lexer = take m lexer := by
  intro n
  induction n with
  | zero =>
    intro m lexer hn _
    cases m with
    | zero => rfl
    | succ m =>
      have he : lexer.next.1.kind = .endOfInput := by
        by_cases h : lexer.next.1.kind = .endOfInput
        · exact h
        · have hp := remaining_pos h
          omega
      simp [take, he]
  | succ n ih =>
    intro m lexer hn hm
    by_cases he : lexer.next.1.kind = .endOfInput
    · cases m with
      | zero => simp [take, he]
      | succ m => simp [take, he]
    · have hp := next_proper lexer he
      obtain ⟨m, rfl⟩ : ∃ k, m = k + 1 := ⟨m - 1, by omega⟩
      have h := ih m lexer.next.2 (by omega) (by omega)
      simp [take, he, h]

theorem tokens_nil {lexer : Lexer} (h : lexer.next.1.kind = .endOfInput) : lexer.tokens = [] := by
  unfold tokens
  cases lexer.remaining with
  | zero => rfl
  | succ n => simp [take, h]

/-- The first token, and those of what is left. -/
theorem tokens_cons {lexer : Lexer} (h : lexer.next.1.kind ≠ .endOfInput) :
    lexer.tokens = lexer.next.1 :: lexer.next.2.tokens := by
  have hp := (next_proper lexer h).2
  obtain ⟨n, hn⟩ : ∃ n, lexer.remaining = n + 1 := ⟨lexer.remaining - 1, by omega⟩
  have htake := take_eq_take n lexer.next.2.remaining lexer.next.2 (by omega) (Nat.le_refl _)
  unfold tokens
  rw [hn, take]
  simp [h, htake]

/-- The tokens depend on the first step only. -/
theorem tokens_congr {lexer lexer' : Lexer} (h : lexer.next = lexer'.next) :
    lexer.tokens = lexer'.tokens := by
  by_cases he : lexer.next.1.kind = .endOfInput
  · rw [tokens_nil he, tokens_nil (h ▸ he)]
  · have he' : lexer'.next.1.kind ≠ .endOfInput := h ▸ he
    rw [tokens_cons he, tokens_cons he', h]

theorem take_proper : ∀ n lexer, ∀ t ∈ take n lexer, t.Proper
  | 0, _, _, h => by simp [take] at h
  | n + 1, lexer, t, h => by
    rw [take] at h
    split at h
    next token after hn =>
    split at h
    · simp at h
    · next hk =>
      have hp := next_proper lexer
      rw [hn] at hp
      rcases List.mem_cons.mp h with rfl | h
      · exact (hp hk).1
      · exact take_proper n after t h

theorem tokens_proper (lexer : Lexer) : ∀ t ∈ lexer.tokens, t.Proper := take_proper _ lexer

end Lexer

end MonkeyLang
