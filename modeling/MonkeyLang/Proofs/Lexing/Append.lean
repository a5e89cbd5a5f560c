import Mathlib.Data.List.Find
import MonkeyLang.Proofs.Lexing.Tokens
import MonkeyLang.Proofs.Parsing.Spans

namespace MonkeyLang

/-- The last token, if there is one, is a semicolon. -/
def EndsClosed (ts : List Token) : Prop := ∀ t ∈ ts.getLast?, t.kind = .semicolon

theorem EndsClosed.tail {t : Token} {ts : List Token} (h : EndsClosed (t :: ts)) :
    EndsClosed ts := by
  intro u hu
  have hne : ts ≠ [] := by
    rintro rfl
    simp at hu
  apply h
  rwa [List.getLast?_cons_of_ne_nil hne]

namespace Token.Kind

theorem symbols_nonempty : ∀ pair ∈ symbols, pair.1 ≠ [] := by decide

/-- A symbol has two characters at most, so that it shows in the first two of a text. -/
theorem symbolAt_cons_cons (c d : Char) (cs ds : List Char) :
    symbolAt? (c :: d :: cs) = symbolAt? (c :: d :: ds) := rfl

theorem symbolAt_semicolon (cs : List Char) : symbolAt? (';' :: cs) = some ([';'], .semicolon) :=
  rfl

/-- A symbol that is a text of its own. -/
theorem symbolAt_single {c : Char} {symbol : List Char} {kind : Kind}
    (h : symbolAt? [c] = some (symbol, kind)) : symbol = [c] := by
  obtain ⟨hmem, hprefix⟩ := symbolAt_mem h
  rcases List.prefix_cons_iff.mp hprefix with hnil | ⟨rest, rfl, hrest⟩
  · exact absurd hnil (symbols_nonempty _ hmem)
  · rw [List.prefix_nil.mp hrest]

theorem ofWord_ne_semicolon (word : String) : ofWord word ≠ .semicolon := by
  have hall : ∀ pair ∈ keywords, pair.2 ≠ .semicolon := by decide
  cases hl : keywords.lookup word with
  | none => simp [ofWord, hl]
  | some kind =>
    obtain ⟨before, behind, heq, -⟩ := List.lookup_eq_some_iff.mp hl
    have h := hall (word, kind) (by simp [heq])
    simpa [ofWord, hl] using h

end Token.Kind

namespace Lexeme

/-- The same lexeme, with more text behind what is left. -/
def followed (lexeme : Lexeme) (behind : List Char) : Lexeme :=
  { lexeme with rest := lexeme.rest ++ behind }

variable {c : Char} {cs : List Char} {p : Char → Bool}

theorem dropWhile_followed (h : cs.dropWhile p ≠ []) (behind : List Char) :
    (cs ++ behind).dropWhile p = cs.dropWhile p ++ behind := by
  simp [List.dropWhile_append, h]

theorem takeWhile_followed (h : cs.dropWhile p ≠ []) (behind : List Char) :
    (cs ++ behind).takeWhile p = cs.takeWhile p := by
  have hshort : (cs.takeWhile p).length ≠ cs.length := by
    intro heq
    have hlen := congrArg List.length (List.takeWhile_append_dropWhile (p := p) (l := cs))
    rw [List.length_append, heq, Nat.add_eq_left, List.length_eq_zero_iff] at hlen
    exact h hlen
  simp [List.takeWhile_append, hshort]

theorem run_followed {kind : List Char → Token.Kind} (h : (run kind p cs).rest ≠ [])
    (behind : List Char) : run kind p (cs ++ behind) = (run kind p cs).followed behind := by
  simp [run, followed, takeWhile_followed h, dropWhile_followed h]

theorem string_followed (h : (string cs).rest ≠ []) (behind : List Char) :
    string (cs ++ behind) = (string cs).followed behind := by
  cases hd : cs.dropWhile (· != '"') with
  | nil => simp [string, hd] at h
  | cons quote rest =>
    have hne : cs.dropWhile (· != '"') ≠ [] := by simp [hd]
    simp [string, followed, takeWhile_followed hne, dropWhile_followed hne, hd]

/-- A lexeme that does not use up the text, or is a semicolon, is the same before more text. -/
theorem ofText_followed (h : (ofText c cs).rest ≠ [] ∨ (ofText c cs).kind = .semicolon)
    (behind : List Char) : ofText c (cs ++ behind) = (ofText c cs).followed behind := by
  unfold ofText at h ⊢
  by_cases hletter : isLetter c = true
  · simp only [if_pos hletter] at h ⊢
    have hrest := h.resolve_right (Token.Kind.ofWord_ne_semicolon _)
    exact run_followed hrest behind
  by_cases hdigit : c.isDigit = true
  · simp only [if_neg hletter, if_pos hdigit] at h ⊢
    exact run_followed (h.resolve_right nofun) behind
  by_cases hquote : (c == '"') = true
  · simp only [if_neg hletter, if_neg hdigit, if_pos hquote] at h ⊢
    have hkind : (string cs).kind = .string := by
      unfold string
      split <;> rfl
    exact string_followed (h.resolve_right (by simp [hkind])) behind
  simp only [if_neg hletter, if_neg hdigit, if_neg hquote] at h ⊢
  cases cs with
  | nil =>
    cases hs : Token.Kind.symbolAt? [c] with
    | none => simp [hs, illegal] at h
    | some found =>
      obtain ⟨symbol, kind⟩ := found
      obtain rfl := Token.Kind.symbolAt_single hs
      have hk : kind = .semicolon := by simpa [hs] using h
      have hc : c = ';' := by
        have hall : ∀ pair ∈ Token.Kind.symbols, pair.2 = .semicolon → pair.1 = [';'] := by decide
        simpa using hall _ (Token.Kind.symbolAt_mem hs).1 hk
      subst hc
      simp [Token.Kind.symbolAt_semicolon, followed, hk]
  | cons d ds =>
    rw [List.cons_append, Token.Kind.symbolAt_cons_cons c d (ds ++ behind) ds]
    cases hs : Token.Kind.symbolAt? (c :: d :: ds) with
    | none => rfl
    | some found =>
      have hlen : found.1.length ≤ (c :: d :: ds).length := (Token.Kind.symbolAt_mem hs).2.length_le
      simp only [followed]
      rw [← List.drop_append_of_le_length hlen]
      rfl

end Lexeme

namespace Lexer

/-- Behind a text that is used up there are only the bytes of an illegal character. -/
theorem tokens_pending : ∀ n offset, EndsClosed (⟨[], n, offset⟩ : Lexer).tokens → n = 0
  | 0, _, _ => rfl
  | n + 1, offset, h => by
    have hcons : (⟨[], n + 1, offset⟩ : Lexer).tokens =
      ⟨.illegal, "\ufffd", ⟨offset, 1⟩⟩ :: (⟨[], n, offset + 1⟩ : Lexer).tokens := tokens_cons nofun
    rw [hcons] at h
    obtain rfl := tokens_pending n (offset + 1) h.tail
    have hlast := h ⟨.illegal, "\ufffd", ⟨offset, 1⟩⟩ (by rw [tokens_nil rfl]; rfl)
    cases hlast

/-- The lexer with more text behind. -/
def followed (lexer : Lexer) (behind : List Char) : Lexer :=
  { lexer with rest := lexer.rest ++ behind }

theorem next_followed {lexer : Lexer} (hk : lexer.next.1.kind ≠ .endOfInput)
    (h : EndsClosed lexer.tokens) (behind : List Char) :
    (lexer.followed behind).next = (lexer.next.1, lexer.next.2.followed behind) := by
  rw [tokens_cons hk] at h
  obtain ⟨rest, n, offset, rfl⟩ | ⟨gap, c, cs, offset, rfl, hgap, hc⟩ := of_token hk
  · rfl
  · rw [next_lexeme hgap hc] at h
    have hlexeme : (Lexeme.ofText c cs).rest ≠ [] ∨ (Lexeme.ofText c cs).kind = .semicolon := by
      by_cases hr : (Lexeme.ofText c cs).rest = []
      · right
        rw [hr] at h
        have hp := tokens_pending _ _ h.tail
        rw [hp, tokens_nil rfl] at h
        exact h _ rfl
      · exact .inl hr
    simp only [followed, List.append_assoc, List.cons_append, next_lexeme hgap hc,
      Lexeme.ofText_followed hlexeme, Lexeme.followed]

/-- Reading a token uses up what it covers. -/
theorem next_total {lexer : Lexer} (hk : lexer.next.1.kind ≠ .endOfInput) :
    lexer.next.2.offset + lexer.next.2.remaining = lexer.offset + lexer.remaining := by
  obtain ⟨rest, n, offset, rfl⟩ | ⟨gap, c, cs, offset, rfl, hgap, hc⟩ := of_token hk
  · simp only [next, remaining]
    omega
  · have hbytes := (Lexeme.ofText_covers c cs).bytes
    simp only [next_lexeme hgap hc, remaining, byteLength_append]
    omega

/-- Behind blanks the text goes on as it would alone. -/
theorem tokens_blanks {lexer : Lexer} (hk : lexer.next.1.kind = .endOfInput)
    (behind : List Char) : (lexer.followed behind).tokens =
      (⟨behind, 0, lexer.offset + lexer.remaining⟩ : Lexer).tokens := by
  obtain ⟨gap, offset, rfl, hgap⟩ := of_end hk
  apply tokens_congr
  simp only [next, followed, remaining, List.takeWhile_append_of_pos hgap,
    List.dropWhile_append_of_pos hgap, byteLength_append, Nat.zero_add, Nat.add_assoc]

/-- Over the tokens of a text: a fact holds of every lexer if it holds at the end of a text and
before a token when it holds behind it. -/
theorem by_tokens {P : Lexer → Prop} (ending : ∀ lexer, lexer.next.1.kind = .endOfInput → P lexer)
    (token : ∀ lexer, lexer.next.1.kind ≠ .endOfInput → P lexer.next.2 → P lexer) (lexer : Lexer) :
    P lexer := by
  by_cases hk : lexer.next.1.kind = .endOfInput
  · exact ending lexer hk
  · exact token lexer hk (by_tokens ending token lexer.next.2)
termination_by lexer.remaining
decreasing_by exact (next_proper lexer hk).2

/-- The tokens of a text that ends in a semicolon, or in blanks alone, are not changed by what
stands behind. -/
theorem tokens_followed (behind : List Char) (lexer : Lexer) : EndsClosed lexer.tokens →
    (lexer.followed behind).tokens =
      lexer.tokens ++ (⟨behind, 0, lexer.offset + lexer.remaining⟩ : Lexer).tokens := by
  induction lexer using by_tokens with
  | ending lexer hk =>
    intro _
    rw [tokens_blanks hk, tokens_nil hk, List.nil_append]
  | token lexer hk ih =>
    intro h
    have hnext := next_followed hk h behind
    have hk' : (lexer.followed behind).next.1.kind ≠ .endOfInput := by rwa [hnext]
    rw [tokens_cons hk] at h
    rw [tokens_cons hk', tokens_cons hk, hnext, ih h.tail, next_total hk, List.cons_append]

/-- The lexer at a place with so many more bytes before it. -/
def shift (bytes : Nat) (lexer : Lexer) : Lexer := { lexer with offset := bytes + lexer.offset }

theorem next_shift (bytes : Nat) (lexer : Lexer) : (lexer.shift bytes).next =
    (lexer.next.1.mapSpan (Span.shift bytes), lexer.next.2.shift bytes) := by
  cases lexer using by_next with
  | pending rest n offset => rfl
  | ending gap offset hgap =>
    simp only [shift, next_ending hgap, Token.endAt, Token.mapSpan, Span.shift, Nat.add_assoc]
  | lexeme gap c cs offset hgap hc =>
    simp only [shift, next_lexeme hgap hc, Token.mapSpan, Span.shift, Nat.add_assoc]

theorem tokens_shift (bytes : Nat) (lexer : Lexer) :
    (lexer.shift bytes).tokens = lexer.tokens.map (Token.mapSpan (Span.shift bytes)) := by
  have hkind : ∀ lexer : Lexer, (lexer.shift bytes).next.1.kind = lexer.next.1.kind := by
    intro lexer
    rw [next_shift, Token.mapSpan_kind]
  induction lexer using by_tokens with
  | ending lexer hk => rw [tokens_nil hk, tokens_nil ((hkind lexer).trans hk), List.map_nil]
  | token lexer hk ih =>
    have hk' : (lexer.shift bytes).next.1.kind ≠ .endOfInput := by rwa [hkind]
    rw [tokens_cons hk', tokens_cons hk, next_shift, List.map_cons, ih]

/-- The tokens of a joined text are those of its parts, each at its place. -/
theorem tokens_append {a : String} (h : EndsClosed (ofString a).tokens) (b : String) :
    (ofString (a ++ b)).tokens = (ofString a).tokens ++
      (ofString b).tokens.map (Token.mapSpan (Span.shift (byteLength a.toList))) := by
  have hfollowed := tokens_followed b.toList (ofString a) h
  have hshift := tokens_shift (byteLength a.toList) (ofString b)
  have htotal : (ofString a).offset + (ofString a).remaining = byteLength a.toList := by
    simp [ofString, remaining]
  rw [htotal] at hfollowed
  have hstart : (ofString (a ++ b)) = (ofString a).followed b.toList := by
    simp [ofString, followed]
  rw [hstart, hfollowed, ← hshift]
  rfl

theorem endMark_append (a b : String) : (ofString (a ++ b)).endMark =
    (ofString b).endMark.mapSpan (Span.shift (byteLength a.toList)) := by
  simp [endMark, ofString, remaining, Token.endAt, Token.mapSpan, Span.shift, byteLength_append]

end Lexer

end MonkeyLang
