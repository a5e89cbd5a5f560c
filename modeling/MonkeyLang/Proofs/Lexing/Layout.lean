import Mathlib.Algebra.Group.Nat.Even
import Mathlib.Data.List.Forall2
import MonkeyLang.Proofs.Lexing.Cover
import MonkeyLang.Proofs.Lexing.Spelling

namespace MonkeyLang

variable {source : String}

namespace Lexeme

/-- Before a blank and at the end of a text, these characters are a lexeme of the kind and with the
literal. -/
def Alone (text : List Char) (kind : Token.Kind) (literal : List Char) : Prop :=
  ∃ c cs, text = c :: cs ∧ isBlank c = false ∧ ∀ behind : List Char,
    (∀ d ∈ behind.head?, isBlank d) →
      ofText c (cs ++ behind) = ⟨kind, literal, byteLength text, behind, 0⟩

/-- What begins no symbol begins none before a blank. -/
theorem symbolAt_blank {c : Char} {rest behind : List Char}
    (h : Token.Kind.symbolAt? (c :: rest) = none) (hb : ∀ d ∈ behind.head?, isBlank d) :
    Token.Kind.symbolAt? (c :: behind) = none := by
  have hall : ∀ pair ∈ Token.Kind.symbols, ∀ a ∈ pair.1, isBlank a = false := by
    simp [Token.Kind.symbols, isBlank]
  rw [Token.Kind.symbolAt_eq_find, List.find?_eq_none] at h ⊢
  intro pair hp hprefix
  obtain ⟨a, as, hsymbol⟩ := List.exists_cons_of_ne_nil (Token.Kind.symbols_nonempty pair hp)
  have hnone := h pair hp
  rw [hsymbol, List.isPrefixOf_cons_cons, Bool.and_eq_true] at hprefix hnone
  obtain ⟨ha, has⟩ := hprefix
  refine hnone ⟨ha, ?_⟩
  cases as with
  | nil => rfl
  | cons d ds =>
    have hd : isBlank d = false := hall pair hp d (by simp [hsymbol])
    cases behind with
    | nil => cases has
    | cons e es =>
      obtain ⟨rfl, -⟩ : d = e ∧ _ := by simpa [List.isPrefixOf_cons_cons] using has
      rw [hb d rfl] at hd
      cases hd

theorem even_quotes {text : List Char} (h : '"' ∉ text) : Even (text.count '"') := by
  rw [List.count_eq_zero.mpr h]
  exact Even.zero

theorem alone_word {letters : List Char} (hl : ∀ c ∈ letters, isLetter c) (hne : letters ≠ []) :
    Alone letters (Token.Kind.ofWord (String.ofList letters)) letters := by
  obtain ⟨c, cs, rfl⟩ := List.exists_cons_of_ne_nil hne
  refine ⟨c, cs, rfl, not_blank_of_letter (hl c (by simp)), fun behind hb => ?_⟩
  exact ofText_word hl fun d hd => (of_isBlank (hb d hd)).1

theorem alone_digits {digits : List Char} (hd : ∀ c ∈ digits, c.isDigit) (hne : digits ≠ []) :
    Alone digits .integer digits := by
  obtain ⟨c, cs, rfl⟩ := List.exists_cons_of_ne_nil hne
  refine ⟨c, cs, rfl, not_blank_of_digit (hd c (by simp)), fun behind hb => ?_⟩
  exact ofText_digits hd fun d hd => (of_isBlank (hb d hd)).2

theorem alone_symbol {symbol : List Char} {kind : Token.Kind}
    (hs : (symbol, kind) ∈ Token.Kind.symbols) : Alone symbol kind symbol := by
  obtain ⟨hne, hhead⟩ := symbols_head _ hs
  obtain ⟨c, cs, rfl⟩ := List.exists_cons_of_ne_nil hne
  refine ⟨c, cs, rfl, (hhead c rfl).1, fun behind hb => ofText_symbol hs fun d hd => ?_⟩
  rintro rfl
  exact absurd (hb '=' hd) (by decide)

theorem alone_string {content : List Char} (hq : '"' ∉ content) :
    Alone ('"' :: (content ++ ['"'])) .string content := by
  refine ⟨'"', content ++ ['"'], rfl, rfl, fun behind _ => ?_⟩
  rw [byteLength_quoted, List.append_assoc]
  exact ofText_string hq behind

/-- A lexeme that is not cut short by the end of the text, and begins with a character of ASCII, is
one for itself. -/
theorem Takes.alone {lexeme : Lexeme} {text : List Char} (h : lexeme.Takes text)
    (hc : ∀ c ∈ text.head?, isBlank c = false)
    (ha : ∀ c ∈ text.head?, 128 ≤ c.toNat → lexeme.kind = .string) (hq : Even (text.count '"')) :
    ∃ taken, text = taken ++ lexeme.rest ∧ lexeme.length = byteLength taken ∧
      Alone taken lexeme.kind lexeme.literal ∧ Even (taken.count '"') := by
  cases h with
  | @word letters rest hl hne =>
    have hquote : '"' ∉ letters := fun hm => absurd (hl _ hm) (by decide)
    exact ⟨letters, rfl, rfl, alone_word hl hne, even_quotes hquote⟩
  | @number digits rest hd hne =>
    have hquote : '"' ∉ digits := fun hm => absurd (hd _ hm) (by decide)
    exact ⟨digits, rfl, rfl, alone_digits hd hne, even_quotes hquote⟩
  | @symbol symbol rest kind hs =>
    have hall : ∀ pair ∈ Token.Kind.symbols, '"' ∉ pair.1 := by decide
    exact ⟨symbol, rfl, rfl, alone_symbol hs, even_quotes (hall _ hs)⟩
  | @closed content rest hcontent =>
    refine ⟨'"' :: (content ++ ['"']), by simp, (byteLength_quoted content).symm,
      alone_string hcontent, ?_⟩
    rw [List.count_cons_self, List.count_append, List.count_eq_zero.mpr hcontent]
    exact Even.add_self 1
  | @unclosed content hcontent =>
    -- its one quote would be an odd number of them
    rw [List.count_cons_self, List.count_eq_zero.mpr hcontent] at hq
    exact absurd hq (by decide)
  | @mark c rest hsize hl hd hquote hs =>
    refine ⟨[c], rfl, hsize.symm, ⟨c, [], rfl, hc c rfl, fun behind hb => ?_⟩,
      even_quotes (by simpa using hquote.symm)⟩
    have hnone := symbolAt_blank hs hb
    simp [ofText, hl, hd, hquote, hnone, illegal, hsize, byteLength]
  | @broken c rest hsize =>
    have hhigh : 128 ≤ c.toNat := Nat.le_of_not_lt fun hlt => hsize (size_of_toNat_lt hlt)
    cases ha c rfl hhigh

end Lexeme

/-- Where it stands before a blank or at the end of a text, the text of the token is read as the
token. -/
def Token.Alone (source : String) (t : Token) : Prop :=
  ∃ text, slice? source t.span.start t.span.stop = some text ∧
    Lexeme.Alone text.toList t.kind t.literal.toList

/-- A token with a byte outside ASCII at its place is a string. -/
def Token.Plain (source : String) (t : Token) : Prop :=
  ∀ b, (bytesOf source)[t.span.start]? = some b → 128 ≤ b.toNat → t.kind = .string

/-- Where only strings have bytes outside ASCII, all tokens are plain. -/
theorem Tiles.plain {offset : Nat} {ts : List Token} (h : Tiles source offset ts)
    (hp : ∀ i b, (bytesOf source)[i]? = some b → 128 ≤ b.toNat →
      ∃ t ∈ ts, t.kind = .string ∧ t.span.start ≤ i ∧ i < t.span.stop) :
    ∀ t ∈ ts, t.Plain source := by
  intro t ht b hb hhigh
  obtain ⟨u, hu, hstring, hin⟩ := hp _ b hb hhigh
  have hself : t.span.start ≤ t.span.start ∧ t.span.start < t.span.stop :=
    ⟨Nat.le_refl _, Nat.lt_add_of_pos_right (h.nonempty t ht)⟩
  rw [h.unique ht hu hself hin]
  exact hstring

namespace Lexer

theorem next_alone {lexer : Lexer} (h : lexer.At source) (hk : lexer.next.1.kind ≠ .endOfInput)
    (hp : lexer.next.1.Plain source) (hq : Even (lexer.rest.count '"')) :
    lexer.next.1.Alone source ∧ Even (lexer.next.2.rest.count '"') := by
  obtain ⟨rest, n, offset, rfl⟩ | ⟨gap, c, cs, offset, rfl, hgap, hc⟩ := of_token hk
  · obtain ⟨b, bs, hb, hdrop, -⟩ := Scanner.at_pending h
    cases hp b (Scanner.byte_of_drop hdrop) hb
  · obtain ⟨front, hsplit, hfront, -⟩ := Scanner.at_behind h hgap (by simpa using hc)
    rw [next_lexeme hgap hc, hfront] at hp ⊢
    have hgapq : '"' ∉ gap := fun hm => absurd (hgap _ hm) (by decide)
    have hrest : Even ((c :: cs).count '"') := by
      rwa [List.count_append, List.count_eq_zero.mpr hgapq, Nat.zero_add] at hq
    have hstring : 128 ≤ c.toNat → (Lexeme.ofText c cs).kind = .string := by
      intro hhigh
      obtain ⟨b, hb, hb'⟩ := Scanner.byte_high hsplit hhigh
      exact hp b hb hb'
    obtain ⟨taken, htext, hlength, halone, heven⟩ := (Lexeme.ofText_takes c cs).alone
      (by simpa using hc) (by simpa using hstring) hrest
    rw [htext] at hsplit hrest
    rw [List.count_append, Nat.even_add] at hrest
    refine ⟨⟨String.ofList taken, slice_front hsplit hlength, ?_⟩, hrest.mp heven⟩
    rwa [String.toList_ofList, String.toList_ofList]

theorem tokens_alone (lexer : Lexer) : lexer.At source → Even (lexer.rest.count '"') →
    (∀ t ∈ lexer.tokens, t.Plain source) → ∀ t ∈ lexer.tokens, t.Alone source := by
  induction lexer using by_tokens with
  | ending lexer hk =>
    intro _ _ _
    simp [tokens_nil hk]
  | token lexer hk ih =>
    intro h hq
    rw [tokens_cons hk]
    intro hp
    obtain ⟨hfirst, hrest⟩ := List.forall_mem_cons.mp hp
    obtain ⟨halone, heven⟩ := next_alone h hk hfirst hq
    exact List.forall_mem_cons.mpr ⟨halone, ih (Scanner.next_eq h).2 heven hrest⟩

end Lexer

/-- A text and the blanks before it. -/
structure Spaced where
  gap : String
  text : String

/-- The texts in a row, each behind its gap, and behind the last one more gap. -/
def layout : List Spaced → String → String
  | [], last => last
  | piece :: pieces, last => piece.gap ++ (piece.text ++ layout pieces last)

/-- Where the texts stand in a layout that begins at the place. -/
def places : Nat → List Spaced → List Span
  | _, [] => []
  | offset, piece :: pieces =>
    ⟨offset + byteLength piece.gap.toList, byteLength piece.text.toList⟩ ::
      places (offset + byteLength piece.gap.toList + byteLength piece.text.toList) pieces

/-- The gaps are of blanks, and none between two texts is empty. -/
structure Gaps (pieces : List Spaced) (last : String) : Prop where
  blank : ∀ piece ∈ pieces, ∀ c ∈ piece.gap.toList, isBlank c
  last : ∀ c ∈ last.toList, isBlank c
  apart : ∀ piece ∈ pieces.tail, piece.gap ≠ ""

section
variable {piece : Spaced} {pieces : List Spaced} {last : String}

theorem length_places (pieces : List Spaced) :
    ∀ offset, (places offset pieces).length = pieces.length := by
  induction pieces with
  | nil => exact fun _ => rfl
  | cons piece pieces ih => exact fun offset => congrArg (· + 1) (ih _)

theorem Gaps.tail (h : Gaps (piece :: pieces) last) : Gaps pieces last where
  blank p hp := h.blank p (List.mem_cons_of_mem _ hp)
  last := h.last
  apart p hp := h.apart p (List.mem_of_mem_tail hp)

/-- What stands behind a text in a layout begins with a blank. -/
theorem Gaps.behind (h : Gaps (piece :: pieces) last) :
    ∀ c ∈ (layout pieces last).toList.head?, isBlank c := by
  intro c hc
  cases pieces with
  | nil => exact h.last c (List.mem_of_mem_head? hc)
  | cons next pieces =>
    have hne : next.gap.toList ≠ [] := by
      have hgap := h.apart next (by simp)
      rwa [ne_eq, String.toList_eq_nil_iff]
    rw [layout, String.toList_append, List.head?_append_of_ne_nil _ hne] at hc
    exact h.blank next (by simp) c (List.mem_of_mem_head? hc)

/-- A layout of texts that are tokens by themselves has these tokens, each at its place. -/
theorem Lexer.tokens_layout {ts : List Token}
    (h : List.Forall₂ (fun t piece => Lexeme.Alone piece.text.toList t.kind t.literal.toList) ts
      pieces) : Gaps pieces last → ∀ offset,
    (⟨(layout pieces last).toList, 0, offset⟩ : Lexer).tokens =
      List.zipWith (fun t place => { t with span := place }) ts (places offset pieces) := by
  induction h with
  | nil =>
    intro hg offset
    apply tokens_nil
    rw [layout, next_ending hg.last]
    rfl
  | @cons t piece ts pieces halone _ ih =>
    intro hg offset
    obtain ⟨c, cs, htext, hc, hlexeme⟩ := halone
    have hofText := hlexeme _ hg.behind
    have hinside := (Lexeme.ofText_proper c (cs ++ (layout pieces last).toList)).inside
    have hsplit : (layout (piece :: pieces) last).toList =
        piece.gap.toList ++ c :: (cs ++ (layout pieces last).toList) := by
      rw [layout, String.toList_append, String.toList_append, htext]
      rfl
    have hnext := next_lexeme (hg.blank piece (by simp)) hc (cs ++ (layout pieces last).toList)
      offset
    rw [hofText] at hnext hinside
    rw [hsplit, tokens_cons (by rwa [hnext]), hnext, ih hg.tail, places, List.zipWith_cons_cons,
      String.ofList_toList]

end

/-- Different spans can be sent to any places. -/
theorem exists_span_map {spans : List Span} (h : spans.Nodup) :
    ∀ {targets : List Span}, targets.length = spans.length →
      ∃ f : Span → Span, spans.map f = targets := by
  induction spans with
  | nil =>
    intro targets hlength
    exact ⟨id, (List.eq_nil_of_length_eq_zero hlength).symm⟩
  | cons s spans ih =>
    intro targets hlength
    obtain ⟨hs, hspans⟩ := List.nodup_cons.mp h
    obtain ⟨target, targets, rfl⟩ := List.exists_cons_of_length_eq_add_one hlength
    obtain ⟨f, hf⟩ := ih hspans (Nat.succ.inj hlength)
    refine ⟨Function.update f s target, ?_⟩
    rw [List.map_cons, Function.update_self, ← hf, List.cons.injEq]
    refine ⟨rfl, List.map_congr_left fun u hu => Function.update_of_ne ?_ _ _⟩
    rintro rfl
    exact hs hu

/-- A layout of the texts of all tokens of a source moves the tokens to their new places, and the
mark of the end with them. -/
theorem Lexer.layout_moves {pieces : List Spaced} {last : String}
    (hq : Even (source.toList.count '"'))
    (hp : ∀ i b, (bytesOf source)[i]? = some b → 128 ≤ b.toNat →
      ∃ t ∈ (ofString source).tokens, t.kind = .string ∧ t.span.start ≤ i ∧ i < t.span.stop)
    (hx : List.Forall₂ (fun t piece => slice? source t.span.start t.span.stop = some piece.text)
      (ofString source).tokens pieces)
    (hg : Gaps pieces last) :
    ∃ f : Span → Span,
      (ofString source).tokens.map (fun t => f t.span) = places 0 pieces ∧
      (ofString (layout pieces last)).tokens = (ofString source).tokens.map (Token.mapSpan f) ∧
      (ofString (layout pieces last)).endMark = (ofString source).endMark.mapSpan f := by
  have hat := Scanner.ofString_at source
  have htiles := tokens_tile _ hat
  have halone := tokens_alone _ hat hq (htiles.plain hp)
  have hpieces : List.Forall₂
      (fun t piece => Lexeme.Alone piece.text.toList t.kind t.literal.toList)
      (ofString source).tokens pieces := by
    refine ((List.forall₂_and_left _ _).mpr ⟨halone, hx⟩).imp ?_
    rintro t piece ⟨⟨text, htext, ht⟩, hpiece⟩
    obtain rfl : text = piece.text := Option.some.inj (htext.symm.trans hpiece)
    exact ht
  -- the span of the mark is none of a token, so that one map serves the tokens and the mark
  have hnodup : ((ofString source).endMark.span ::
      (ofString source).tokens.map Token.span).Nodup := htiles.mark_nodup rfl
  have hlength : ((ofString (layout pieces last)).endMark.span :: places 0 pieces).length =
      ((ofString source).endMark.span :: (ofString source).tokens.map Token.span).length := by
    simp only [List.length_cons, length_places, List.length_map, hx.length_eq]
  obtain ⟨f, hf⟩ := exists_span_map hnodup hlength
  obtain ⟨hmark, hplaces⟩ := List.cons.inj hf
  rw [List.map_map] at hplaces
  refine ⟨f, hplaces, ?_, ?_⟩
  · have htokens := tokens_layout hpieces hg 0
    rw [← hplaces, List.zipWith_map_right, List.zipWith_self] at htokens
    exact htokens
  · unfold Token.mapSpan
    rw [hmark]
    rfl

end MonkeyLang
