import MonkeyLang.Proofs.Lexing.Layout

namespace MonkeyLang

namespace Token

/-- What a token says, wherever it stands. -/
def word (t : Token) : Kind × String := (t.kind, t.literal)

/-- There is a text that is read as the token before a blank and at the end. -/
def Spelled (t : Token) : Prop := ∃ text, Lexeme.Alone text t.kind t.literal.toList

theorem spelled_symbol {t : Token} (h : (t.literal.toList, t.kind) ∈ Kind.symbols) : t.Spelled :=
  ⟨_, Lexeme.alone_symbol h⟩

end Token

/-- A string that the end of the text cuts short has a text with its other quote. -/
theorem Lexeme.Takes.spelled {lexeme : Lexeme} {text : List Char} (h : lexeme.Takes text)
    (hk : lexeme.kind ≠ .illegal) : ∃ text, Alone text lexeme.kind lexeme.literal := by
  cases h with
  | word hl hne => exact ⟨_, alone_word hl hne⟩
  | number hd hne => exact ⟨_, alone_digits hd hne⟩
  | symbol hs => exact ⟨_, alone_symbol hs⟩
  | closed hq | unclosed hq => exact ⟨_, alone_string hq⟩
  | mark | broken => exact absurd rfl hk

namespace Lexer

theorem next_spelled {lexer : Lexer} (hk : lexer.next.1.kind ≠ .endOfInput)
    (hl : lexer.next.1.kind ≠ .illegal) : lexer.next.1.Spelled := by
  obtain ⟨rest, n, offset, rfl⟩ | ⟨gap, c, cs, offset, rfl, hgap, hc⟩ := of_token hk
  · exact absurd rfl hl
  · rw [next_lexeme hgap hc] at hl ⊢
    obtain ⟨text, htext⟩ := (Lexeme.ofText_takes c cs).spelled hl
    exact ⟨text, by rwa [String.toList_ofList]⟩

theorem tokens_spelled (lexer : Lexer) :
    ∀ t ∈ lexer.tokens, t.kind ≠ .illegal → t.Spelled := by
  induction lexer using by_tokens with
  | ending lexer hk => simp [tokens_nil hk]
  | token lexer hk ih =>
    rw [tokens_cons hk]
    exact List.forall_mem_cons.mpr ⟨next_spelled hk, ih⟩

/-- The texts of tokens with blanks between them are read as these tokens. -/
theorem exists_source {ts : List Token} (h : ∀ t ∈ ts, t.Spelled) :
    ∃ source, (ofString source).tokens.map Token.word = ts.map Token.word := by
  obtain ⟨texts, htexts⟩ : ∃ texts : List String,
      List.Forall₂ (fun t text => Lexeme.Alone text.toList t.kind t.literal.toList) ts texts := by
    induction ts with
    | nil => exact ⟨[], .nil⟩
    | cons t ts ih =>
      obtain ⟨⟨text, ht⟩, hts⟩ := List.forall_mem_cons.mp h
      obtain ⟨texts, htexts⟩ := ih hts
      exact ⟨String.ofList text :: texts, .cons (by rwa [String.toList_ofList]) htexts⟩
  obtain ⟨pieces, hpieces⟩ : ∃ pieces, pieces = texts.map (Spaced.mk " ") := ⟨_, rfl⟩
  have hgap : ∀ piece ∈ pieces, piece.gap = " " := by
    intro piece hp
    obtain ⟨text, -, rfl⟩ := List.mem_map.mp (hpieces ▸ hp)
    rfl
  have hblank : ∀ c ∈ " ".toList, isBlank c := by simp [isBlank]
  have hgaps : Gaps pieces "" := by
    refine ⟨fun piece hp => ?_, by simp, fun piece hp => ?_⟩
    · rwa [hgap piece hp]
    · rw [hgap piece (List.mem_of_mem_tail hp)]
      decide
  have halone : List.Forall₂
      (fun t piece => Lexeme.Alone piece.text.toList t.kind t.literal.toList) ts pieces := by
    rw [hpieces, List.forall₂_map_right_iff]
    exact htexts
  have hlength : ts.length ≤ (places 0 pieces).length := by
    rw [length_places, halone.length_eq]
  refine ⟨layout pieces "", ?_⟩
  calc (ofString (layout pieces "")).tokens.map Token.word
      = List.zipWith (fun t _ => t.word) ts (places 0 pieces) := by
        unfold ofString
        rw [tokens_layout halone hgaps 0, List.map_zipWith]
        rfl
    _ = ((ts.zip (places 0 pieces)).map Prod.fst).map Token.word := by
        rw [List.map_map, List.map_zip_eq_zipWith]
        rfl
    _ = ts.map Token.word := by rw [List.map_fst_zip hlength]

end Lexer

end MonkeyLang
