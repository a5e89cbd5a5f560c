import MonkeyLang.Command.Execute
import MonkeyLang.Proofs.Lexing.LongestMatch

namespace MonkeyLang

/-- A printed text: for each of these a line that shows it, closed by a line feed. -/
inductive Lines {α : Type} (Shows : α → String → Prop) : List α → String → Prop
  | nil : Lines Shows [] ""
  | cons {x : α} {line out : String} {xs : List α} (hx : Shows x line) (hxs : Lines Shows xs out) :
    Lines Shows (x :: xs) (line ++ "\n" ++ out)

namespace Token

open Text (Outline)

/-- The word in capitals for a kind that has none in the source or another one. -/
inductive Kind.Capitals : Kind → String → Prop
  | illegal : Capitals .illegal "ILLEGAL"
  | name : Capitals .name "IDENTIFIER"
  | integer : Capitals .integer "INTEGER"
  | fnWord : Capitals .fnWord "FUNCTION"
  | letWord : Capitals .letWord "LET"
  | ifWord : Capitals .ifWord "IF"
  | elseWord : Capitals .elseWord "ELSE"
  | returnWord : Capitals .returnWord "RETURN"
  | trueWord : Capitals .trueWord "TRUE"
  | falseWord : Capitals .falseWord "FALSE"

/-- The name of the kind that stands for a token in debug text. -/
inductive Kind.Debug : Kind → String → Prop
  | illegal : Debug .illegal "Illegal"
  | endOfInput : Debug .endOfInput "Eof"
  | name : Debug .name "Ident"
  | integer : Debug .integer "IntegerLiteral"
  | string : Debug .string "StringLiteral"
  | assign : Debug .assign "Equal"
  | plus : Debug .plus "Plus"
  | minus : Debug .minus "Minus"
  | star : Debug .star "Star"
  | slash : Debug .slash "Slash"
  | bang : Debug .bang "Bang"
  | less : Debug .less "LessThan"
  | greater : Debug .greater "GreaterThan"
  | lessEqual : Debug .lessEqual "LessThanEqual"
  | greaterEqual : Debug .greaterEqual "GreaterThanEqual"
  | equal : Debug .equal "EqualEqual"
  | notEqual : Debug .notEqual "BangEqual"
  | and : Debug .and "AndAnd"
  | or : Debug .or "OrOr"
  | comma : Debug .comma "Comma"
  | semicolon : Debug .semicolon "Semicolon"
  | leftParen : Debug .leftParen "LeftParenthesis"
  | rightParen : Debug .rightParen "RightParenthesis"
  | leftBrace : Debug .leftBrace "LeftBrace"
  | rightBrace : Debug .rightBrace "RightBrace"
  | leftBracket : Debug .leftBracket "LeftBracket"
  | rightBracket : Debug .rightBracket "RightBracket"
  | fnWord : Debug .fnWord "KeywordFn"
  | letWord : Debug .letWord "KeywordLet"
  | ifWord : Debug .ifWord "KeywordIf"
  | elseWord : Debug .elseWord "KeywordElse"
  | returnWord : Debug .returnWord "KeywordReturn"
  | trueWord : Debug .trueWord "KeywordTrue"
  | falseWord : Debug .falseWord "KeywordFalse"

/-- The line of a token in the basic format: what it is, and its literal. -/
inductive Basic (token : Token) : String → Prop
  | ending (hk : token.kind = .endOfInput) : Basic token "EOF"
  | string (hk : token.kind = .string) : Basic token ("STRING \"" ++ token.literal ++ "\"")
  | symbol {symbol : String} (hk : token.kind.Symbol symbol) :
    Basic token (symbol ++ " " ++ token.literal)
  | word {word : String} (hk : token.kind.Capitals word) :
    Basic token (word ++ " " ++ token.literal)

/-- The line of a token in a format. -/
inductive Shown (token : Token) : TokenFormat → String → Prop
  | basic {line : String} (h : token.Basic line) : Shown token .basic line
  | debug {kind : String} (h : token.kind.Debug kind) :
    Shown token .debug ("Token \x7b kind: " ++ kind ++ ", literal: " ++ Text.quoted token.literal ++
      ", span: Span \x7b start: " ++ token.span.start.repr ++ ", length: " ++
      token.span.length.repr ++ " \x7d \x7d")

theorem Kind.debug_label (kind : Kind) : kind.Debug kind.label := by
  cases kind <;> constructor

/-- What the line of a token starts with if neither the end mark nor a string. -/
theorem line_eq {token : Token} (hend : token.kind ≠ .endOfInput) (hstring : token.kind ≠ .string) :
    token.line = token.kind.text.toUpper ++ " " ++ token.literal := by
  unfold line
  split
  · contradiction
  · contradiction
  · rfl

theorem Kind.Symbol.toUpper_text {kind : Kind} {symbol : String} (h : kind.Symbol symbol) :
    kind.text.toUpper = symbol := by
  cases h <;> decide +kernel

theorem Kind.Capitals.toUpper_text {kind : Kind} {word : String} (h : kind.Capitals word) :
    kind.text.toUpper = word := by
  cases h <;> decide +kernel

theorem Kind.symbol_or_capitals {kind : Kind} (hend : kind ≠ .endOfInput)
    (hstring : kind ≠ .string) : (∃ symbol, kind.Symbol symbol) ∨ ∃ word, kind.Capitals word := by
  cases kind <;> first
    | contradiction
    | exact .inl ⟨_, by constructor⟩
    | exact .inr ⟨_, by constructor⟩

theorem basic_line (token : Token) : token.Basic token.line := by
  by_cases hend : token.kind = .endOfInput
  · have hline : token.line = "EOF" := by rw [line, hend]
    exact hline ▸ .ending hend
  by_cases hstring : token.kind = .string
  · have hline : token.line = "STRING \"" ++ token.literal ++ "\"" := by rw [line, hstring]
    exact hline ▸ .string hstring
  rw [line_eq hend hstring]
  obtain ⟨symbol, h⟩ | ⟨word, h⟩ := Kind.symbol_or_capitals hend hstring
  · rw [h.toUpper_text]
    exact .symbol h
  · rw [h.toUpper_text]
    exact .word h

theorem debug_compact (token : Token) : token.Shown .debug token.outline.compact := by
  have hline : token.outline.compact = "Token \x7b kind: " ++ token.kind.label ++ ", literal: " ++
      Text.quoted token.literal ++ ", span: Span \x7b start: " ++ token.span.start.repr ++
      ", length: " ++ token.span.length.repr ++ " \x7d \x7d" := by
    simp only [outline, Span.outline, Outline.record, Outline.nat, Outline.quoted, Outline.compact,
      Outline.compactParts, Outline.Shape.opening, Outline.Shape.padding, Outline.Shape.closing,
      Outline.Shape.remainder, List.append_nil]
    apply String.toList_injective
    simp
  rw [hline]
  exact .debug token.kind.debug_label

end Token

/-- The line of a syntax error in a format. -/
inductive SyntaxError.Shown (library : Report.Library) (path source : String)
    (error : SyntaxError) : ErrorFormat → String → Prop
  | basic : Shown library path source error .basic ("\t" ++ error.message ++ "\t")
  | pretty : Shown library path source error .pretty (library.report path source error)

namespace Command

theorem lines_joinLines {α : Type} {Shows : α → String → Prop} {f : α → String}
    (h : ∀ x, Shows x (f x)) (xs : List α) : Lines Shows xs (joinLines (xs.map f)) := by
  induction xs with
  | nil => exact .nil
  | cons x xs ih =>
    have hcons : joinLines ((x :: xs).map f) = f x ++ "\n" ++ joinLines (xs.map f) := by
      simp only [joinLines, List.map_cons, String.join_cons]
    rw [hcons]
    exact .cons (h x) ih

theorem syntaxErrorText_shown (library : Report.Library) (path source : String)
    (format : ErrorFormat) (error : SyntaxError) :
    error.Shown library path source format (syntaxErrorText library path source format error) := by
  cases format with
  | basic => exact .basic
  | pretty => exact .pretty

end Command

end MonkeyLang
