import MonkeyLang.Syntax.Parser

namespace MonkeyLang.Parse

/-- The reader of operators is registered for the kinds that are prefix operators. -/
theorem Prefix.operator_iff {kind : Token.Kind} :
    Prefix.ofKind? kind = some .operator ↔ ∃ op, PrefixOp.ofKind? kind = some op := by
  cases kind <;> simp [Prefix.ofKind?, PrefixOp.ofKind?]

theorem Prefix.integer_iff {kind : Token.Kind} :
    Prefix.ofKind? kind = some .integer ↔ kind = .integer := by
  cases kind <;> simp [Prefix.ofKind?]

/-- The reader of operators is registered for the kinds that are infix operators. -/
theorem Infix.operator_iff {kind : Token.Kind} :
    Infix.ofKind? kind = some .operator ↔ ∃ op, InfixOp.ofKind? kind = some op := by
  cases kind <;> simp [Infix.ofKind?, InfixOp.ofKind?]

/-- What binds has a reader. -/
theorem Infix.reader_of_lt {kind : Token.Kind} {least : Strength}
    (h : least < Strength.ofKind kind) : ∃ reader, Infix.ofKind? kind = some reader := by
  cases kind <;> first
    | exact ⟨_, rfl⟩
    | exact absurd h (Nat.not_lt_zero _)

/-- A semicolon binds nothing. -/
theorem goesOn_iff {kind : Token.Kind} {least : Strength} :
    kind ≠ .semicolon ∧ least < Strength.ofKind kind ↔ least < Strength.ofKind kind := by
  refine and_iff_right_of_imp ?_
  rintro hlt rfl
  exact absurd hlt (Nat.not_lt_zero _)

/-- No reader is registered for the end of the text. -/
theorem Prefix.ne_end {kind : Token.Kind} {reader : Prefix}
    (h : Prefix.ofKind? kind = some reader) : kind ≠ .endOfInput := by
  rintro rfl
  cases h

theorem Infix.ne_end {kind : Token.Kind} {reader : Infix}
    (h : Infix.ofKind? kind = some reader) : kind ≠ .endOfInput := by
  rintro rfl
  cases h

end MonkeyLang.Parse
