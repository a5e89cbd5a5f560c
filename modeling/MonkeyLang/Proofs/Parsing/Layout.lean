import MonkeyLang.Proofs.Lexing.Layout
import MonkeyLang.Proofs.Parsing.Append

namespace MonkeyLang

/-- Sources that have the same tokens at other places read as the same program, at these places, and
with the same errors. -/
theorem reading_moved {source moved : String} {f : Span → Span}
    (htokens : (Lexer.ofString moved).tokens =
      (Lexer.ofString source).tokens.map (Token.mapSpan f))
    (hmark : (Lexer.ofString moved).endMark = (Lexer.ofString source).endMark.mapSpan f) :
    Reading.ofSource moved = (Reading.ofSource source).mapSpans f := by
  obtain ⟨n, p, hp, hpe⟩ := reading_run source
  obtain ⟨m, q, hq, hqe⟩ := reading_run moved
  have hstart : Parser.ofLexer (Lexer.ofString moved) =
      (Parser.ofLexer (Lexer.ofString source)).moved f [] := by
    rw [Parser.ofLexer, htokens, hmark]
    rfl
  rw [hstart] at hq
  obtain ⟨hprogram, rfl⟩ := (Parse.program_moved f [] n m _).of_ok hp hq
  have herrors : (Reading.ofSource moved).errors =
      (Reading.ofSource source).errors.map (SyntaxError.mapSpan f) := by
    rw [← hqe, ← hpe]
    rfl
  calc Reading.ofSource moved
      = ⟨(Reading.ofSource moved).program, (Reading.ofSource moved).errors⟩ := rfl
    _ = _ := by rw [hprogram, herrors]; rfl

/-- Layout never changes a program. Take a source without unclosed strings and with characters
outside ASCII in strings only, and lay out the texts of its tokens with any blanks around them, at
least one between two. Then the same tokens are read at their new places, and from them the same
program and the same errors at the same tokens. -/
theorem reading_layout {source : String} {pieces : List Spaced} {last : String}
    (hq : Even (source.toList.count '"'))
    (hp : ∀ i b, (bytesOf source)[i]? = some b → 128 ≤ b.toNat →
      ∃ t ∈ (Lexer.ofString source).tokens,
        t.kind = .string ∧ t.span.start ≤ i ∧ i < t.span.stop)
    (hx : List.Forall₂ (fun t piece => slice? source t.span.start t.span.stop = some piece.text)
      (Lexer.ofString source).tokens pieces)
    (hg : Gaps pieces last) :
    ∃ f : Span → Span,
      (Lexer.ofString source).tokens.map (fun t => f t.span) = places 0 pieces ∧
      (Lexer.ofString (layout pieces last)).tokens =
        (Lexer.ofString source).tokens.map (Token.mapSpan f) ∧
      (Lexer.ofString (layout pieces last)).endMark =
        (Lexer.ofString source).endMark.mapSpan f ∧
      Reading.ofSource (layout pieces last) = (Reading.ofSource source).mapSpans f := by
  obtain ⟨f, hplaces, htokens, hmark⟩ := Lexer.layout_moves hq hp hx hg
  exact ⟨f, hplaces, htokens, hmark, reading_moved htokens hmark⟩

/-- Two symbols and a string pulled apart, in a text that breaks off. -/
theorem reading_layout_broken_off :
    (Reading.ofSource "x==\"é\"+").errors ≠ [] ∧
      ∃ f : Span → Span, [f ⟨0, 1⟩, f ⟨1, 2⟩, f ⟨3, 4⟩, f ⟨7, 1⟩] =
          [⟨1, 1⟩, ⟨3, 2⟩, ⟨6, 4⟩, ⟨12, 1⟩] ∧
        Reading.ofSource "\nx ==\t\"é\"\r\n+  " = (Reading.ofSource "x==\"é\"+").mapSpans f := by
  have htokens : (Lexer.ofString "x==\"é\"+").tokens =
      [⟨.name, "x", ⟨0, 1⟩⟩, ⟨.equal, "==", ⟨1, 2⟩⟩, ⟨.string, "é", ⟨3, 4⟩⟩,
        ⟨.plus, "+", ⟨7, 1⟩⟩] := by
    decide +kernel
  have hp : ∀ i b, (bytesOf "x==\"é\"+")[i]? = some b → 128 ≤ b.toNat →
      ∃ t ∈ (Lexer.ofString "x==\"é\"+").tokens,
        t.kind = .string ∧ t.span.start ≤ i ∧ i < t.span.stop := by
    have hin : ∀ i : Fin (bytesOf "x==\"é\"+").length,
        128 ≤ ((bytesOf "x==\"é\"+")[i]).toNat → 3 ≤ i.val ∧ i.val < 7 := by decide +kernel
    intro i b hb hhigh
    obtain ⟨hi, rfl⟩ := List.getElem?_eq_some_iff.mp hb
    rw [htokens]
    exact ⟨⟨.string, "é", ⟨3, 4⟩⟩, by simp, rfl, hin ⟨i, hi⟩ hhigh⟩
  have hx : List.Forall₂
      (fun t (piece : Spaced) => slice? "x==\"é\"+" t.span.start t.span.stop = some piece.text)
      (Lexer.ofString "x==\"é\"+").tokens
      [⟨"\n", "x"⟩, ⟨" ", "=="⟩, ⟨"\t", "\"é\""⟩, ⟨"\r\n", "+"⟩] := by
    rw [htokens]
    refine .cons ?_ (.cons ?_ (.cons ?_ (.cons ?_ .nil))) <;> decide +kernel
  have hg : Gaps [⟨"\n", "x"⟩, ⟨" ", "=="⟩, ⟨"\t", "\"é\""⟩, ⟨"\r\n", "+"⟩] "  " := by
    constructor <;> simp [isBlank]
  have htext : layout [⟨"\n", "x"⟩, ⟨" ", "=="⟩, ⟨"\t", "\"é\""⟩, ⟨"\r\n", "+"⟩] "  " =
      "\nx ==\t\"é\"\r\n+  " := by decide +kernel
  obtain ⟨f, hplaces, -, -, hreading⟩ := reading_layout (by decide +kernel) hp hx hg
  rw [htokens] at hplaces
  rw [htext] at hreading
  exact ⟨by decide +kernel, f, hplaces.trans (by decide +kernel), hreading⟩

end MonkeyLang
