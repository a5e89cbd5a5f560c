import MonkeyLang.Proofs.Parsing.Order
import MonkeyLang.Proofs.Report.Terminal

namespace MonkeyLang

theorem length_le_byteLength (cs : List Char) : cs.length ≤ byteLength cs := by
  induction cs with
  | nil => exact Nat.le_refl _
  | cons c cs ih =>
    have hpos := c.utf8Size_pos
    rw [byteLength, List.length_cons]
    omega

/-- As many bytes as characters: each of them is one byte. -/
theorem byteLength_eq_length {cs : List Char} :
    byteLength cs = cs.length ↔ ∀ c ∈ cs, c.utf8Size = 1 := by
  induction cs with
  | nil => simp [byteLength]
  | cons c cs ih =>
    have hpos := c.utf8Size_pos
    have hle := length_le_byteLength cs
    rw [List.forall_mem_cons, ← ih, byteLength, List.length_cons]
    omega

open Report

theorem SyntaxError.oneRow_note (error : SyntaxError) : OneRow error.note := by
  have hkind (kind : Token.Kind) : OneRow kind.text := by
    cases kind <;> simp [OneRow, Token.Kind.text]
  unfold note
  cases error.cause with
  | unexpected expected actual =>
    exact .append (.append (.append (by simp [OneRow]) (hkind _)) (by simp [OneRow])) (hkind _)
  | noOperand found => exact .append (hkind _) (by simp [OneRow])
  | integerTooLarge _ => simp [OneRow]

namespace Report.Library

variable {library : Library} {source path : String} {error : SyntaxError} {line : Text.Line}

/-- A report points where the numbers of the span lie among the characters. -/
theorem Lawful.points_at_span (hl : library.Lawful) (hline : library.IsLine source.toList line)
    (hspan : line.Has error.span.range) :
    library.PointsAt (library.report path source error) path line error.span.range := by
  obtain ⟨hnames, hunderlines⟩ :=
    hl.draws ⟨path, source, error.code, error.message, error.span.range,
      ⟨error.span.range, error.note⟩⟩ hline hspan hline hspan error.oneRow_note
  exact ⟨hnames, hunderlines⟩

theorem PointsAt.underlines_of {report : String} {range : Range} {first stop : Nat}
    (h : library.PointsAt report path line range)
    (hfirst : library.cellsBefore line (range.start - line.start) = first)
    (hstop : library.cellsBefore line (range.stop - line.start) = stop) :
    Underlines report first stop :=
  hfirst ▸ hstop ▸ h.underlines

/-- A report that points at two ranges names the same character for both, and the same cells are
underlined. -/
theorem PointsAt.unique {report : String} {text : List Char} {other : Text.Line}
    {range range' : Range} (h : library.PointsAt report path line range)
    (h' : library.PointsAt report path other range') (hline : library.IsLine text line)
    (hother : library.IsLine text other) (hrange : line.Has range) (hrange' : other.Has range') :
    other = line ∧ range'.start = range.start ∧
      library.cellsBefore line (range'.stop - line.start) =
        library.cellsBefore line (range.stop - line.start) := by
  obtain ⟨hnumber, hcolumn⟩ := h.names.unique h'.names
  obtain rfl := hline.eq_of_number hother hnumber.symm
  have hle := hrange.start_le
  have hle' := hrange'.start_le
  have hstart : range'.start = range.start := by omega
  have hunderlines := h.underlines
  rw [← hstart] at hunderlines
  exact ⟨rfl, hstart, (hunderlines.unique h'.underlines).symm⟩

end Report.Library

/-- The report of a syntax error at a token reads the numbers of its bytes as those of characters:
it names the character with as many characters before it as bytes stand before the token, and
underlines as many as the token has bytes. So it points at the token if all characters up to its end
are one byte, and only if those before it are and those underlined too many take no cell. -/
theorem report_points_at_bytes {library : Library} (hl : library.Lawful) {source : String}
    {error : SyntaxError} (he : error ∈ (Reading.ofSource source).errors) (path : String) :
    ∃ t ∈ Lexer.stream source, error.At t ∧
      ∀ front text behind, t.kind ≠ .endOfInput → source.toList = front ++ (text ++ behind) →
        byteLength front = t.span.start → byteLength text = t.span.length →
        (∀ line, library.IsLine source.toList line →
          line.Has ⟨byteLength front, byteLength (front ++ text)⟩ →
          library.PointsAt (library.report path source error) path line
            ⟨byteLength front, byteLength (front ++ text)⟩) ∧
        ∀ line, library.IsLine source.toList line →
          line.Has ⟨front.length, (front ++ text).length⟩ →
          ((∀ c ∈ front ++ text, c.utf8Size = 1) →
            library.PointsAt (library.report path source error) path line
              ⟨front.length, (front ++ text).length⟩) ∧
          ∀ other, library.IsLine source.toList other →
            other.Has ⟨byteLength front, byteLength (front ++ text)⟩ →
            (library.PointsAt (library.report path source error) path line
                ⟨front.length, (front ++ text).length⟩ ↔
              (∀ c ∈ front, c.utf8Size = 1) ∧
                library.cellsBefore line ((front ++ text).length - line.start) =
                  library.cellsBefore line (byteLength (front ++ text) - line.start)) := by
  obtain ⟨p, hsame, hordered⟩ := reading_ordered source
  obtain ⟨t, ht, hat⟩ := hordered.told error (hsame ▸ he)
  refine ⟨t, ht, hat, fun front text behind hk hsource hstart hlength => ?_⟩
  have hspan : error.span.range = ⟨byteLength front, byteLength (front ++ text)⟩ := by
    rw [Span.range, Span.stop, byteLength_append, hstart, hlength, hat.span]
  have hbytes : ∀ line, library.IsLine source.toList line →
      line.Has ⟨byteLength front, byteLength (front ++ text)⟩ →
      library.PointsAt (library.report path source error) path line
        ⟨byteLength front, byteLength (front ++ text)⟩ := by
    intro line hline hhas
    rw [← hspan] at hhas ⊢
    exact hl.points_at_span hline hhas
  refine ⟨hbytes, fun line hline hhas => ⟨fun hone => ?_, fun other hother hhas' => ⟨?_, ?_⟩⟩⟩
  · have hfront : byteLength front = front.length :=
      byteLength_eq_length.mpr fun c hc => hone c (List.mem_append_left _ hc)
    have hall : byteLength (front ++ text) = (front ++ text).length := byteLength_eq_length.mpr hone
    rw [← hall, ← hfront] at hhas ⊢
    exact hbytes line hline hhas
  · intro hpoints
    obtain ⟨-, hsame, hcells⟩ :=
      hpoints.unique (hbytes other hother hhas') hline hother hhas hhas'
    exact ⟨byteLength_eq_length.mp hsame, hcells.symm⟩
  · rintro ⟨hone, hcells⟩
    have hfront : byteLength front = front.length := byteLength_eq_length.mpr hone
    obtain rfl := hline.eq_of_has hother hhas hhas' hfront
    obtain ⟨hnames, hunderlines⟩ := hbytes other hother hhas'
    simp only [hfront, ← hcells] at hnames hunderlines
    exact ⟨hnames, hunderlines⟩

/-- Among characters of one byte the report names the token on the second line. -/
theorem report_points_at_second_line :
    terminal.Lawful ∧
      (⟨.noOperand .rightParen, ⟨5, 1⟩⟩ : SyntaxError) ∈ (Reading.ofSource "a;\nb )").errors ∧
      terminal.PointsAt
        (terminal.report "x.monkey" "a;\nb )" ⟨.noOperand .rightParen, ⟨5, 1⟩⟩) "x.monkey"
        ⟨2, 3, "b )".toList⟩ ⟨5, 6⟩ ∧
      Names (terminal.report "x.monkey" "a;\nb )" ⟨.noOperand .rightParen, ⟨5, 1⟩⟩) "x.monkey" 2 3 ∧
      Underlines (terminal.report "x.monkey" "a;\nb )" ⟨.noOperand .rightParen, ⟨5, 1⟩⟩) 2 3 := by
  have he : (⟨.noOperand .rightParen, ⟨5, 1⟩⟩ : SyntaxError) ∈
      (Reading.ofSource "a;\nb )").errors := by decide +kernel
  have hline : terminal.IsLine "a;\nb )".toList ⟨2, 3, "b )".toList⟩ :=
    ⟨["a;\n".toList], [], by decide +kernel, rfl, by decide +kernel⟩
  obtain ⟨t, -, hat, h⟩ := report_points_at_bytes terminal_lawful he "x.monkey"
  have hk : t.kind ≠ .endOfInput := by
    have hkind : t.kind = .rightParen := hat.cause
    simp [hkind]
  have hone : ∀ c ∈ ['a', ';', '\n', 'b', ' '] ++ [')'], c.utf8Size = 1 := by simp [Char.utf8Size]
  have hpoints := ((h ['a', ';', '\n', 'b', ' '] [')'] [] hk (by decide +kernel)
    (hat.span ▸ by decide +kernel) (hat.span ▸ by decide +kernel)).2 _ hline
      ⟨by decide +kernel, by decide +kernel, by decide +kernel⟩).1 hone
  exact ⟨terminal_lawful, he, hpoints, hpoints.names,
    hpoints.underlines_of (by decide +kernel) (by decide +kernel)⟩

/-- Behind a character of two bytes the report is one character off: the error is at the parenthesis
in the fifth column, and the sixth is named and the semicolon there underlined. -/
theorem report_behind_wide_character : ∃ error line front text behind,
    error ∈ (Reading.ofSource "\"é\" );").errors ∧
      "\"é\" );".toList = front ++ (text ++ behind) ∧ text = [')'] ∧
      byteLength front = error.span.start ∧ byteLength text = error.span.length ∧
      terminal.IsLine "\"é\" );".toList line ∧ line.Has ⟨front.length, (front ++ text).length⟩ ∧
      ¬terminal.PointsAt (terminal.report "input.monkey" "\"é\" );" error) "input.monkey" line
        ⟨front.length, (front ++ text).length⟩ ∧
      terminal.PointsAt (terminal.report "input.monkey" "\"é\" );" error) "input.monkey" line
        ⟨front.length + 1, (front ++ text).length + 1⟩ ∧
      Names (terminal.report "input.monkey" "\"é\" );" error) "input.monkey" 1 6 ∧
      Underlines (terminal.report "input.monkey" "\"é\" );" error) 5 6 := by
  have hline : terminal.IsLine "\"é\" );".toList ⟨1, 0, "\"é\" );".toList⟩ :=
    ⟨[], [], by decide +kernel, rfl, rfl⟩
  have hhas : (⟨1, 0, "\"é\" );".toList⟩ : Text.Line).Has ⟨4, 5⟩ :=
    ⟨by decide, by decide, by decide +kernel⟩
  have hhas' : (⟨1, 0, "\"é\" );".toList⟩ : Text.Line).Has ⟨5, 6⟩ :=
    ⟨by decide, by decide, by decide +kernel⟩
  have hpoints : terminal.PointsAt
      (terminal.report "input.monkey" "\"é\" );" ⟨.noOperand .rightParen, ⟨5, 1⟩⟩) "input.monkey"
      ⟨1, 0, "\"é\" );".toList⟩ ⟨5, 6⟩ := terminal_lawful.points_at_span hline hhas'
  refine ⟨⟨.noOperand .rightParen, ⟨5, 1⟩⟩, ⟨1, 0, "\"é\" );".toList⟩, ['"', 'é', '"', ' '], [')'],
    [';'], by decide +kernel, by decide +kernel, rfl, by decide +kernel, by decide +kernel, hline,
    hhas, fun h => ?_, hpoints, hpoints.names,
    hpoints.underlines_of (by decide +kernel) (by decide +kernel)⟩
  have hstart : 5 = 4 := (h.unique hpoints hline hline hhas hhas').2.1
  cases hstart

end MonkeyLang
