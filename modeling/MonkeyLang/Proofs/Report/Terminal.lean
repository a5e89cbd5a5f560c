import MonkeyLang.Proofs.Report.Lawful
import MonkeyLang.Report.Render

namespace MonkeyLang.Report

open Text (Line)

/-- The text is of one row. -/
def OneRow (text : String) : Prop := '\n' ∉ text.toList

section
variable {a b text : String} {colour : Colour} {texts : List String}

theorem OneRow.append (ha : OneRow a) (hb : OneRow b) : OneRow (a ++ b) := by
  unfold OneRow at *
  simp [ha, hb]

theorem OneRow.ite {c : Prop} [Decidable c] (ha : OneRow a) (hb : OneRow b) :
    OneRow (if c then a else b) := by
  split
  · exact ha
  · exact hb

theorem OneRow.join (h : ∀ text ∈ texts, OneRow text) : OneRow (String.join texts) := by
  induction texts with
  | nil => simp [OneRow]
  | cons text texts ih =>
    obtain ⟨ht, hts⟩ := List.forall_mem_cons.mp h
    rw [String.join_cons]
    exact ht.append (ih hts)

theorem OneRow.repeated (n : Nat) (h : OneRow text) : OneRow (repeated n text) :=
  .join fun _ hm => List.eq_of_mem_replicate hm ▸ h

theorem OneRow.paint (h : OneRow text) : OneRow (paint colour text) := by
  have hcode : OneRow colour.code := by cases colour <;> simp [OneRow, Colour.code]
  unfold Report.paint
  refine .append (.append (.append (.append ?_ hcode) ?_) h) ?_ <;> simp [OneRow]

theorem oneRow_repr (n : Nat) : OneRow n.repr := not_mem_repr rfl n

theorem oneRow_blanks (n : Nat) : OneRow (blanks n) := .repeated n (by simp [OneRow])

end

/-- The text is seen as these characters, whatever stands behind it. -/
def Shows (text : String) (chars : List Char) : Prop :=
  ∀ behind, seen false (text.toList ++ behind) = chars ++ seen false behind

section
variable {a b text : String} {as bs chars : List Char} {colour : Colour}

theorem shows_plain (h : '\x1b' ∉ text.toList) : Shows text text.toList := by
  intro behind
  generalize text.toList = cs at h
  induction cs with
  | nil => rfl
  | cons c cs ih =>
    rw [List.mem_cons, not_or] at h
    obtain ⟨hc, hcs⟩ := h
    simp [seen, Ne.symm hc, ih hcs]

theorem Shows.seen_eq (h : Shows text chars) : seen false text.toList = chars := by
  have hseen := h []
  rwa [List.append_nil, seen, List.append_nil] at hseen

theorem Shows.append (ha : Shows a as) (hb : Shows b bs) : Shows (a ++ b) (as ++ bs) := by
  intro behind
  rw [String.toList_append, List.append_assoc, ha, hb, List.append_assoc]

theorem Shows.repeated {c : Char} (h : Shows text [c]) (n : Nat) :
    Shows (repeated n text) (List.replicate n c) := by
  induction n with
  | zero => exact fun _ => rfl
  | succ n ih =>
    rw [Report.repeated, List.replicate_succ, String.join_cons, List.replicate_succ]
    exact h.append ih

theorem shows_blanks (n : Nat) : Shows (blanks n) (List.replicate n ' ') :=
  .repeated (shows_plain (by decide)) n

theorem Shows.join {α : Type} {l : List α} {f : α → String} {g : α → List Char}
    (h : ∀ x ∈ l, Shows (f x) (g x)) : Shows (String.join (l.map f)) (l.flatMap g) := by
  induction l with
  | nil => exact fun _ => rfl
  | cons x l ih =>
    obtain ⟨hx, hl⟩ := List.forall_mem_cons.mp h
    rw [List.map_cons, String.join_cons, List.flatMap_cons]
    exact hx.append (ih hl)

/-- What selects a colour is not seen. -/
theorem seen_hidden {cs : List Char} (h : 'm' ∉ cs) (behind : List Char) :
    seen true (cs ++ 'm' :: behind) = seen false behind := by
  induction cs with
  | nil => rfl
  | cons c cs ih =>
    rw [List.mem_cons, not_or] at h
    obtain ⟨hc, hcs⟩ := h
    have hgoes : (c != 'm') = true := bne_iff_ne.mpr (Ne.symm hc)
    simp [seen, hgoes, ih hcs]

theorem Shows.paint (h : Shows text chars) : Shows (paint colour text) chars := by
  intro behind
  have hcode : 'm' ∉ '[' :: colour.code.toList := by cases colour <;> simp [Colour.code]
  have htext : (Report.paint colour text).toList ++ behind =
      '\x1b' :: ('[' :: colour.code.toList ++ 'm' ::
        (text.toList ++ '\x1b' :: (['[', '0'] ++ 'm' :: behind))) := by
    simp [Report.paint]
  have hoff : seen true (['[', '0'] ++ 'm' :: behind) = seen false behind :=
    seen_hidden (by decide) behind
  rw [htext]
  change seen true _ = _
  rw [seen_hidden hcode, h]
  exact congrArg (chars ++ ·) hoff

end

namespace Drawing

variable (drawing : Drawing)

/-- What is seen in the first cell and in the others under a column. -/
def firstMark (column : Nat) : Char :=
  if column = drawing.middle then (if drawing.covers column then '┬' else '│')
  else if drawing.covers column then '─' else ' '

def mark (column : Nat) : Char := if drawing.covers column then '─' else ' '

def marksAt (column : Nat) : List Char :=
  match cells drawing.line.text column with
  | 0 => []
  | n + 1 => drawing.firstMark column :: List.replicate n (drawing.mark column)

theorem length_marksAt (column : Nat) :
    (drawing.marksAt column).length = cells drawing.line.text column := by
  unfold marksAt
  cases cells drawing.line.text column <;> simp

variable {drawing : Drawing}

theorem marksAt_covered {column : Nat} (h : drawing.covers column) :
    ∀ c ∈ drawing.marksAt column, c = '─' ∨ c = '┬' := by
  have hmark : drawing.mark column = '─' := if_pos h
  have hfirst : drawing.firstMark column = '─' ∨ drawing.firstMark column = '┬' := by
    unfold firstMark
    rw [if_pos h, if_pos h]
    split
    · exact .inr rfl
    · exact .inl rfl
  unfold marksAt
  split
  · simp
  · refine List.forall_mem_cons.mpr ⟨hfirst, fun c hc => ?_⟩
    exact .inl ((List.eq_of_mem_replicate hc).trans hmark)

theorem marksAt_blank {column : Nat} (h : drawing.covers column = false)
    (hm : column ≠ drawing.middle) : ∀ c ∈ drawing.marksAt column, c = ' ' := by
  have hmark : drawing.mark column = ' ' := by simp [mark, h]
  have hfirst : drawing.firstMark column = ' ' := by simp [firstMark, h, hm]
  unfold marksAt
  split
  · simp
  · refine List.forall_mem_cons.mpr ⟨hfirst, fun c hc => ?_⟩
    exact (List.eq_of_mem_replicate hc).trans hmark

theorem margin_shows (drawing : Drawing) :
    Shows drawing.margin (List.replicate (drawing.numberWidth + 2) ' ' ++ ['│', ' ']) := by
  have hblank : Shows " " [' '] := shows_plain (by decide)
  have hbar : Shows "│" ['│'] := shows_plain (by decide)
  have hmargin : Shows drawing.margin
      ([' '] ++ (List.replicate (drawing.numberWidth + 1) ' ' ++ ['│']) ++ [' ']) :=
    (hblank.append ((shows_blanks (drawing.numberWidth + 1)).append hbar).paint).append hblank
  rw [List.replicate_succ]
  simpa using hmargin

/-- A row is seen column by column behind the bar. -/
theorem row_shows {first more : Nat → String} {f m : Nat → Char}
    (hfirst : ∀ column, Shows (first column) [f column])
    (hmore : ∀ column, Shows (more column) [m column]) (drawing : Drawing) :
    Shows (drawing.row first more) (List.replicate (drawing.numberWidth + 2) ' ' ++ ['│', ' '] ++
      drawing.columns.flatMap fun column =>
        match cells drawing.line.text column with
        | 0 => []
        | n + 1 => f column :: List.replicate n (m column)) := by
  refine drawing.margin_shows.append (.join fun column _ => ?_)
  cases cells drawing.line.text column with
  | zero => exact fun _ => rfl
  | succ n => exact (hfirst column).append ((hmore column).repeated n)

theorem underlineRow_shows (drawing : Drawing) : Shows drawing.underlineRow
    (List.replicate (drawing.numberWidth + 2) ' ' ++ ['│', ' '] ++
      drawing.columns.flatMap drawing.marksAt) := by
  have hblank : Shows " " [' '] := shows_plain (by decide)
  have hbar : Shows "│" ['│'] := shows_plain (by decide)
  have hdash : Shows "─" ['─'] := shows_plain (by decide)
  have hstem : Shows "┬" ['┬'] := shows_plain (by decide)
  have hmark (column : Nat) :
      Shows (if drawing.covers column then paint .label "─" else " ") [drawing.mark column] := by
    unfold mark
    split
    · exact hdash.paint
    · exact hblank
  refine row_shows (fun column => ?_) hmark drawing
  unfold firstMark
  split
  · split
    · exact hstem.paint
    · exact hbar.paint
  · exact hmark column

theorem range_append_range' (m n : Nat) : List.range m ++ List.range' m n = List.range (m + n) := by
  simpa only [← List.range_eq_range', Nat.zero_add] using List.range'_append_1 (s := 0) (m := m)

/-- The columns before those of the range, those of the range, and two more. -/
theorem columns_eq (drawing : Drawing) (h : drawing.line.Has ⟨drawing.start, drawing.stop⟩) :
    drawing.columns = List.range (drawing.start - drawing.line.start) ++
      List.range' (drawing.start - drawing.line.start) (drawing.stop - drawing.start) ++
      List.range' (drawing.stop - drawing.line.start) 2 := by
  have hle := h.start_le
  have hlt := h.nonempty
  simp only at hle hlt
  have hstop : drawing.stop - drawing.line.start =
      drawing.start - drawing.line.start + (drawing.stop - drawing.start) := by omega
  rw [columns, hstop, range_append_range', range_append_range']

theorem length_marks_before (drawing : Drawing) (column : Nat) :
    ((List.range column).flatMap drawing.marksAt).length =
      terminal.cellsBefore drawing.line column := by
  induction column with
  | zero => rfl
  | succ column ih =>
    rw [List.range_succ, List.flatMap_append, List.length_append, ih, List.flatMap_singleton,
      length_marksAt]
    rfl

section
variable (h : drawing.line.Has ⟨drawing.start, drawing.stop⟩)
include h

theorem covers_iff {column : Nat} : drawing.covers column ↔
    drawing.start - drawing.line.start ≤ column ∧ column < drawing.stop - drawing.line.start := by
  have hle := h.start_le
  have hlt := h.nonempty
  simp only at hle hlt
  simp only [covers, Bool.and_eq_true, decide_eq_true_eq]
  omega

theorem middle_covered : drawing.covers drawing.middle := by
  have hle := h.start_le
  have hlt := h.nonempty
  simp only at hle hlt
  rw [covers_iff h, middle]
  omega

theorem marksAt_outside {column : Nat} (hc : ¬drawing.covers column) :
    ∀ c ∈ drawing.marksAt column, c = ' ' :=
  marksAt_blank (Bool.eq_false_iff.mpr hc) fun hm => hc (hm ▸ middle_covered h)

end

theorem oneRow_margin (drawing : Drawing) : OneRow drawing.margin :=
  .append (.append (by simp [OneRow]) (.paint (.append (oneRow_blanks _) (by simp [OneRow]))))
    (by simp [OneRow])

/-- A line feed is drawn as a blank. -/
theorem oneRow_characterCells (drawing : Drawing) (column : Nat) (c : Char) :
    OneRow (drawing.characterCells column c) := by
  rw [characterCells]
  generalize (if drawing.covers column then Colour.label else Colour.dim) = colour
  have hblank : OneRow (paint colour " ") := .paint (by simp [OneRow])
  by_cases hwhite : Text.isWhite c
  · rw [if_pos hwhite]
    exact hblank.repeated _
  · rw [if_neg hwhite]
    refine .paint fun hm => hwhite ?_
    rw [String.toList_singleton, List.mem_singleton] at hm
    rw [← hm]
    decide

theorem oneRow_sourceRow (drawing : Drawing) : OneRow drawing.sourceRow := by
  unfold sourceRow
  refine .append (.append (.append ?_ (.paint (.append (oneRow_repr _) ?_))) ?_) (.join ?_)
  · simp [OneRow]
  · simp [OneRow]
  · simp [OneRow]
  · intro text hm
    obtain ⟨column, c, rfl⟩ := List.mem_mapIdx.mp hm
    exact oneRow_characterCells drawing column _

theorem oneRow_row {first more : Nat → String} (hfirst : ∀ column, OneRow (first column))
    (hmore : ∀ column, OneRow (more column)) (drawing : Drawing) :
    OneRow (drawing.row first more) := by
  refine drawing.oneRow_margin.append (.join fun text hm => ?_)
  obtain ⟨column, -, rfl⟩ := List.mem_map.mp hm
  split
  · simp [OneRow]
  · exact (hfirst column).append ((hmore column).repeated _)

theorem oneRow_underlineRow (drawing : Drawing) : OneRow drawing.underlineRow := by
  have hblank : OneRow " " := by simp [OneRow]
  have hdash : OneRow (paint .label "─") := .paint (by simp [OneRow])
  have hmark (column : Nat) : OneRow (if drawing.covers column then paint .label "─" else " ") :=
    .ite hdash hblank
  refine oneRow_row (fun column => .ite (.paint (.ite ?_ ?_)) (hmark column)) hmark drawing <;>
    simp [OneRow]

theorem oneRow_noteRow (drawing : Drawing) (h : OneRow drawing.note) : OneRow drawing.noteRow := by
  have hblank : OneRow " " := by simp [OneRow]
  have hdash : OneRow (paint .label "─") := .paint (by simp [OneRow])
  have hcorner : OneRow (paint .label "╰") := .paint (by simp [OneRow])
  have hline (column : Nat) : OneRow (if column < drawing.middle then " " else paint .label "─") :=
    .ite hblank hdash
  refine .append (.append (oneRow_row (fun column => ?_) hline drawing) hblank) h
  exact .ite hcorner (hline column)

/-- The rows of the frame, behind what is printed before it. -/
def rows (drawing : Drawing) (headline path : String) : Rows where
  head := (headline ++ drawing.placeRow path).toList
  bar := drawing.barRow.toList
  line := drawing.sourceRow.toList
  marks := drawing.underlineRow.toList
  note := drawing.noteRow.toList
  foot := drawing.footRow.toList

section
variable (h : drawing.line.Has ⟨drawing.start, drawing.stop⟩) (headline path : String)
include h

theorem rows_of (hnote : OneRow drawing.note) :
    (drawing.rows headline path).Of (headline ++ drawing.text path) where
  text := by
    have hwithin : ¬drawing.line.start + drawing.line.text.length < drawing.stop :=
      Nat.not_lt.mpr h.stop_le
    have hline : "\n".toList = ['\n'] := by simp
    simp only [rows, text, if_neg hwithin, String.toList_append, hline, List.append_assoc,
      List.cons_append, List.nil_append]
  apart := by
    have hbar : OneRow drawing.barRow :=
      .append (oneRow_blanks _) (.paint (by simp [OneRow]))
    have hfoot : OneRow drawing.footRow :=
      .paint (.append (.repeated _ (by simp [OneRow])) (by simp [OneRow]))
    simp only [rows, List.forall_mem_cons]
    exact ⟨hbar, drawing.oneRow_sourceRow, drawing.oneRow_underlineRow,
      drawing.oneRow_noteRow hnote, hfoot, fun _ hm => by cases hm⟩

theorem text_names (hnote : OneRow drawing.note) :
    Names (headline ++ drawing.text path) path drawing.number drawing.column := by
  refine ⟨_, rows_of h headline path hnote,
    (headline ++ (blanks (drawing.numberWidth + 2) ++ paint .margin "╭" ++ paint .margin "─" ++
      paint .margin "[")).toList, (paint .margin "]").toList, ?_, ?_⟩
  · simp [rows, placeRow]
  · simp [paint, Colour.code]

/-- The marks fall into those before the range, those of the range, which are all dashes, and those
behind it. -/
theorem text_underlines (hnote : OneRow drawing.note) :
    Underlines (headline ++ drawing.text path)
      (terminal.cellsBefore drawing.line (drawing.start - drawing.line.start))
      (terminal.cellsBefore drawing.line (drawing.stop - drawing.line.start)) := by
  have hmarks : (drawing.rows headline path).marks = drawing.underlineRow.toList := by rw [rows]
  have houtside {columns : List Nat} (hc : ∀ column ∈ columns, ¬drawing.covers column) :
      ∀ c ∈ columns.flatMap drawing.marksAt, c = ' ' := by
    intro c hm
    obtain ⟨column, hcolumn, hm⟩ := List.mem_flatMap.mp hm
    exact marksAt_outside h (hc column hcolumn) c hm
  have hle := h.start_le
  have hlt := h.nonempty
  simp only at hle hlt
  refine ⟨_, rows_of h headline path hnote, List.replicate (drawing.numberWidth + 2) ' ',
    (List.range (drawing.start - drawing.line.start)).flatMap drawing.marksAt,
    (List.range' (drawing.start - drawing.line.start)
      (drawing.stop - drawing.start)).flatMap drawing.marksAt,
    (List.range' (drawing.stop - drawing.line.start) 2).flatMap drawing.marksAt, ?_, ?_, ?_,
    drawing.length_marks_before _, ?_⟩
  · rw [hmarks, drawing.underlineRow_shows.seen_eq, drawing.columns_eq h, List.flatMap_append,
      List.flatMap_append]
    simp only [List.append_assoc]
  · intro c hm
    rcases List.mem_append.mp hm with hm | hm
    · rcases List.mem_append.mp hm with hm | hm
      · exact List.eq_of_mem_replicate hm
      · refine houtside (fun column hcolumn => ?_) c hm
        rw [List.mem_range] at hcolumn
        rw [covers_iff h]
        omega
    · refine houtside (fun column hcolumn => ?_) c hm
      rw [List.mem_range'_1] at hcolumn
      rw [covers_iff h]
      omega
  · intro c hm
    obtain ⟨column, hcolumn, hm⟩ := List.mem_flatMap.mp hm
    rw [List.mem_range'_1] at hcolumn
    exact marksAt_covered ((covers_iff h).mpr (by omega)) c hm
  · have hstop : drawing.stop - drawing.line.start =
        drawing.start - drawing.line.start + (drawing.stop - drawing.start) := by omega
    rw [← List.length_append, ← List.flatMap_append, range_append_range', ← hstop,
      length_marks_before]

end

end Drawing

/-- Ranges are positions among the characters, and what is drawn agrees with the cells that are
counted. -/
theorem terminal_lawful : terminal.Lawful where
  flatten_lines := Text.flatten_splitLines
  draws request named line hnamed hplace hline hlabel hnote := by
    have hlineAt {range : Range} {line : Line} (hline : terminal.IsLine request.source.toList line)
        (hrange : line.Has range) : Text.lineAt request.source.toList range.start = line :=
      hline.find_eq hrange.start_le (Nat.lt_of_lt_of_le hrange.nonempty hrange.stop_le)
    have hwithin : isWithin request.label.range request.source.toList.length := by
      have hstart := hlabel.nonempty
      have hstop := hlabel.stop_le
      have htext := hline.stop_le (Text.flatten_splitLines _)
      simp only [isWithin, Bool.and_eq_true, Bool.or_eq_true, decide_eq_true_eq]
      omega
    let drawing : Drawing := ⟨named.number, request.place.start - named.start + 1, line,
      request.label.range.start, request.label.range.stop, request.label.note⟩
    have hdraw : terminal.draw request = paint .red ("[" ++ request.code ++ "] Error:") ++ " " ++
        request.message ++ "\n" ++ drawing.text request.path := by
      simp only [terminal, if_pos hwithin, hlineAt hnamed hplace, hlineAt hline hlabel, drawing]
    have hhas : drawing.line.Has ⟨drawing.start, drawing.stop⟩ := hlabel
    rw [hdraw]
    exact ⟨Drawing.text_names hhas _ _ hnote, Drawing.text_underlines hhas _ _ hnote⟩

end MonkeyLang.Report
