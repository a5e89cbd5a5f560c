import MonkeyLang.Report.Library
import MonkeyLang.Text.Lines

namespace MonkeyLang

/-- The last `c` of a text divides it in one way. -/
theorem append_cons_inj {α : Type} {c : α} {xs xs' ys ys' : List α}
    (h : xs ++ c :: ys = xs' ++ c :: ys') (hy : c ∉ ys) (hy' : c ∉ ys') : xs = xs' ∧ ys = ys' := by
  obtain ⟨zs, hxs, hys⟩ | ⟨zs, hxs, hys⟩ := List.append_eq_append_iff.mp h <;>
    cases zs <;> simp_all

theorem repr_inj {m n : Nat} (h : m.repr.toList = n.repr.toList) : m = n := by
  rw [Nat.toList_repr, Nat.toList_repr] at h
  have hvalue := congrArg (fun digits => Nat.ofDigitChars 10 digits 0) h
  simpa only [Nat.ofDigitChars_ten_toDigits] using hvalue

theorem not_mem_repr {c : Char} (hc : c.isDigit = false) (n : Nat) : c ∉ n.repr.toList := by
  intro hm
  rw [Nat.toList_repr] at hm
  have hdigit := Nat.isDigit_of_mem_toDigits (by decide) (by decide) hm
  rw [hc] at hdigit
  cases hdigit

namespace Report

/-- What is seen of a text on a terminal: nothing from an escape to the next `m`, which together
select a colour. -/
def seen (hidden : Bool) : List Char → List Char
  | [] => []
  | c :: cs =>
    if hidden then seen (c != 'm') cs
    else if c = '\x1b' then seen true cs
    else c :: seen false cs

/-- The last rows of a report with a drawing, and the text before them, which ends in the place that
is named. -/
structure Rows where
  head : List Char
  bar : List Char
  line : List Char
  marks : List Char
  note : List Char
  foot : List Char

structure Rows.Of (rows : Rows) (report : String) : Prop where
  text : report.toList = rows.head ++ '\n' :: rows.bar ++ '\n' :: rows.line ++ '\n' :: rows.marks ++
    '\n' :: rows.note ++ '\n' :: rows.foot ++ ['\n']
  apart : ∀ row ∈ [rows.bar, rows.line, rows.marks, rows.note, rows.foot], '\n' ∉ row

theorem Rows.Of.unique {rows rows' : Rows} {report : String} (h : rows.Of report)
    (h' : rows'.Of report) : rows = rows' := by
  have htext := h.text.symm.trans h'.text
  have hapart := h.apart
  have hapart' := h'.apart
  obtain ⟨head, bar, line, marks, note, foot⟩ := rows
  obtain ⟨head', bar', line', marks', note', foot'⟩ := rows'
  simp only [List.forall_mem_cons] at hapart hapart'
  obtain ⟨hbar, hline, hmarks, hnote, hfoot, -⟩ := hapart
  obtain ⟨hbar', hline', hmarks', hnote', hfoot', -⟩ := hapart'
  have htext := List.append_cancel_right htext
  obtain ⟨htext, rfl⟩ := append_cons_inj htext hfoot hfoot'
  obtain ⟨htext, rfl⟩ := append_cons_inj htext hnote hnote'
  obtain ⟨htext, rfl⟩ := append_cons_inj htext hmarks hmarks'
  obtain ⟨htext, rfl⟩ := append_cons_inj htext hline hline'
  obtain ⟨rfl, rfl⟩ := append_cons_inj htext hbar hbar'
  rfl

/-- The report names this place: path, line and column are the last that stands before the drawing,
up to what closes their row. -/
def Names (report path : String) (number column : Nat) : Prop :=
  ∃ rows : Rows, rows.Of report ∧ ∃ before behind,
    rows.head = before ++ ' ' :: path.toList ++ ':' :: number.repr.toList ++
      ':' :: column.repr.toList ++ ' ' :: behind ∧
      ∀ c ∈ behind, c ≠ ':' ∧ c ≠ ' ' ∧ c ≠ '\n'

/-- The report underlines these cells, counted from the bar on: the row below the line has dashes
there, one of which may have a stem, and is blank elsewhere. -/
def Underlines (report : String) (first stop : Nat) : Prop :=
  ∃ rows : Rows, rows.Of report ∧ ∃ margin before dashes behind,
    seen false rows.marks = margin ++ ['│', ' '] ++ before ++ dashes ++ behind ∧
      (∀ c ∈ margin ++ before ++ behind, c = ' ') ∧ (∀ c ∈ dashes, c = '─' ∨ c = '┬') ∧
      before.length = first ∧ before.length + dashes.length = stop

theorem Names.unique {report path : String} {number number' column column' : Nat}
    (h : Names report path number column) (h' : Names report path number' column') :
    number = number' ∧ column = column' := by
  obtain ⟨rows, hrows, before, behind, hhead, hbehind⟩ := h
  obtain ⟨rows', hrows', before', behind', hhead', hbehind'⟩ := h'
  obtain rfl := hrows.unique hrows'
  have htext := hhead.symm.trans hhead'
  have hcolon := not_mem_repr (c := ':') rfl
  obtain ⟨htext, -⟩ := append_cons_inj htext (fun hm => (hbehind _ hm).2.1 rfl)
    fun hm => (hbehind' _ hm).2.1 rfl
  obtain ⟨htext, hcolumn⟩ := append_cons_inj htext (hcolon column) (hcolon column')
  obtain ⟨-, hnumber⟩ := append_cons_inj htext (hcolon number) (hcolon number')
  exact ⟨repr_inj hnumber, repr_inj hcolumn⟩

/-- All that is not blank is the bar and what is underlined. -/
theorem countP_marks {marks margin before dashes behind : List Char}
    (hmarks : marks = margin ++ ['│', ' '] ++ before ++ dashes ++ behind)
    (hblank : ∀ c ∈ margin ++ before ++ behind, c = ' ')
    (hdashes : ∀ c ∈ dashes, c = '─' ∨ c = '┬') : marks.countP (· ≠ ' ') = dashes.length + 1 := by
  have hnone : ∀ part ⊆ margin ++ before ++ behind, part.countP (· ≠ ' ') = 0 := by
    intro part hpart
    rw [List.countP_eq_zero]
    intro c hc
    simp [hblank c (hpart hc)]
  have hall : dashes.countP (· ≠ ' ') = dashes.length := by
    rw [List.countP_eq_length]
    intro c hc
    rcases hdashes c hc with rfl | rfl <;> decide
  rw [hmarks]
  simp only [List.countP_append, hall, hnone margin (by simp), hnone before (by simp),
    hnone behind (by simp)]
  simp [Nat.add_comm]

theorem Underlines.unique {report : String} {first stop stop' : Nat}
    (h : Underlines report first stop) (h' : Underlines report first stop') : stop = stop' := by
  obtain ⟨rows, hrows, margin, before, dashes, behind, hmarks, hblank, hdashes, rfl, rfl⟩ := h
  obtain ⟨rows', hrows', margin', before', dashes', behind', hmarks', hblank', hdashes', hfirst,
    rfl⟩ := h'
  obtain rfl := hrows.unique hrows'
  have hcount := countP_marks hmarks hblank hdashes
  have hcount' := countP_marks hmarks' hblank' hdashes'
  omega

end Report

end MonkeyLang
