namespace MonkeyLang.Text

/-- The characters that end a line; a carriage return and a line feed behind it end one together. -/
def isSeparator (c : Char) : Bool :=
  c == '\n' || c == '\r' || c == '\x0b' || c == '\x0c' || c == '\u0085' || c == '\u2028' ||
    c == '\u2029'

/-- The lines of a text, each with what ends it. -/
def splitLines : List Char → List (List Char)
  | [] => []
  | '\r' :: '\n' :: rest => ['\r', '\n'] :: splitLines rest
  | c :: rest =>
    if isSeparator c then
      [c] :: splitLines rest
    else
      match splitLines rest with
      | [] => [[c]]
      | line :: lines => (c :: line) :: lines

/-- No character is lost. -/
theorem flatten_splitLines (text : List Char) : (splitLines text).flatten = text := by
  fun_induction splitLines text with
  | case1 => rfl
  | case2 rest ih => simp [ih]
  | case3 c rest _ _ ih => simp [ih]
  | case4 c rest _ _ h ih => simpa [h] using ih
  | case5 c rest _ _ line lines h ih => simpa [h] using ih

/-- A line with its number, counted from one, and the position of its first character. -/
structure Line where
  number : Nat
  start : Nat
  text : List Char
deriving DecidableEq, Repr

/-- The last of these lines that starts at or before the position, or else the first. -/
def Line.find (position number start : Nat) : List (List Char) → Line
  | [] => ⟨number, start, []⟩
  | [text] => ⟨number, start, text⟩
  | text :: next :: rest =>
    if position < start + text.length then
      ⟨number, start, text⟩
    else
      Line.find position (number + 1) (start + text.length) (next :: rest)

/-- The line of a position. One behind the last separator belongs to the last line. -/
def lineAt (text : List Char) (position : Nat) : Line := Line.find position 1 0 (splitLines text)

end MonkeyLang.Text
