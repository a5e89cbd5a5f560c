namespace MonkeyLang.Text

/-- The lines without what ends them: a line feed, with at most one carriage return before it. What
stands behind the last line feed is a line too, unless it is empty. -/
def inputLines : List UInt8 → List (List UInt8)
  | [] => []
  | 13 :: 10 :: rest => [] :: inputLines rest
  | 10 :: rest => [] :: inputLines rest
  | byte :: rest =>
    match inputLines rest with
    | [] => [[byte]]
    | line :: lines => (byte :: line) :: lines

/-- The text that the bytes encode, if they are UTF-8. -/
def decode? (bytes : List UInt8) : Option String := String.fromUTF8? ⟨bytes.toArray⟩

end MonkeyLang.Text
