import MonkeyLang.Token.Basic

namespace MonkeyLang

/-- The size of a text in bytes. -/
def byteLength : List Char → Nat
  | [] => 0
  | c :: cs => c.utf8Size + byteLength cs

theorem byteLength_append (xs ys : List Char) :
    byteLength (xs ++ ys) = byteLength xs + byteLength ys := by
  induction xs with
  | nil => simp [byteLength]
  | cons c cs ih => simp [byteLength, ih, Nat.add_assoc]

def isBlank (c : Char) : Bool := c == ' ' || c == '\t' || c == '\n' || c == '\r'

/-- Letters are those of ASCII and the underscore; digits do not occur in names. -/
def isLetter (c : Char) : Bool := c.isAlpha || c == '_'

/-- What is cut off the front of a text: `length` counts its bytes, and `pending` those bytes of
an illegal character that are still to be reported. -/
structure Lexeme where
  kind : Token.Kind
  literal : List Char
  length : Nat
  rest : List Char
  pending : Nat := 0

namespace Lexeme

/-- The longest run of characters of one class. -/
def run (kind : List Char → Token.Kind) (p : Char → Bool) (cs : List Char) : Lexeme :=
  let taken := cs.takeWhile p
  ⟨kind taken, taken, byteLength taken, cs.dropWhile p, 0⟩

/-- A string ends at the next quote or, without one, at the end of the text. Here `cs` is what
follows the opening quote. -/
def string (cs : List Char) : Lexeme :=
  let content := cs.takeWhile (· != '"')
  match cs.dropWhile (· != '"') with
  | [] => ⟨.string, content, byteLength content + 1, [], 0⟩
  | _ :: rest => ⟨.string, content, byteLength content + 2, rest, 0⟩

/-- A character of one byte is its own literal, the bytes of others have the replacement
character. -/
def illegal (c : Char) (cs : List Char) : Lexeme :=
  ⟨.illegal, if c.utf8Size = 1 then [c] else ['\ufffd'], 1, cs, c.utf8Size - 1⟩

/-- The lexeme at the front of a text that begins with `c`, which is no blank. -/
def ofText (c : Char) (cs : List Char) : Lexeme :=
  if isLetter c then
    run (fun word => Token.Kind.ofWord (String.ofList word)) isLetter (c :: cs)
  else if c.isDigit then
    run (fun _ => .integer) Char.isDigit (c :: cs)
  else if c == '"' then
    string cs
  else
    match Token.Kind.symbolAt? (c :: cs) with
    | some (symbol, kind) =>
      ⟨kind, symbol, byteLength symbol, (c :: cs).drop symbol.length, 0⟩
    | none => illegal c cs

end Lexeme

/-- The text still to be read, after `pending` bytes of an illegal character, from byte `offset`
of the source on. -/
structure Lexer where
  rest : List Char
  pending : Nat
  offset : Nat
deriving DecidableEq, Repr

namespace Lexer

def ofString (source : String) : Lexer := ⟨source.toList, 0, 0⟩

/-- The number of bytes still to be read. -/
def remaining (lexer : Lexer) : Nat := lexer.pending + byteLength lexer.rest

/-- The mark that every further reading gives once the text is used up. -/
def endMark (lexer : Lexer) : Token := Token.endAt (lexer.offset + lexer.remaining)

def next (lexer : Lexer) : Token × Lexer :=
  match lexer.pending with
  | n + 1 =>
    (⟨.illegal, "\ufffd", ⟨lexer.offset, 1⟩⟩, ⟨lexer.rest, n, lexer.offset + 1⟩)
  | 0 =>
    let start := lexer.offset + byteLength (lexer.rest.takeWhile isBlank)
    match lexer.rest.dropWhile isBlank with
    | [] => (Token.endAt start, ⟨[], 0, start⟩)
    | c :: cs =>
      let lexeme := Lexeme.ofText c cs
      (⟨lexeme.kind, String.ofList lexeme.literal, ⟨start, lexeme.length⟩⟩,
        ⟨lexeme.rest, lexeme.pending, start + lexeme.length⟩)

/-- The lexer after so many readings. -/
def skip : Nat → Lexer → Lexer
  | 0, lexer => lexer
  | n + 1, lexer => skip n lexer.next.2

/-- At most `n` tokens, without the end mark. -/
def take : Nat → Lexer → List Token
  | 0, _ => []
  | n + 1, lexer =>
    match lexer.next with
    | (token, after) => if token.kind = .endOfInput then [] else token :: take n after

/-- All tokens before the end mark. Each has a byte of its own, so there are no more of them than
bytes. -/
def tokens (lexer : Lexer) : List Token := take lexer.remaining lexer

end Lexer

end MonkeyLang
