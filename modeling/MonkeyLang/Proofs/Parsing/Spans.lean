import MonkeyLang.Proofs.Parsing.MapTokens
import MonkeyLang.Syntax.Parser

namespace MonkeyLang

/-- The stretch with so many more bytes before it. -/
def Span.shift (bytes : Nat) (s : Span) : Span := { s with start := bytes + s.start }

namespace Token

def mapSpan (f : Span → Span) (t : Token) : Token := { t with span := f t.span }

@[simp] theorem mapSpan_kind (f : Span → Span) (t : Token) : (t.mapSpan f).kind = t.kind := rfl

@[simp] theorem mapSpan_literal (f : Span → Span) (t : Token) :
    (t.mapSpan f).literal = t.literal := rfl

@[simp] theorem mapSpan_id (t : Token) : t.mapSpan id = t := rfl

end Token

namespace Identifier

def mapSpans (f : Span → Span) (x : Identifier) : Identifier := ⟨x.token.mapSpan f, x.name⟩

theorem mapSpans_eq (f : Span → Span) : mapSpans f = mapToken (Token.mapSpan f) := rfl

end Identifier

variable (f g : Span → Span)

mutual

/-- The tree with the spans of all its tokens changed. -/
def Expr.mapSpans : Expr → Expr
  | .name x => .name (x.mapSpans f)
  | .integer token value => .integer (token.mapSpan f) value
  | .boolean token value => .boolean (token.mapSpan f) value
  | .string token value => .string (token.mapSpan f) value
  | .array token items => .array (token.mapSpan f) (Expr.mapAllSpans items)
  | .unary token op right => .unary (token.mapSpan f) op right.mapSpans
  | .binary token left op right => .binary (token.mapSpan f) left.mapSpans op right.mapSpans
  | .conditional token condition consequence none =>
    .conditional (token.mapSpan f) condition.mapSpans consequence.mapSpans none
  | .conditional token condition consequence (some alternative) =>
    .conditional (token.mapSpan f) condition.mapSpans consequence.mapSpans
      (some alternative.mapSpans)
  | .function token parameters body =>
    .function (token.mapSpan f) (parameters.map (Identifier.mapSpans f)) body.mapSpans
  | .call token callee arguments =>
    .call (token.mapSpan f) callee.mapSpans (Expr.mapAllSpans arguments)
  | .index token left position => .index (token.mapSpan f) left.mapSpans position.mapSpans

def Expr.mapAllSpans : List Expr → List Expr
  | [] => []
  | expr :: exprs => expr.mapSpans :: Expr.mapAllSpans exprs

def Stmt.mapSpans : Stmt → Stmt
  | .letName token name value => .letName (token.mapSpan f) (name.mapSpans f) value.mapSpans
  | .returnValue token value => .returnValue (token.mapSpan f) value.mapSpans
  | .expression token value => .expression (token.mapSpan f) value.mapSpans
  | .block body => .block body.mapSpans

def Stmt.mapAllSpans : List Stmt → List Stmt
  | [] => []
  | statement :: rest => statement.mapSpans :: Stmt.mapAllSpans rest

def Block.mapSpans : Block → Block
  | .mk token statements => .mk (token.mapSpan f) (Stmt.mapAllSpans statements)

end

mutual

/-- To change the spans is to change the tokens. -/
theorem Expr.mapSpans_eq : ∀ e : Expr, e.mapSpans f = e.mapTokens (Token.mapSpan f)
  | .name _ => by rw [Expr.mapSpans, Expr.mapTokens, Identifier.mapSpans_eq]
  | .integer _ _ => by rw [Expr.mapSpans, Expr.mapTokens]
  | .boolean _ _ => by rw [Expr.mapSpans, Expr.mapTokens]
  | .string _ _ => by rw [Expr.mapSpans, Expr.mapTokens]
  | .array _ items => by rw [Expr.mapSpans, Expr.mapTokens, Expr.mapAllSpans_eq items]
  | .unary _ _ right => by rw [Expr.mapSpans, Expr.mapTokens, right.mapSpans_eq]
  | .binary _ left _ right => by
    rw [Expr.mapSpans, Expr.mapTokens, left.mapSpans_eq, right.mapSpans_eq]
  | .conditional _ condition consequence none => by
    rw [Expr.mapSpans, Expr.mapTokens, condition.mapSpans_eq, consequence.mapSpans_eq]
  | .conditional _ condition consequence (some alternative) => by
    rw [Expr.mapSpans, Expr.mapTokens, condition.mapSpans_eq, consequence.mapSpans_eq,
      alternative.mapSpans_eq]
  | .function _ _ body => by
    rw [Expr.mapSpans, Expr.mapTokens, body.mapSpans_eq, Identifier.mapSpans_eq]
  | .call _ callee arguments => by
    rw [Expr.mapSpans, Expr.mapTokens, callee.mapSpans_eq, Expr.mapAllSpans_eq arguments]
  | .index _ left position => by
    rw [Expr.mapSpans, Expr.mapTokens, left.mapSpans_eq, position.mapSpans_eq]

theorem Expr.mapAllSpans_eq : ∀ es : List Expr,
    Expr.mapAllSpans f es = Expr.mapAllTokens (Token.mapSpan f) es
  | [] => by rw [Expr.mapAllSpans, Expr.mapAllTokens]
  | e :: es => by
    rw [Expr.mapAllSpans, Expr.mapAllTokens, e.mapSpans_eq, Expr.mapAllSpans_eq es]

theorem Stmt.mapSpans_eq : ∀ s : Stmt, s.mapSpans f = s.mapTokens (Token.mapSpan f)
  | .letName _ _ value => by
    rw [Stmt.mapSpans, Stmt.mapTokens, Identifier.mapSpans_eq, value.mapSpans_eq]
  | .returnValue _ value => by rw [Stmt.mapSpans, Stmt.mapTokens, value.mapSpans_eq]
  | .expression _ value => by rw [Stmt.mapSpans, Stmt.mapTokens, value.mapSpans_eq]
  | .block body => by rw [Stmt.mapSpans, Stmt.mapTokens, body.mapSpans_eq]

theorem Stmt.mapAllSpans_eq : ∀ ss : List Stmt,
    Stmt.mapAllSpans f ss = Stmt.mapAllTokens (Token.mapSpan f) ss
  | [] => by rw [Stmt.mapAllSpans, Stmt.mapAllTokens]
  | s :: ss => by
    rw [Stmt.mapAllSpans, Stmt.mapAllTokens, s.mapSpans_eq, Stmt.mapAllSpans_eq ss]

theorem Block.mapSpans_eq : ∀ b : Block, b.mapSpans f = b.mapTokens (Token.mapSpan f)
  | .mk _ statements => by rw [Block.mapSpans, Block.mapTokens, Stmt.mapAllSpans_eq statements]

end

theorem Stmt.mapSpans_id (s : Stmt) : s.mapSpans id = s := by
  rw [Stmt.mapSpans_eq]
  exact s.mapTokens_id

theorem Stmt.mapAllSpans_mapAllSpans (ss : List Stmt) :
    Stmt.mapAllSpans g (Stmt.mapAllSpans f ss) = Stmt.mapAllSpans (g ∘ f) ss := by
  rw [Stmt.mapAllSpans_eq, Stmt.mapAllSpans_eq, Stmt.mapAllSpans_eq]
  exact Stmt.mapAllTokens_mapAllTokens _ _ ss

theorem Stmt.mapAllSpans_append (ss ts : List Stmt) :
    Stmt.mapAllSpans f (ss ++ ts) = Stmt.mapAllSpans f ss ++ Stmt.mapAllSpans f ts := by
  induction ss with
  | nil => simp [Stmt.mapAllSpans]
  | cons s ss ih => simp [Stmt.mapAllSpans, ih]

namespace SyntaxError

def mapSpan (error : SyntaxError) : SyntaxError := { error with span := f error.span }

end SyntaxError

namespace Program

def mapSpans (program : Program) : Program := Stmt.mapAllSpans f program

theorem mapSpans_append (p q : Program) :
    Program.mapSpans f (p ++ q) = p.mapSpans f ++ q.mapSpans f := Stmt.mapAllSpans_append f p q

end Program

namespace Reading

/-- The reading with the spans of all its tokens and errors changed. -/
def mapSpans (reading : Reading) : Reading :=
  ⟨reading.program.mapSpans f, reading.errors.map (SyntaxError.mapSpan f)⟩

/-- A reading and behind it another. -/
def append (first second : Reading) : Reading :=
  ⟨first.program ++ second.program, first.errors ++ second.errors⟩

end Reading

end MonkeyLang
