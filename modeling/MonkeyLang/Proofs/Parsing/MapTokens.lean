import MonkeyLang.Syntax.Canonical

namespace MonkeyLang

namespace Identifier

def mapToken (f : Token → Token) (x : Identifier) : Identifier := ⟨f x.token, x.name⟩

theorem mapToken_id (x : Identifier) : x.mapToken id = x := rfl

theorem mapToken_mapToken (f g : Token → Token) (x : Identifier) :
    (x.mapToken f).mapToken g = x.mapToken (g ∘ f) := rfl

end Identifier

variable (f g : Token → Token)

mutual

/-- The tree with all its tokens changed. -/
def Expr.mapTokens : Expr → Expr
  | .name x => .name (x.mapToken f)
  | .integer token value => .integer (f token) value
  | .boolean token value => .boolean (f token) value
  | .string token value => .string (f token) value
  | .array token items => .array (f token) (Expr.mapAllTokens items)
  | .unary token op right => .unary (f token) op right.mapTokens
  | .binary token left op right => .binary (f token) left.mapTokens op right.mapTokens
  | .conditional token condition consequence none =>
    .conditional (f token) condition.mapTokens consequence.mapTokens none
  | .conditional token condition consequence (some alternative) =>
    .conditional (f token) condition.mapTokens consequence.mapTokens (some alternative.mapTokens)
  | .function token parameters body =>
    .function (f token) (parameters.map (Identifier.mapToken f)) body.mapTokens
  | .call token callee arguments =>
    .call (f token) callee.mapTokens (Expr.mapAllTokens arguments)
  | .index token left position => .index (f token) left.mapTokens position.mapTokens

def Expr.mapAllTokens : List Expr → List Expr
  | [] => []
  | expr :: exprs => expr.mapTokens :: Expr.mapAllTokens exprs

def Stmt.mapTokens : Stmt → Stmt
  | .letName token name value => .letName (f token) (name.mapToken f) value.mapTokens
  | .returnValue token value => .returnValue (f token) value.mapTokens
  | .expression token value => .expression (f token) value.mapTokens
  | .block body => .block body.mapTokens

def Stmt.mapAllTokens : List Stmt → List Stmt
  | [] => []
  | statement :: rest => statement.mapTokens :: Stmt.mapAllTokens rest

def Block.mapTokens : Block → Block
  | .mk token statements => .mk (f token) (Stmt.mapAllTokens statements)

end

def Program.mapTokens (program : Program) : Program := Stmt.mapAllTokens f program

mutual

theorem Expr.mapTokens_id : ∀ e : Expr, e.mapTokens id = e
  | .name _ => by simp [Expr.mapTokens, Identifier.mapToken_id]
  | .integer _ _ => by simp [Expr.mapTokens]
  | .boolean _ _ => by simp [Expr.mapTokens]
  | .string _ _ => by simp [Expr.mapTokens]
  | .array _ items => by simp [Expr.mapTokens, Expr.mapAllTokens_id items]
  | .unary _ _ right => by simp [Expr.mapTokens, right.mapTokens_id]
  | .binary _ left _ right => by simp [Expr.mapTokens, left.mapTokens_id, right.mapTokens_id]
  | .conditional _ condition consequence none => by
    simp [Expr.mapTokens, condition.mapTokens_id, consequence.mapTokens_id]
  | .conditional _ condition consequence (some alternative) => by
    simp [Expr.mapTokens, condition.mapTokens_id, consequence.mapTokens_id,
      alternative.mapTokens_id]
  | .function _ parameters body => by
    simp [Expr.mapTokens, body.mapTokens_id, funext Identifier.mapToken_id]
  | .call _ callee arguments => by
    simp [Expr.mapTokens, callee.mapTokens_id, Expr.mapAllTokens_id arguments]
  | .index _ left position => by simp [Expr.mapTokens, left.mapTokens_id, position.mapTokens_id]

theorem Expr.mapAllTokens_id : ∀ es : List Expr, Expr.mapAllTokens id es = es
  | [] => by simp [Expr.mapAllTokens]
  | e :: es => by simp [Expr.mapAllTokens, e.mapTokens_id, Expr.mapAllTokens_id es]

theorem Stmt.mapTokens_id : ∀ s : Stmt, s.mapTokens id = s
  | .letName _ _ value => by simp [Stmt.mapTokens, Identifier.mapToken_id, value.mapTokens_id]
  | .returnValue _ value => by simp [Stmt.mapTokens, value.mapTokens_id]
  | .expression _ value => by simp [Stmt.mapTokens, value.mapTokens_id]
  | .block body => by simp [Stmt.mapTokens, body.mapTokens_id]

theorem Stmt.mapAllTokens_id : ∀ ss : List Stmt, Stmt.mapAllTokens id ss = ss
  | [] => by simp [Stmt.mapAllTokens]
  | s :: ss => by simp [Stmt.mapAllTokens, s.mapTokens_id, Stmt.mapAllTokens_id ss]

theorem Block.mapTokens_id : ∀ b : Block, b.mapTokens id = b
  | .mk _ statements => by simp [Block.mapTokens, Stmt.mapAllTokens_id statements]

end

mutual

theorem Expr.mapTokens_mapTokens : ∀ e : Expr, (e.mapTokens f).mapTokens g = e.mapTokens (g ∘ f)
  | .name _ => by simp [Expr.mapTokens, Identifier.mapToken_mapToken]
  | .integer _ _ => by simp [Expr.mapTokens]
  | .boolean _ _ => by simp [Expr.mapTokens]
  | .string _ _ => by simp [Expr.mapTokens]
  | .array _ items => by simp [Expr.mapTokens, Expr.mapAllTokens_mapAllTokens items]
  | .unary _ _ right => by simp [Expr.mapTokens, right.mapTokens_mapTokens]
  | .binary _ left _ right => by
    simp [Expr.mapTokens, left.mapTokens_mapTokens, right.mapTokens_mapTokens]
  | .conditional _ condition consequence none => by
    simp [Expr.mapTokens, condition.mapTokens_mapTokens, consequence.mapTokens_mapTokens]
  | .conditional _ condition consequence (some alternative) => by
    simp [Expr.mapTokens, condition.mapTokens_mapTokens, consequence.mapTokens_mapTokens,
      alternative.mapTokens_mapTokens]
  | .function _ parameters body => by
    simp [Expr.mapTokens, body.mapTokens_mapTokens, Function.comp_def, Identifier.mapToken_mapToken]
  | .call _ callee arguments => by
    simp [Expr.mapTokens, callee.mapTokens_mapTokens, Expr.mapAllTokens_mapAllTokens arguments]
  | .index _ left position => by
    simp [Expr.mapTokens, left.mapTokens_mapTokens, position.mapTokens_mapTokens]

theorem Expr.mapAllTokens_mapAllTokens : ∀ es : List Expr,
    Expr.mapAllTokens g (Expr.mapAllTokens f es) = Expr.mapAllTokens (g ∘ f) es
  | [] => by simp [Expr.mapAllTokens]
  | e :: es => by
    simp [Expr.mapAllTokens, e.mapTokens_mapTokens, Expr.mapAllTokens_mapAllTokens es]

theorem Stmt.mapTokens_mapTokens : ∀ s : Stmt, (s.mapTokens f).mapTokens g = s.mapTokens (g ∘ f)
  | .letName _ _ value => by
    simp [Stmt.mapTokens, Identifier.mapToken_mapToken, value.mapTokens_mapTokens]
  | .returnValue _ value => by simp [Stmt.mapTokens, value.mapTokens_mapTokens]
  | .expression _ value => by simp [Stmt.mapTokens, value.mapTokens_mapTokens]
  | .block body => by simp [Stmt.mapTokens, body.mapTokens_mapTokens]

theorem Stmt.mapAllTokens_mapAllTokens : ∀ ss : List Stmt,
    Stmt.mapAllTokens g (Stmt.mapAllTokens f ss) = Stmt.mapAllTokens (g ∘ f) ss
  | [] => by simp [Stmt.mapAllTokens]
  | s :: ss => by
    simp [Stmt.mapAllTokens, s.mapTokens_mapTokens, Stmt.mapAllTokens_mapAllTokens ss]

theorem Block.mapTokens_mapTokens : ∀ b : Block, (b.mapTokens f).mapTokens g = b.mapTokens (g ∘ f)
  | .mk _ statements => by simp [Block.mapTokens, Stmt.mapAllTokens_mapAllTokens statements]

end

theorem parameterText_mapToken (parameters : List Identifier) :
    parameterText (parameters.map (Identifier.mapToken f)) = parameterText parameters := by
  simp [parameterText, List.map_map, Function.comp_def, Identifier.mapToken]

theorem Stmt.separator_mapTokens (s : Stmt) : (s.mapTokens f).separator = s.separator := by
  cases s <;> simp [Stmt.mapTokens, Stmt.separator]

mutual

theorem Expr.text_mapTokens : ∀ e : Expr, (e.mapTokens f).text = e.text
  | .name x => by simp [Expr.mapTokens, Expr.text, Identifier.mapToken]
  | .integer _ _ => by simp [Expr.mapTokens, Expr.text]
  | .boolean _ _ => by simp [Expr.mapTokens, Expr.text]
  | .string _ _ => by simp [Expr.mapTokens, Expr.text]
  | .array _ items => by simp [Expr.mapTokens, Expr.text, Expr.texts_mapTokens items]
  | .unary _ _ right => by simp [Expr.mapTokens, Expr.text, right.text_mapTokens]
  | .binary _ left _ right => by
    simp [Expr.mapTokens, Expr.text, left.text_mapTokens, right.text_mapTokens]
  | .conditional _ condition consequence none => by
    simp [Expr.mapTokens, Expr.text, condition.text_mapTokens, consequence.text_mapTokens]
  | .conditional _ condition consequence (some alternative) => by
    simp [Expr.mapTokens, Expr.text, condition.text_mapTokens, consequence.text_mapTokens,
      alternative.text_mapTokens]
  | .function _ parameters body => by
    simp [Expr.mapTokens, Expr.text, parameterText_mapToken, body.text_mapTokens]
  | .call _ callee arguments => by
    simp [Expr.mapTokens, Expr.text, callee.text_mapTokens, Expr.texts_mapTokens arguments]
  | .index _ left position => by
    simp [Expr.mapTokens, Expr.text, left.text_mapTokens, position.text_mapTokens]

theorem Expr.texts_mapTokens : ∀ es : List Expr,
    Expr.texts (Expr.mapAllTokens f es) = Expr.texts es
  | [] => by simp [Expr.mapAllTokens]
  | e :: es => by simp [Expr.mapAllTokens, Expr.texts, e.text_mapTokens, Expr.texts_mapTokens es]

theorem Stmt.text_mapTokens : ∀ s : Stmt, (s.mapTokens f).text = s.text
  | .letName _ name value => by
    simp [Stmt.mapTokens, Stmt.text, Identifier.mapToken, value.text_mapTokens]
  | .returnValue _ value => by simp [Stmt.mapTokens, Stmt.text, value.text_mapTokens]
  | .expression _ value => by simp [Stmt.mapTokens, Stmt.text, value.text_mapTokens]
  | .block body => by simp [Stmt.mapTokens, Stmt.text, body.text_mapTokens]

theorem Stmt.sequenceText_mapTokens : ∀ ss : List Stmt,
    Stmt.sequenceText (Stmt.mapAllTokens f ss) = Stmt.sequenceText ss
  | [] => by simp [Stmt.mapAllTokens]
  | [s] => by simp [Stmt.mapAllTokens, Stmt.sequenceText, s.text_mapTokens]
  | s :: next :: rest => by
    have ih := Stmt.sequenceText_mapTokens (next :: rest)
    simp only [Stmt.mapAllTokens] at ih ⊢
    simp [Stmt.sequenceText, s.text_mapTokens, s.separator_mapTokens, ih]

theorem Block.text_mapTokens : ∀ b : Block, (b.mapTokens f).text = b.text
  | .mk _ [] => by simp [Block.mapTokens, Stmt.mapAllTokens, Block.text]
  | .mk _ (s :: rest) => by
    have ih := Stmt.sequenceText_mapTokens (s :: rest)
    simp only [Stmt.mapAllTokens] at ih
    simp [Block.mapTokens, Stmt.mapAllTokens, Block.text, ih]

end

end MonkeyLang
