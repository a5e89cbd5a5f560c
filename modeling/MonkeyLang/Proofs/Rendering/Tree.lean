import MonkeyLang.Proofs.Parsing.MapTokens
import MonkeyLang.Proofs.Parsing.Reading
import MonkeyLang.Syntax.Canonical

namespace MonkeyLang

/-- The token that all tokens are replaced by. -/
def Token.erased : Token := Token.endAt 0

def Identifier.withoutToken (x : Identifier) : Identifier := ⟨Token.erased, x.name⟩

mutual

/-- The tree with one and the same token everywhere. -/
def Expr.withoutTokens : Expr → Expr
  | .name x => .name x.withoutToken
  | .integer _ value => .integer Token.erased value
  | .boolean _ value => .boolean Token.erased value
  | .string _ value => .string Token.erased value
  | .array _ items => .array Token.erased (Expr.allWithoutTokens items)
  | .unary _ op right => .unary Token.erased op right.withoutTokens
  | .binary _ left op right => .binary Token.erased left.withoutTokens op right.withoutTokens
  | .conditional _ condition consequence none =>
    .conditional Token.erased condition.withoutTokens consequence.withoutTokens none
  | .conditional _ condition consequence (some alternative) =>
    .conditional Token.erased condition.withoutTokens consequence.withoutTokens
      (some alternative.withoutTokens)
  | .function _ parameters body =>
    .function Token.erased (parameters.map Identifier.withoutToken) body.withoutTokens
  | .call _ callee arguments =>
    .call Token.erased callee.withoutTokens (Expr.allWithoutTokens arguments)
  | .index _ left position => .index Token.erased left.withoutTokens position.withoutTokens

def Expr.allWithoutTokens : List Expr → List Expr
  | [] => []
  | expr :: exprs => expr.withoutTokens :: Expr.allWithoutTokens exprs

def Stmt.withoutTokens : Stmt → Stmt
  | .letName _ name value => .letName Token.erased name.withoutToken value.withoutTokens
  | .returnValue _ value => .returnValue Token.erased value.withoutTokens
  | .expression _ value => .expression Token.erased value.withoutTokens
  | .block body => .block body.withoutTokens

def Stmt.allWithoutTokens : List Stmt → List Stmt
  | [] => []
  | statement :: rest => statement.withoutTokens :: Stmt.allWithoutTokens rest

def Block.withoutTokens : Block → Block
  | .mk _ statements => .mk Token.erased (Stmt.allWithoutTokens statements)

end

def Program.withoutTokens (program : Program) : Program := Stmt.allWithoutTokens program

mutual

/-- Integers are not negative, names are words that are no keywords, strings have no quotes, and no
block stands as a statement. -/
def Expr.WellFormed : Expr → Prop
  | .name x => IsName x.name
  | .integer _ value => 0 ≤ value.toInt
  | .boolean .. => True
  | .string _ value => '"' ∉ value.toList
  | .array _ items => Expr.AllWellFormed items
  | .unary _ _ right => right.WellFormed
  | .binary _ left _ right => left.WellFormed ∧ right.WellFormed
  | .conditional _ condition consequence none => condition.WellFormed ∧ consequence.WellFormed
  | .conditional _ condition consequence (some alternative) =>
    condition.WellFormed ∧ consequence.WellFormed ∧ alternative.WellFormed
  | .function _ parameters body => (∀ x ∈ parameters, IsName x.name) ∧ body.WellFormed
  | .call _ callee arguments => callee.WellFormed ∧ Expr.AllWellFormed arguments
  | .index _ left position => left.WellFormed ∧ position.WellFormed

def Expr.AllWellFormed : List Expr → Prop
  | [] => True
  | expr :: exprs => expr.WellFormed ∧ Expr.AllWellFormed exprs

def Stmt.WellFormed : Stmt → Prop
  | .letName _ name value => IsName name.name ∧ value.WellFormed
  | .returnValue _ value => value.WellFormed
  | .expression _ value => value.WellFormed
  | .block _ => False

def Stmt.AllWellFormed : List Stmt → Prop
  | [] => True
  | statement :: rest => statement.WellFormed ∧ Stmt.AllWellFormed rest

def Block.WellFormed : Block → Prop
  | .mk _ statements => Stmt.AllWellFormed statements

end

def Program.WellFormed (program : Program) : Prop := Stmt.AllWellFormed program

theorem Identifier.withoutToken_eq : Identifier.withoutToken = mapToken fun _ => Token.erased := rfl

mutual

/-- All tokens are replaced by the erased one. -/
theorem Expr.withoutTokens_eq : ∀ e : Expr, e.withoutTokens = e.mapTokens fun _ => Token.erased
  | .name _ => by rw [Expr.withoutTokens, Expr.mapTokens, Identifier.withoutToken_eq]
  | .integer _ _ => by rw [Expr.withoutTokens, Expr.mapTokens]
  | .boolean _ _ => by rw [Expr.withoutTokens, Expr.mapTokens]
  | .string _ _ => by rw [Expr.withoutTokens, Expr.mapTokens]
  | .array _ items => by rw [Expr.withoutTokens, Expr.mapTokens, Expr.allWithoutTokens_eq items]
  | .unary _ _ right => by rw [Expr.withoutTokens, Expr.mapTokens, right.withoutTokens_eq]
  | .binary _ left _ right => by
    rw [Expr.withoutTokens, Expr.mapTokens, left.withoutTokens_eq, right.withoutTokens_eq]
  | .conditional _ condition consequence none => by
    rw [Expr.withoutTokens, Expr.mapTokens, condition.withoutTokens_eq,
      consequence.withoutTokens_eq]
  | .conditional _ condition consequence (some alternative) => by
    rw [Expr.withoutTokens, Expr.mapTokens, condition.withoutTokens_eq,
      consequence.withoutTokens_eq, alternative.withoutTokens_eq]
  | .function _ _ body => by
    rw [Expr.withoutTokens, Expr.mapTokens, body.withoutTokens_eq, Identifier.withoutToken_eq]
  | .call _ callee arguments => by
    rw [Expr.withoutTokens, Expr.mapTokens, callee.withoutTokens_eq,
      Expr.allWithoutTokens_eq arguments]
  | .index _ left position => by
    rw [Expr.withoutTokens, Expr.mapTokens, left.withoutTokens_eq, position.withoutTokens_eq]

theorem Expr.allWithoutTokens_eq : ∀ es : List Expr,
    Expr.allWithoutTokens es = Expr.mapAllTokens (fun _ => Token.erased) es
  | [] => by rw [Expr.allWithoutTokens, Expr.mapAllTokens]
  | e :: es => by
    rw [Expr.allWithoutTokens, Expr.mapAllTokens, e.withoutTokens_eq, Expr.allWithoutTokens_eq es]

theorem Stmt.withoutTokens_eq : ∀ s : Stmt, s.withoutTokens = s.mapTokens fun _ => Token.erased
  | .letName _ _ value => by
    rw [Stmt.withoutTokens, Stmt.mapTokens, Identifier.withoutToken_eq, value.withoutTokens_eq]
  | .returnValue _ value => by rw [Stmt.withoutTokens, Stmt.mapTokens, value.withoutTokens_eq]
  | .expression _ value => by rw [Stmt.withoutTokens, Stmt.mapTokens, value.withoutTokens_eq]
  | .block body => by rw [Stmt.withoutTokens, Stmt.mapTokens, body.withoutTokens_eq]

theorem Stmt.allWithoutTokens_eq : ∀ ss : List Stmt,
    Stmt.allWithoutTokens ss = Stmt.mapAllTokens (fun _ => Token.erased) ss
  | [] => by rw [Stmt.allWithoutTokens, Stmt.mapAllTokens]
  | s :: ss => by
    rw [Stmt.allWithoutTokens, Stmt.mapAllTokens, s.withoutTokens_eq, Stmt.allWithoutTokens_eq ss]

theorem Block.withoutTokens_eq : ∀ b : Block, b.withoutTokens = b.mapTokens fun _ => Token.erased
  | .mk _ statements => by
    rw [Block.withoutTokens, Block.mapTokens, Stmt.allWithoutTokens_eq statements]

end

theorem Program.withoutTokens_eq (p : Program) :
    p.withoutTokens = p.mapTokens fun _ => Token.erased := Stmt.allWithoutTokens_eq p

theorem Program.text_congr {p q : Program} (h : p.withoutTokens = q.withoutTokens) :
    p.text = q.text := by
  have htext : ∀ program : Program, program.withoutTokens.text = program.text := by
    intro program
    rw [Program.withoutTokens_eq]
    exact Stmt.sequenceText_mapTokens _ program
  rw [← htext p, h, htext q]

namespace Grammar

/-- The tree of the phrase is well formed. -/
def Phrase.WellFormed : Phrase → Prop
  | .expression _ e => e.WellFormed
  | .items es => Expr.AllWellFormed es
  | .parameters names => ∀ x ∈ names, IsName x.name
  | .block b => b.WellFormed
  | .core s => s.WellFormed
  | .statements ss => Stmt.AllWellFormed ss

theorem Derives.wellFormed {skips : Prop} {ts : List Token} {phrase : Phrase}
    (h : Derives skips ts phrase) (ht : ∀ t ∈ ts, t.Proper) : phrase.WellFormed := by
  induction h with
  | name hk =>
    have hname := (ht _ (List.mem_singleton_self _)).name hk
    rwa [String.ofList_toList] at hname
  | @integer u hk hn =>
    have hlt : number u < 2 ^ 63 := Nat.lt_of_le_pred (by decide) hn
    simp [Phrase.WellFormed, Expr.WellFormed, Int64.toInt_ofNat_of_lt hlt]
  | string hk => exact (ht _ (List.mem_singleton_self _)).string hk
  | boolean hk => trivial
  | group hl _ hr ih => exact ih fun t h => ht t (by simp [h])
  | array hl _ hr ih => exact ih fun t h => ht t (by simp [h])
  | conditional hi hl _ hr _ ihe ihb =>
    exact ⟨ihe fun t h => ht t (by simp [h]), ihb fun t h => ht t (by simp [h])⟩
  | alternative hi hl _ hr _ hw _ ihe ihb iha =>
    exact ⟨ihe fun t h => ht t (by simp [h]), ihb fun t h => ht t (by simp [h]),
      iha fun t h => ht t (by simp [h])⟩
  | function hf hl _ hr _ ihn ihb =>
    exact ⟨ihn fun t h => ht t (by simp [h]), ihb fun t h => ht t (by simp [h])⟩
  | call _ hl _ hr ihe ihes =>
    exact ⟨ihe fun t h => ht t (by simp [h]), ihes fun t h => ht t (by simp [h])⟩
  | index _ hl _ hr ihe ihi =>
    exact ⟨ihe fun t h => ht t (by simp [h]), ihi fun t h => ht t (by simp [h])⟩
  | unary hk _ ih => exact ih fun t h => ht t (by simp [h])
  | binary hk _ _ iha ihb =>
    exact ⟨iha fun t h => ht t (by simp [h]), ihb fun t h => ht t (by simp [h])⟩
  | loosen _ ih => exact ih ht
  | noItems => trivial
  | lastItem _ ih => exact ⟨ih ht, trivial⟩
  | moreItems _ hc _ ihe ihes =>
    exact ⟨ihe fun t h => ht t (by simp [h]), ihes fun t h => ht t (by simp [h])⟩
  | noParameters => simp [Phrase.WellFormed]
  | lastParameter hk =>
    have hname := (ht _ (List.mem_singleton_self _)).name hk
    rw [String.ofList_toList] at hname
    simpa [Phrase.WellFormed] using hname
  | @moreParameters u _ _ _ _ hk hc _ ih =>
    have hname := (ht u (by simp)).name hk
    rw [String.ofList_toList] at hname
    have hnames := ih fun t h => ht t (by simp [h])
    simp only [Phrase.WellFormed] at hnames ⊢
    intro x hx
    rcases List.mem_cons.mp hx with rfl | hx
    · exact hname
    · exact hnames x hx
  | block hl _ hr ih => exact ih fun t h => ht t (by simp [h])
  | @letName _ u _ _ _ hk hx ha _ ih =>
    have hname := (ht u (by simp)).name hx
    rw [String.ofList_toList] at hname
    exact ⟨hname, ih fun t h => ht t (by simp [h])⟩
  | returnValue hk _ ih => exact ih fun t h => ht t (by simp [h])
  | expression _ ih => exact ih ht
  | noStatements => trivial
  | terminated _ hk _ ihs ihss =>
    exact ⟨ihs fun t h => ht t (by simp [h]), ihss fun t h => ht t (by simp [h])⟩
  | unterminated _ hu _ ihs ihss =>
    exact ⟨ihs fun t h => ht t (by simp [h]), ihss fun t h => ht t (by simp [h])⟩
  | skip _ _ ih => exact ih fun t h => ht t (by simp [h])

theorem Completes.proper {us ts : List Token} (h : Completes us ts) (hu : ∀ t ∈ us, t.Proper) :
    ∀ t ∈ ts, t.Proper := by
  obtain ⟨missing, hbrace, rfl⟩ := h
  intro t ht
  rcases List.mem_append.mp ht with ht | ht
  · exact hu t ht
  · have hk := hbrace t ht
    exact ⟨by simp [hk], by simp [hk], by simp [hk]⟩

end Grammar

/-- Whatever the source, with errors or without, the program read is well formed. -/
theorem reading_wellFormed (source : String) : (Reading.ofSource source).program.WellFormed := by
  obtain ⟨ts, hts, hd⟩ := reading_derives source
  exact hd.wellFormed (hts.proper (Lexer.tokens_proper _))

end MonkeyLang
