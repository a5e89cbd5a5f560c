import MonkeyLang.Proofs.Lexing.Cover
import MonkeyLang.Proofs.Parsing.Reading

namespace MonkeyLang

/-- Nodes that keep a token of one kind. -/
inductive Head where
  | array
  | conditional
  | function
  | call
  | index
  | letName
  | returnValue
  | block

def Head.kind : Head → Token.Kind
  | array => .leftBracket
  | conditional => .ifWord
  | function => .fnWord
  | call => .leftParen
  | index => .leftBracket
  | letName => .letWord
  | returnValue => .returnWord
  | block => .leftBrace

/-- A token that a node keeps, with what the node says of it. -/
inductive Kept where
  | head (token : Token) (node : Head)
  | name (identifier : Identifier)
  | integer (token : Token) (value : Int64)
  | boolean (token : Token) (value : Bool)
  | string (token : Token) (value : String)
  | unary (token : Token) (op : PrefixOp)
  | binary (token : Token) (op : InfixOp)

namespace Kept

def token : Kept → Token
  | head token _ => token
  | name identifier => identifier.token
  | integer token _ => token
  | boolean token _ => token
  | string token _ => token
  | unary token _ => token
  | binary token _ => token

/-- What is said of the token is so. -/
def Agrees : Kept → Prop
  | head token node => token.kind = node.kind
  | name identifier => identifier.token.kind = .name ∧ identifier.name = identifier.token.literal
  | integer token value => token.kind = .integer ∧ value.toInt = Grammar.number token
  | boolean token value =>
    (token.kind = .trueWord ∨ token.kind = .falseWord) ∧ (value = true ↔ token.kind = .trueWord)
  | string token value => token.kind = .string ∧ value = token.literal
  | unary token op => PrefixOp.ofKind? token.kind = some op
  | binary token op => InfixOp.ofKind? token.kind = some op

/-- No node keeps a closing brace. -/
theorem Agrees.ne_rightBrace {kept : Kept} (h : kept.Agrees) : kept.token.kind ≠ .rightBrace := by
  intro hk
  cases kept with
  | head token node =>
    simp only [Kept.token] at hk
    cases node <;> simp [Agrees, Head.kind, hk] at h
  | _ =>
    simp only [Kept.token] at hk
    simp [Agrees, hk, PrefixOp.ofKind?, InfixOp.ofKind?] at h

theorem ne_rightBrace_of_agree {list : List Kept} (h : ∀ kept ∈ list, kept.Agrees) :
    ∀ t ∈ list.map token, t.kind ≠ .rightBrace := by
  intro t ht
  obtain ⟨kept, hk, rfl⟩ := List.mem_map.mp ht
  exact (h kept hk).ne_rightBrace

end Kept

mutual

/-- The tokens that the nodes of a tree keep, in the order of the source. -/
def Expr.kept : Expr → List Kept
  | .name identifier => [.name identifier]
  | .integer token value => [.integer token value]
  | .boolean token value => [.boolean token value]
  | .string token value => [.string token value]
  | .array token items => .head token .array :: Expr.allKept items
  | .unary token op right => .unary token op :: right.kept
  | .binary token left op right => left.kept ++ .binary token op :: right.kept
  | .conditional token condition consequence none =>
    .head token .conditional :: (condition.kept ++ consequence.kept)
  | .conditional token condition consequence (some alternative) =>
    .head token .conditional :: (condition.kept ++ (consequence.kept ++ alternative.kept))
  | .function token parameters body => .head token .function :: (parameters.map .name ++ body.kept)
  | .call token callee arguments =>
    callee.kept ++ .head token .call :: Expr.allKept arguments
  | .index token left position => left.kept ++ .head token .index :: position.kept

def Expr.allKept : List Expr → List Kept
  | [] => []
  | e :: es => e.kept ++ Expr.allKept es

/-- The token that an expression keeps as a statement is not counted: it is the first one of the
expression or a parenthesis before it. -/
def Stmt.kept : Stmt → List Kept
  | .letName token name value => .head token .letName :: .name name :: value.kept
  | .returnValue token value => .head token .returnValue :: value.kept
  | .expression _ value => value.kept
  | .block body => body.kept

def Stmt.allKept : List Stmt → List Kept
  | [] => []
  | s :: ss => s.kept ++ Stmt.allKept ss

def Block.kept : Block → List Kept
  | .mk token statements => .head token .block :: Stmt.allKept statements

end

def Stmt.walk (s : Stmt) : List Token := s.kept.map Kept.token

def Program.kept (program : Program) : List Kept := Stmt.allKept program

def Program.walk (program : Program) : List Token := program.kept.map Kept.token

mutual

/-- The sequences of statements in the blocks of a tree, at any depth. -/
def Expr.sequences : Expr → List (List Stmt)
  | .name _ | .integer .. | .boolean .. | .string .. => []
  | .array _ items => Expr.allSequences items
  | .unary _ _ right => right.sequences
  | .binary _ left _ right => left.sequences ++ right.sequences
  | .conditional _ condition consequence none => condition.sequences ++ consequence.sequences
  | .conditional _ condition consequence (some alternative) =>
    condition.sequences ++ (consequence.sequences ++ alternative.sequences)
  | .function _ _ body => body.sequences
  | .call _ callee arguments => callee.sequences ++ Expr.allSequences arguments
  | .index _ left position => left.sequences ++ position.sequences

def Expr.allSequences : List Expr → List (List Stmt)
  | [] => []
  | e :: es => e.sequences ++ Expr.allSequences es

def Stmt.sequences : Stmt → List (List Stmt)
  | .letName _ _ value => value.sequences
  | .returnValue _ value => value.sequences
  | .expression _ value => value.sequences
  | .block body => body.sequences

def Stmt.allSequences : List Stmt → List (List Stmt)
  | [] => []
  | s :: ss => s.sequences ++ Stmt.allSequences ss

def Block.sequences : Block → List (List Stmt)
  | .mk _ statements => statements :: Stmt.allSequences statements

end

/-- The statements of a program themselves, and those in its blocks. -/
def Program.sequences (program : Program) : List (List Stmt) :=
  program :: Stmt.allSequences program

namespace Grammar

def Phrase.kept : Phrase → List Kept
  | .expression _ e => e.kept
  | .items es => Expr.allKept es
  | .parameters names => names.map .name
  | .block b => b.kept
  | .core s => s.kept
  | .statements ss => Stmt.allKept ss

def Phrase.sequences : Phrase → List (List Stmt)
  | .expression _ e => e.sequences
  | .items es => Expr.allSequences es
  | .parameters _ => []
  | .block b => b.sequences
  | .core s => s.sequences
  | .statements ss => ss :: Stmt.allSequences ss

/-- The tokens that the statements of a phrase keep for themselves. -/
def Phrase.starts : Phrase → List Token
  | .core s => [s.token]
  | .statements ss => ss.map Stmt.token
  | _ => []

variable {skips : Prop} {ts : List Token} {phrase : Phrase}

/-- A stretch of tokens is met in its order, and nothing else is met. -/
theorem Derives.kept_sublist (h : Derives skips ts phrase) :
    (phrase.kept.map Kept.token).Sublist ts := by
  induction h with
  | name | integer | string | boolean => exact .refl _
  | group hl _ hr ih => exact .cons _ (ih.trans (List.sublist_append_left _ _))
  | array hl _ hr ih =>
    simp only [Phrase.kept, Expr.kept, List.map_cons, Kept.token] at ih ⊢
    exact (ih.trans (List.sublist_append_left _ _)).cons_cons _
  | conditional hi hl _ hr _ ihe ihb =>
    simp only [Phrase.kept, Expr.kept, List.map_cons, List.map_append, Kept.token] at ihe ihb ⊢
    exact ((ihe.append (ihb.cons _)).cons _).cons_cons _
  | alternative hi hl _ hr _ hw _ ihe ihb iha =>
    simp only [Phrase.kept, Expr.kept, List.map_cons, List.map_append, Kept.token]
      at ihe ihb iha ⊢
    exact ((ihe.append ((ihb.append (iha.cons _)).cons _)).cons _).cons_cons _
  | function hf hl _ hr _ ihn ihb =>
    simp only [Phrase.kept, Expr.kept, List.map_cons, List.map_append, Kept.token] at ihn ihb ⊢
    exact ((ihn.append (ihb.cons _)).cons _).cons_cons _
  | call _ hl _ hr ihe ihes =>
    simp only [Phrase.kept, Expr.kept, List.map_cons, List.map_append, Kept.token] at ihe ihes ⊢
    exact ihe.append ((ihes.trans (List.sublist_append_left _ _)).cons_cons _)
  | index _ hl _ hr ihe ihi =>
    simp only [Phrase.kept, Expr.kept, List.map_cons, List.map_append, Kept.token] at ihe ihi ⊢
    exact ihe.append ((ihi.trans (List.sublist_append_left _ _)).cons_cons _)
  | unary ht _ ih =>
    simp only [Phrase.kept, Expr.kept, List.map_cons, Kept.token] at ih ⊢
    exact ih.cons_cons _
  | binary ht _ _ iha ihb =>
    simp only [Phrase.kept, Expr.kept, List.map_cons, List.map_append, Kept.token] at iha ihb ⊢
    exact iha.append (ihb.cons_cons _)
  | loosen _ ih => exact ih
  | noItems | noParameters | noStatements => exact .refl _
  | lastItem _ ih =>
    simp only [Phrase.kept, Expr.allKept, List.append_nil] at ih ⊢
    exact ih
  | moreItems _ hc _ ihe ihes =>
    rw [Phrase.kept, Expr.allKept, List.map_append]
    exact ihe.append (ihes.cons _)
  | lastParameter ht => exact .refl _
  | moreParameters ht hc _ ih => exact (ih.cons _).cons_cons _
  | block hl _ hr ih =>
    simp only [Phrase.kept, Block.kept, List.map_cons, Kept.token] at ih ⊢
    exact (ih.trans (List.sublist_append_left _ _)).cons_cons _
  | letName ht hx ha _ ih =>
    simp only [Phrase.kept, Stmt.kept, List.map_cons, Kept.token] at ih ⊢
    exact ((ih.cons _).cons_cons _).cons_cons _
  | returnValue ht _ ih =>
    simp only [Phrase.kept, Stmt.kept, List.map_cons, Kept.token] at ih ⊢
    exact ih.cons_cons _
  | expression _ ih =>
    simp only [Phrase.kept, Stmt.kept] at ih ⊢
    exact ih
  | terminated _ ht _ ihs ihss =>
    rw [Phrase.kept, Stmt.allKept, List.map_append]
    exact ihs.append (ihss.cons _)
  | unterminated _ hu _ ihs ihss =>
    rw [Phrase.kept, Stmt.allKept, List.map_append]
    exact ihs.append ihss
  | skip _ _ ih => exact ih.trans (List.sublist_append_right _ _)

theorem ofKind_of_prefixOperators {kind : Token.Kind} {op : PrefixOp}
    (h : (kind, op) ∈ prefixOperators) : PrefixOp.ofKind? kind = some op := by
  have hall : ∀ pair ∈ prefixOperators, PrefixOp.ofKind? pair.1 = some pair.2 := by decide
  exact hall _ h

theorem agrees_of_truthWords {t : Token} {value : Bool} (h : (t.kind, value) ∈ truthWords) :
    (Kept.boolean t value).Agrees := by
  have hall : ∀ pair ∈ truthWords, (pair.1 = .trueWord ∨ pair.1 = .falseWord) ∧
      (pair.2 = true ↔ pair.1 = .trueWord) := by decide
  exact hall _ h

theorem agrees_integer {t : Token} (ht : t.kind = .integer) (hn : number t ≤ Nat.pow 2 63 - 1) :
    (Kept.integer t (Int64.ofNat (number t))).Agrees :=
  ⟨ht, Int64.toInt_ofNat_of_lt (Nat.lt_of_le_pred (by decide) hn)⟩

/-- What a node keeps is what its token says. -/
theorem Derives.kept_agree (h : Derives skips ts phrase) : ∀ kept ∈ phrase.kept, kept.Agrees := by
  induction h with
  | name ht => simpa [Phrase.kept, Expr.kept, Kept.Agrees] using ht
  | integer ht hn => simpa [Phrase.kept, Expr.kept] using agrees_integer ht hn
  | string ht => simpa [Phrase.kept, Expr.kept, Kept.Agrees] using ht
  | boolean ht => simpa [Phrase.kept, Expr.kept] using agrees_of_truthWords ht
  | group _ _ _ ih => exact ih
  | array hl _ _ ih => exact List.forall_mem_cons.mpr ⟨hl, ih⟩
  | conditional hi _ _ _ _ ihe ihb =>
    exact List.forall_mem_cons.mpr ⟨hi, List.forall_mem_append.mpr ⟨ihe, ihb⟩⟩
  | alternative hi _ _ _ _ _ _ ihe ihb iha =>
    refine List.forall_mem_cons.mpr ⟨hi, List.forall_mem_append.mpr ⟨ihe, ?_⟩⟩
    exact List.forall_mem_append.mpr ⟨ihb, iha⟩
  | function hf _ _ _ _ ihn ihb =>
    exact List.forall_mem_cons.mpr ⟨hf, List.forall_mem_append.mpr ⟨ihn, ihb⟩⟩
  | call _ hl _ _ ihe ihes =>
    exact List.forall_mem_append.mpr ⟨ihe, List.forall_mem_cons.mpr ⟨hl, ihes⟩⟩
  | index _ hl _ _ ihe ihi =>
    exact List.forall_mem_append.mpr ⟨ihe, List.forall_mem_cons.mpr ⟨hl, ihi⟩⟩
  | unary ht _ ih => exact List.forall_mem_cons.mpr ⟨ofKind_of_prefixOperators ht, ih⟩
  | binary ht _ _ iha ihb =>
    refine List.forall_mem_append.mpr ⟨iha, List.forall_mem_cons.mpr ⟨?_, ihb⟩⟩
    exact (ofKind_of_mem ht).1
  | loosen _ ih => exact ih
  | noItems | noParameters | noStatements => exact List.forall_mem_nil _
  | lastItem _ ih => exact List.forall_mem_append.mpr ⟨ih, List.forall_mem_nil _⟩
  | moreItems _ _ _ ihe ihes => exact List.forall_mem_append.mpr ⟨ihe, ihes⟩
  | lastParameter ht => exact List.forall_mem_cons.mpr ⟨⟨ht, rfl⟩, List.forall_mem_nil _⟩
  | moreParameters ht _ _ ih => exact List.forall_mem_cons.mpr ⟨⟨ht, rfl⟩, ih⟩
  | block hl _ _ ih => exact List.forall_mem_cons.mpr ⟨hl, ih⟩
  | letName ht hx _ _ ih =>
    exact List.forall_mem_cons.mpr ⟨ht, List.forall_mem_cons.mpr ⟨⟨hx, rfl⟩, ih⟩⟩
  | returnValue ht _ ih => exact List.forall_mem_cons.mpr ⟨ht, ih⟩
  | expression _ ih => exact ih
  | terminated _ _ _ ihs ihss => exact List.forall_mem_append.mpr ⟨ihs, ihss⟩
  | unterminated _ _ _ ihs ihss => exact List.forall_mem_append.mpr ⟨ihs, ihss⟩
  | skip _ _ ih => exact ih

/-- A statement keeps the token that it begins with. -/
theorem Derives.core_begins {s : Stmt} (h : Derives skips ts (.core s)) :
    ∃ rest, ts = s.token :: rest ∧ s.token.kind ∈ .letWord :: .returnWord :: openers := by
  have hbegins := h.beginsWith
  cases h with
  | letName | returnValue | expression =>
    obtain ⟨t, us, hts, ht⟩ := hbegins
    obtain ⟨rfl, rfl⟩ := List.cons.inj hts
    exact ⟨_, rfl, ht⟩

theorem Derives.starts_sublist (h : Derives skips ts phrase) : phrase.starts.Sublist ts := by
  induction h with
  | letName | returnValue | expression => exact (List.nil_sublist _).cons_cons _
  | noStatements => exact .refl _
  | terminated _ _ _ ihs ihss => exact ihs.append (ihss.cons _)
  | unterminated _ _ _ ihs ihss => exact ihs.append ihss
  | skip _ _ ih => exact ih.trans (List.sublist_append_right _ _)
  | _ => exact List.nil_sublist _

/-- Statements stand one behind the other in a stream of tokens: each keeps a token of the stream,
which comes first of all that it meets and behind all that the statements before it meet. -/
structure Sequenced (R : Token → Token → Prop) (stream : List Token) (ss : List Stmt) : Prop where
  own : ∀ s ∈ ss, s.token ∈ stream ∧ s.token.kind ∈ .letWord :: .returnWord :: openers
  agree : ∀ s ∈ ss, ∀ kept ∈ s.kept, kept.Agrees
  first : ∀ s ∈ ss, ∀ t ∈ s.walk, t = s.token ∨ R s.token t
  behind : ss.Pairwise fun s later => ∀ t ∈ s.walk, R t later.token

section
variable {R : Token → Token → Prop} {stream us : List Token} {s : Stmt} {ss : List Stmt}

/-- A statement in front of others that are read behind it. -/
theorem Sequenced.cons (h : Sequenced R stream ss) (hs : Derives skips ts (.core s))
    (hss : Derives skips us (.statements ss)) (hin : (ts ++ us).Sublist stream)
    (hR : stream.Pairwise R) : Sequenced R stream (s :: ss) := by
  have hpairs : (ts ++ us).Pairwise R := hR.sublist hin
  have hwalk : s.walk.Sublist ts := hs.kept_sublist
  have hbehind : ∀ t ∈ s.walk, ∀ later ∈ ss, R t later.token := by
    intro t ht later hl
    have hlater : later.token ∈ us := hss.starts_sublist.subset (List.mem_map_of_mem hl)
    exact (List.pairwise_append.mp hpairs).2.2 t (hwalk.subset ht) _ hlater
  obtain ⟨rest, rfl, hkind⟩ := hs.core_begins
  refine ⟨List.forall_mem_cons.mpr ⟨⟨hin.subset (by simp), hkind⟩, h.own⟩,
    List.forall_mem_cons.mpr ⟨hs.kept_agree, h.agree⟩,
    List.forall_mem_cons.mpr ⟨fun t ht => ?_, h.first⟩,
    List.pairwise_cons.mpr ⟨fun later hl t ht => hbehind t ht later hl, h.behind⟩⟩
  rcases List.mem_cons.mp (hwalk.subset ht) with rfl | hrest
  · exact .inl rfl
  · exact .inr ((List.pairwise_cons.mp (List.pairwise_append.mp hpairs).1).1 t hrest)

theorem sublist_tail {t : Token} (h : (t :: ts).Sublist stream) : ts.Sublist stream :=
  (List.sublist_cons_self t ts).trans h

theorem sublist_left (h : (ts ++ us).Sublist stream) : ts.Sublist stream :=
  (List.sublist_append_left ts us).trans h

theorem sublist_right (h : (ts ++ us).Sublist stream) : us.Sublist stream :=
  (List.sublist_append_right ts us).trans h

/-- So do the statements of every sequence in a tree that is derived from a part of the stream. -/
theorem Derives.sequenced (h : Derives skips ts phrase) (hR : stream.Pairwise R) :
    ts.Sublist stream → ∀ ss ∈ phrase.sequences, Sequenced R stream ss := by
  induction h with
  | name | integer | string | boolean => exact fun _ => List.forall_mem_nil _
  | group _ _ _ ih | array _ _ _ ih => exact fun hin => ih (sublist_left (sublist_tail hin))
  | conditional _ _ _ _ _ ihe ihb =>
    intro hin
    have hinside := sublist_tail (sublist_tail hin)
    exact List.forall_mem_append.mpr
      ⟨ihe (sublist_left hinside), ihb (sublist_tail (sublist_right hinside))⟩
  | alternative _ _ _ _ _ _ _ ihe ihb iha =>
    intro hin
    have hinside := sublist_tail (sublist_tail hin)
    have hblocks := sublist_tail (sublist_right hinside)
    refine List.forall_mem_append.mpr ⟨ihe (sublist_left hinside), ?_⟩
    exact List.forall_mem_append.mpr
      ⟨ihb (sublist_left hblocks), iha (sublist_tail (sublist_right hblocks))⟩
  | function _ _ _ _ _ _ ihb =>
    intro hin
    exact ihb (sublist_tail (sublist_right (sublist_tail (sublist_tail hin))))
  | call _ _ _ _ ihe ih | index _ _ _ _ ihe ih =>
    intro hin
    exact List.forall_mem_append.mpr
      ⟨ihe (sublist_left hin), ih (sublist_left (sublist_tail (sublist_right hin)))⟩
  | unary _ _ ih | returnValue _ _ ih => exact fun hin => ih (sublist_tail hin)
  | binary _ _ _ iha ihb =>
    intro hin
    exact List.forall_mem_append.mpr
      ⟨iha (sublist_left hin), ihb (sublist_tail (sublist_right hin))⟩
  | loosen _ ih | expression _ ih => exact ih
  | noItems | noParameters | lastParameter | moreParameters => exact fun _ => List.forall_mem_nil _
  | lastItem _ ih =>
    exact fun hin => List.forall_mem_append.mpr ⟨ih hin, List.forall_mem_nil _⟩
  | moreItems _ _ _ ihe ihes =>
    intro hin
    exact List.forall_mem_append.mpr
      ⟨ihe (sublist_left hin), ihes (sublist_tail (sublist_right hin))⟩
  | block _ _ _ ih => exact fun hin => ih (sublist_left (sublist_tail hin))
  | letName _ _ _ _ ih =>
    exact fun hin => ih (sublist_tail (sublist_tail (sublist_tail hin)))
  | noStatements =>
    exact fun _ => List.forall_mem_cons.mpr ⟨⟨nofun, nofun, nofun, .nil⟩, List.forall_mem_nil _⟩
  | terminated hs _ hss ihs ihss =>
    intro hin
    have hrest := List.forall_mem_cons.mp (ihss (sublist_tail (sublist_right hin)))
    have hboth := ((List.Sublist.refl _).append (List.sublist_cons_self _ _)).trans hin
    refine List.forall_mem_cons.mpr ⟨hrest.1.cons hs hss hboth hR, ?_⟩
    exact List.forall_mem_append.mpr ⟨ihs (sublist_left hin), hrest.2⟩
  | unterminated hs _ hss ihs ihss =>
    intro hin
    have hrest := List.forall_mem_cons.mp (ihss (sublist_right hin))
    refine List.forall_mem_cons.mpr ⟨hrest.1.cons hs hss hin hR, ?_⟩
    exact List.forall_mem_append.mpr ⟨ihs (sublist_left hin), hrest.2⟩
  | skip _ _ ih => exact fun hin => ih (sublist_right hin)

end

/-- The first token begins before the second one. A closing brace that is missing at the end of a
source has no place in it, and the order of such tokens is left open. -/
def Before (t u : Token) : Prop :=
  t.kind ≠ .rightBrace → u.kind ≠ .rightBrace → t.span.start < u.span.start

theorem Completes.before {us : List Token} (h : Completes us ts)
    (hus : us.Pairwise fun t u => t.span.start < u.span.start) : ts.Pairwise Before := by
  obtain ⟨missing, hbrace, rfl⟩ := h
  refine List.pairwise_append.mpr ⟨hus.imp fun hlt _ _ => hlt, ?_, ?_⟩
  · exact List.pairwise_of_forall_mem_list fun t ht _ _ hne _ => absurd (hbrace t ht) hne
  · exact fun t _ u hu _ hne => absurd (hbrace u hu) hne

theorem Completes.sublist {us vs : List Token} (h : Completes us ts) (hvs : vs.Sublist ts)
    (hne : ∀ t ∈ vs, t.kind ≠ .rightBrace) : vs.Sublist us := by
  obtain ⟨missing, hbrace, rfl⟩ := h
  obtain ⟨front, behind, rfl, hfront, hbehind⟩ := List.sublist_append_iff.mp hvs
  have hnil : behind = [] := by
    refine List.eq_nil_iff_forall_not_mem.mpr fun t ht => ?_
    exact hne t (List.mem_append_right _ ht) (hbrace t (hbehind.subset ht))
  rw [hnil, List.append_nil]
  exact hfront

/-- Without the missing braces, the order is that of the places in the source. -/
theorem Sequenced.in_source {us : List Token} {ss : List Stmt} (h : Sequenced Before ts ss)
    (hts : Completes us ts) :
    (∀ s ∈ ss, s.token ∈ us ∧ ∀ t ∈ s.walk, s.token.span.start ≤ t.span.start) ∧
      ss.Pairwise fun s later => ∀ t ∈ s.walk, t.span.start < later.token.span.start := by
  have hkept : ∀ s ∈ ss, s.token.kind ≠ .rightBrace := by
    intro s hs hk
    have hbegins := (h.own s hs).2
    rw [hk] at hbegins
    exact absurd hbegins (by decide)
  have hmet : ∀ s ∈ ss, ∀ t ∈ s.walk, t.kind ≠ .rightBrace :=
    fun s hs => Kept.ne_rightBrace_of_agree (h.agree s hs)
  refine ⟨fun s hs => ⟨?_, fun t ht => ?_⟩, ?_⟩
  · have hin : [s.token].Sublist ts := List.singleton_sublist.mpr (h.own s hs).1
    exact List.singleton_sublist.mp (hts.sublist hin (by simpa using hkept s hs))
  · rcases h.first s hs t ht with rfl | hlt
    · exact Nat.le_refl _
    · exact Nat.le_of_lt (hlt (hkept s hs) (hmet s hs t ht))
  · refine h.behind.imp_of_mem fun {s later} hs hl hlt t ht => ?_
    exact hlt t ht (hmet s hs t ht) (hkept later hl)

end Grammar

open Grammar

/-- The tokens of a source begin one behind the other. -/
theorem tokens_strictly_ordered (source : String) :
    (Lexer.ofString source).tokens.Pairwise fun t u => t.span.start < u.span.start := by
  obtain ⟨-, hinside, -, hordered, -⟩ := tokens_cover_source source
  refine hordered.imp_of_mem fun {t u} ht _ hle => ?_
  have hpos := (hinside t ht).2
  have hstop : t.span.stop = t.span.start + t.span.length := rfl
  omega

/-- The tree owns its tokens, each once and in order. Whatever the source, with errors or without,
the program read from it meets tokens of the source only, in their order, so that each begins behind
the one before it; every node says of its token what the token is. In every sequence of statements
each keeps a token of the source that comes behind all that the statements before it meet, and
behind none that it meets itself. -/
theorem tree_owns_tokens (source : String) :
    (Reading.ofSource source).program.walk.Sublist (Lexer.ofString source).tokens ∧
    ((Reading.ofSource source).program.walk.Pairwise fun t u => t.span.start < u.span.start) ∧
    (∀ kept ∈ (Reading.ofSource source).program.kept, kept.Agrees) ∧
    ∀ ss ∈ (Reading.ofSource source).program.sequences,
      (∀ s ∈ ss, s.token ∈ (Lexer.ofString source).tokens ∧
        ∀ t ∈ s.walk, s.token.span.start ≤ t.span.start) ∧
      ss.Pairwise fun s later => ∀ t ∈ s.walk, t.span.start < later.token.span.start := by
  obtain ⟨ts, hts, hd⟩ := reading_derives source
  have hordered := tokens_strictly_ordered source
  have hagree : ∀ kept ∈ (Reading.ofSource source).program.kept, kept.Agrees := hd.kept_agree
  have hwalk : (Reading.ofSource source).program.walk.Sublist (Lexer.ofString source).tokens :=
    hts.sublist hd.kept_sublist (Kept.ne_rightBrace_of_agree hagree)
  refine ⟨hwalk, hordered.sublist hwalk, hagree, fun ss hss => ?_⟩
  exact (hd.sequenced (hts.before hordered) (.refl _) ss hss).in_source hts

end MonkeyLang
