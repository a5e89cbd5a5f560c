import Mathlib.Data.List.Forall2
import MonkeyLang.Proofs.Lexing.Spelling
import MonkeyLang.Proofs.Rendering.Tree

namespace MonkeyLang

open Grammar Lexer

theorem PrefixOp.spelling (op : PrefixOp) : ∃ kind,
    (op.symbol.toList, kind) ∈ Token.Kind.symbols ∧ (kind, op) ∈ prefixOperators := by
  cases op
  · exact ⟨.bang, by decide⟩
  · exact ⟨.minus, by decide⟩

theorem InfixOp.spelling (op : InfixOp) : ∃ kind k, k ≤ 5 ∧
    (op.symbol.toList, kind) ∈ Token.Kind.symbols ∧ (kind, op) ∈ operators k := by
  cases op
  · exact ⟨.plus, 4, by decide⟩
  · exact ⟨.minus, 4, by decide⟩
  · exact ⟨.star, 5, by decide⟩
  · exact ⟨.slash, 5, by decide⟩
  · exact ⟨.less, 2, by decide⟩
  · exact ⟨.lessEqual, 2, by decide⟩
  · exact ⟨.greater, 2, by decide⟩
  · exact ⟨.greaterEqual, 2, by decide⟩
  · exact ⟨.equal, 1, by decide⟩
  · exact ⟨.notEqual, 1, by decide⟩
  · exact ⟨.and, 3, by decide⟩
  · exact ⟨.or, 3, by decide⟩

/-- Whatever stands apart behind it, the text is read as tokens with `ok`. -/
def Spells (text : String) (ok : List Token → Prop) : Prop :=
  ∀ rest, Apart rest → Scans text.toList rest ok

/-- A text before a character that goes on with none of its tokens. -/
theorem Spells.before {text : String} {first ok : List Token → Prop} {c : Char}
    {cs rest : List Char} (hs : Spells text first)
    (hc : isLetter c = false ∧ c.isDigit = false ∧ c ≠ '=')
    (h : ∀ ts, first ts → Scans (c :: cs) rest fun us => ok (ts ++ us)) :
    Scans (text.toList ++ c :: cs) rest ok := Scans.append (hs _ (apart_cons hc)) h

/-- The text is not empty and does not make a symbol before it longer. -/
def Opens (text : String) : Prop := ∃ c cs, text.toList = c :: cs ∧ c ≠ '='

theorem Opens.head {text : String} (h : Opens text) (cs : List Char) :
    ∀ c ∈ (text.toList ++ cs).head?, c ≠ '=' := by
  obtain ⟨d, ds, hd, hne⟩ := h
  simp [hd, hne]

theorem Apart.head {cs : List Char} (h : Apart cs) : ∀ c ∈ cs.head?, c ≠ '=' :=
  fun c hc => (h c hc).2.2

/-- The tokens are read as this expression, up to its own tokens. -/
def Expr.ReadAs (e : Expr) (ts : List Token) : Prop :=
  ∃ e', Derives False ts (.expression 7 e') ∧ e'.withoutTokens = e.withoutTokens

/-- The tokens are read as an expression for `a`, where any expression may stand. -/
def ReadFor {α : Type} (isFor : α → Expr → Prop) (a : α) (ts : List Token) : Prop :=
  ∃ e, Derives False ts (.expression 1 e) ∧ isFor a e

/-- The tokens are read as items, one for each of these. -/
def AllReadFor {α : Type} (isFor : α → Expr → Prop) (as : List α) (ts : List Token) : Prop :=
  ∃ es, Derives False ts (.items es) ∧ List.Forall₂ isFor as es

/-- The same expression, up to its tokens. -/
def Expr.Alike (e e' : Expr) : Prop := e'.withoutTokens = e.withoutTokens

theorem Expr.ReadAs.readFor {e : Expr} {ts : List Token} (h : e.ReadAs ts) :
    ReadFor Expr.Alike e ts := by
  obtain ⟨e', hd, heq⟩ := h
  exact ⟨e', hd.loosest, heq⟩

theorem Expr.allWithoutTokens_of_alike {es es' : List Expr} (h : List.Forall₂ Expr.Alike es es') :
    Expr.allWithoutTokens es' = Expr.allWithoutTokens es := by
  induction h with
  | nil => rfl
  | cons heq _ ih => rw [Expr.allWithoutTokens, Expr.allWithoutTokens, heq, ih]

theorem Expr.texts_eq_map (es : List Expr) : Expr.texts es = es.map Expr.text := by
  induction es with
  | nil => rw [Expr.texts, List.map_nil]
  | cons e es ih => rw [Expr.texts, List.map_cons, ih]

def Block.ReadAs (b : Block) (ts : List Token) : Prop :=
  ∃ b', Derives False ts (.block b') ∧ b'.withoutTokens = b.withoutTokens

def Stmt.AllReadAs (ss : List Stmt) (ts : List Token) : Prop :=
  ∃ ss', Derives False ts (.statements ss') ∧ Stmt.allWithoutTokens ss' = Stmt.allWithoutTokens ss

theorem isName_opens {name : String} (h : IsName name) : Opens name := by
  obtain ⟨c, cs, hcs⟩ := List.exists_cons_of_ne_nil h.nonempty
  refine ⟨c, cs, hcs, ?_⟩
  rintro rfl
  have hc := h.letters '=' (by simp [hcs])
  exact absurd hc (by decide)

theorem spells_name {name : String} (h : IsName name) :
    Spells name fun ts => ∃ t, ts = [t] ∧ t.kind = .name ∧ t.literal = name := by
  intro rest hrest
  rw [← List.append_nil name.toList]
  refine Scans.word h.letters h.nonempty (fun c hc => (hrest c hc).1) fun t hk hl => Scans.nil ?_
  exact ⟨t, rfl, by rw [hk, h.kind], hl⟩

theorem Expr.text_opens : ∀ e : Expr, e.WellFormed → Opens e.text
  | .name x, h => isName_opens h
  | .integer _ value, h => by
    obtain ⟨n, hn⟩ := Int.eq_ofNat_of_zero_le h
    obtain ⟨c, cs, hcs⟩ := List.exists_cons_of_ne_nil (Nat.toDigits_ne_nil (n := n) (b := 10))
    refine ⟨c, cs, by rw [Expr.text, hn, ← hcs]; exact Nat.toList_repr, ?_⟩
    have hdigit : c.isDigit :=
      Nat.isDigit_of_mem_toDigits (n := n) (b := 10) (by decide) (by decide) (by simp [hcs])
    rintro rfl
    exact absurd hdigit (by decide)
  | .boolean _ value, _ => by cases value <;> simp [Opens, Expr.text]
  | .string .., _ => by simp [Opens, Expr.text]
  | .array .., _ => by simp [Opens, Expr.text]
  | .unary .., _ => by simp [Opens, Expr.text]
  | .binary .., _ => by simp [Opens, Expr.text]
  | .conditional _ _ _ none, _ => by simp [Opens, Expr.text]
  | .conditional _ _ _ (some _), _ => by simp [Opens, Expr.text]
  | .function .., _ => by simp [Opens, Expr.text]
  | .call _ callee _, h => by
    obtain ⟨c, cs, hcs, hne⟩ := callee.text_opens h.1
    exact ⟨c, _, by simp [Expr.text, hcs]; rfl, hne⟩
  | .index .., _ => by simp [Opens, Expr.text]

theorem spells_integer {value : Int64} (h : 0 ≤ value.toInt) :
    Spells value.toInt.repr fun ts =>
      ∃ t, Derives False ts (.expression 7 (.integer t value)) := by
  obtain ⟨n, hn⟩ := Int.eq_ofNat_of_zero_le h
  have hlt : n < 2 ^ 63 := by
    have hv := value.toInt_lt
    omega
  have hvalue : Int64.ofNat n = value := by
    apply Int64.toInt.inj
    rw [Int64.toInt_ofNat_of_lt hlt, hn]
  have htext : value.toInt.repr.toList = Nat.toDigits 10 n ++ [] := by
    rw [hn, List.append_nil]
    exact Nat.toList_repr
  intro rest hrest
  rw [htext]
  refine Scans.digits ?_ ?_ (fun c hc => (hrest c hc).2.1) fun u hk hl => Scans.nil ?_
  · exact fun c hc => Nat.isDigit_of_mem_toDigits (by decide) (by decide) hc
  · exact Nat.toDigits_ne_nil
  · have hnumber : number u = n := by
      rw [number, hl, String.toList_ofList, Nat.ofDigitChars_ten_toDigits]
    refine ⟨u, ?_⟩
    rw [← hvalue, ← hnumber]
    refine .integer hk ?_
    rw [hnumber]
    exact Nat.le_pred_of_lt hlt

theorem spells_boolean (value : Bool) :
    Spells (if value then "true" else "false") fun ts =>
      ∃ t, Derives False ts (.expression 7 (.boolean t value)) := by
  intro rest hrest
  cases value with
  | false =>
    have htext : (if false then "true" else "false").toList = "false".toList ++ [] := by simp
    rw [htext]
    refine Scans.keyword .falseWord (by decide) (fun c hc => (hrest c hc).1)
      fun u hk => Scans.nil ?_
    exact ⟨u, .boolean (by simp [hk, truthWords])⟩
  | true =>
    have htext : (if true then "true" else "false").toList = "true".toList ++ [] := by simp
    rw [htext]
    refine Scans.keyword .trueWord (by decide) (fun c hc => (hrest c hc).1) fun u hk => Scans.nil ?_
    exact ⟨u, .boolean (by simp [hk, truthWords])⟩

theorem spells_string {t : Token} {value : String} (h : '"' ∉ value.toList) :
    Spells (Expr.string t value).text (Expr.string t value).ReadAs := by
  intro rest hrest
  have htext : (Expr.string t value).text.toList = '"' :: (value.toList ++ '"' :: []) := by
    simp [Expr.text]
  rw [htext]
  refine Scans.string h fun u hk hl => Scans.nil ?_
  rw [String.ofList_toList] at hl
  exact ⟨_, .string hk, by simp [Expr.withoutTokens, hl]⟩

/-- In parentheses any expression is an operand of its own. -/
theorem scans_group {e : Expr} {text rest : List Char} (hrest : Apart rest)
    (ho : ∀ c ∈ (text ++ ')' :: rest).head?, c ≠ '=')
    (h : Scans text (')' :: rest) (ReadFor Expr.Alike e)) :
    Scans ('(' :: (text ++ [')'])) rest e.ReadAs := by
  have hopen : ∀ c ∈ (text ++ [')'] ++ rest).head?, c ≠ '=' := by simpa using ho
  refine Scans.mark .leftParen (by decide) hopen fun l hl => Scans.append h ?_
  intro ts h
  obtain ⟨e', hd, heq⟩ := h
  refine Scans.mark .rightParen (by decide) hrest.head fun r hr => Scans.nil ?_
  exact ⟨e', .group hl hd hr, heq⟩

theorem spells_unary {t : Token} {op : PrefixOp} {e : Expr} (ho : Opens e.text)
    (he : Spells e.text e.ReadAs) :
    Spells (Expr.unary t op e).text (Expr.unary t op e).ReadAs := by
  intro rest hrest
  obtain ⟨kind, hs, hp⟩ := op.spelling
  have htext : (Expr.unary t op e).text.toList =
      '(' :: (op.symbol.toList ++ e.text.toList ++ [')']) := by simp [Expr.text]
  rw [htext]
  refine scans_group hrest ?_ ?_
  · cases op <;> simp [PrefixOp.symbol]
  · refine Scans.symbol hs (ho.head _) fun o hk => ?_
    refine (he _ (apart_cons (by decide))).mono ?_
    intro ts h
    obtain ⟨e', hd, heq⟩ := h
    have hu : Derives False (o :: ts) (.expression 6 (.unary o op e')) :=
      .unary (by rw [hk]; exact hp) hd.loosen
    exact ⟨_, hu.at_level (by decide), by simp [Expr.Alike, Expr.withoutTokens, heq]⟩

theorem spells_binary {t : Token} {op : InfixOp} {a b : Expr} (ho : Opens a.text)
    (ha : Spells a.text a.ReadAs) (hb : Spells b.text b.ReadAs) :
    Spells (Expr.binary t a op b).text (Expr.binary t a op b).ReadAs := by
  intro rest hrest
  obtain ⟨kind, k, hk5, hs, hop⟩ := op.spelling
  have h1 := (ofKind_of_mem hop).2.2.1
  have htext : (Expr.binary t a op b).text.toList = '(' :: (a.text.toList ++
      ' ' :: (op.symbol.toList ++ ' ' :: b.text.toList) ++ [')']) := by simp [Expr.text]
  rw [htext]
  refine scans_group hrest ?_ ?_
  · rw [List.append_assoc]
    exact ho.head _
  · refine ha.before (by decide) ?_
    intro ts h
    obtain ⟨a', hda, haeq⟩ := h
    refine Scans.blank (Scans.symbol hs (by simp) fun o hk => Scans.blank ?_)
    refine (hb _ (apart_cons (by decide))).mono ?_
    intro us h
    obtain ⟨b', hdb, hbeq⟩ := h
    have hd : Derives False (ts ++ o :: us) (.expression k (.binary o a' op b')) :=
      .binary (by rw [hk]; exact hop) (hda.at_level (by omega)) (hdb.at_level (by omega))
    exact ⟨_, hd.at_level h1, by simp [Expr.Alike, Expr.withoutTokens, haeq, hbeq]⟩

theorem spells_index {t : Token} {a i : Expr} (ho : Opens a.text) (hi : Opens i.text)
    (ha : Spells a.text a.ReadAs) (hp : Spells i.text i.ReadAs) :
    Spells (Expr.index t a i).text (Expr.index t a i).ReadAs := by
  intro rest hrest
  have htext : (Expr.index t a i).text.toList = '(' :: (a.text.toList ++
      '[' :: (i.text.toList ++ [']']) ++ [')']) := by simp [Expr.text]
  rw [htext]
  refine scans_group hrest ?_ ?_
  · rw [List.append_assoc]
    exact ho.head _
  · refine ha.before (by decide) ?_
    intro ts h
    obtain ⟨a', hda, haeq⟩ := h
    refine Scans.mark .leftBracket (by decide) ?_ fun m hm => ?_
    · rw [List.append_assoc]
      exact hi.head _
    refine hp.before (by decide) ?_
    intro us h
    obtain ⟨i', hdi, hieq⟩ := h
    refine Scans.mark .rightBracket (by decide) (by simp) fun n hn => Scans.nil ?_
    have hd := Derives.index hda hm hdi.loosest hn
    exact ⟨_, hd.loosest, by simp [Expr.Alike, Expr.withoutTokens, haeq, hieq]⟩

theorem spells_items {α : Type} {text : α → String} {isFor : α → Expr → Prop} (as : List α)
    (h : ∀ a ∈ as, Spells (text a) (ReadFor isFor a)) :
    Spells (commaSeparated (as.map text)) (AllReadFor isFor as) := by
  induction as with
  | nil => exact fun rest _ => Scans.nil ⟨[], .noItems, .nil⟩
  | cons a as ih =>
    obtain ⟨hfirst, hothers⟩ := List.forall_mem_cons.mp h
    cases as with
    | nil =>
      intro rest hrest
      refine (hfirst rest hrest).mono ?_
      intro ts h
      obtain ⟨e, hd, he⟩ := h
      exact ⟨[e], .lastItem hd, .cons he .nil⟩
    | cons b as =>
      intro rest hrest
      have htext : (commaSeparated ((a :: b :: as).map text)).toList =
          (text a).toList ++ ',' :: ' ' :: (commaSeparated ((b :: as).map text)).toList := by
        simp [commaSeparated]
      rw [htext]
      refine hfirst.before (by decide) ?_
      intro ts h
      obtain ⟨e, hd, he⟩ := h
      refine Scans.mark .comma (by decide) (by simp) fun c hc => Scans.blank ?_
      refine (ih hothers rest hrest).mono ?_
      intro us h
      obtain ⟨es, hds, hes⟩ := h
      cases hes with
      | cons hf hes => exact ⟨_, .moreItems hd hc hds, .cons he (.cons hf hes)⟩

theorem commaSeparated_opens {text : String} (texts : List String) (h : Opens text) :
    Opens (commaSeparated (text :: texts)) := by
  obtain ⟨c, cs, hcs, hne⟩ := h
  cases texts with
  | nil => exact ⟨c, cs, by simp [commaSeparated, hcs], hne⟩
  | cons next texts => exact ⟨c, _, by simp [commaSeparated, hcs]; rfl, hne⟩

section
variable {α : Type} {text : α → String} {isFor : α → Expr → Prop} {as : List α} {rest : List Char}

/-- Items between what opens and closes a list. -/
theorem spells_enclosed {c : Char} (kind : Token.Kind) {ok : List Token → Prop}
    (ha : ∀ a ∈ as, Spells (text a) (ReadFor isFor a)) (hc : ([c], kind) ∈ Token.Kind.symbols)
    (hrest : Apart rest) (hsep : isLetter c = false ∧ c.isDigit = false ∧ c ≠ '=')
    (h : ∀ ts r, r.kind = kind → AllReadFor isFor as ts → ok (ts ++ [r])) :
    Scans ((commaSeparated (as.map text)).toList ++ [c]) rest ok := by
  refine Scans.append (spells_items as ha _ (apart_cons hsep)) fun ts hts => ?_
  exact Scans.mark kind hc hrest.head fun r hr => Scans.nil (h ts r hr hts)

theorem enclosed_head {c : Char} (ho : ∀ a ∈ as, Opens (text a)) (hc : c ≠ '=') :
    ∀ d ∈ ((commaSeparated (as.map text)).toList ++ [c] ++ rest).head?, d ≠ '=' := by
  cases as with
  | nil => simpa [commaSeparated] using hc
  | cons a as =>
    rw [List.append_assoc]
    exact (commaSeparated_opens _ (ho a (by simp))).head _

/-- Items in brackets are read as an array of expressions for them. -/
theorem spells_bracketed (ho : ∀ a ∈ as, Opens (text a))
    (ha : ∀ a ∈ as, Spells (text a) (ReadFor isFor a)) :
    Spells ("[" ++ commaSeparated (as.map text) ++ "]") fun ts =>
      ∃ t es, Derives False ts (.expression 7 (.array t es)) ∧ List.Forall₂ isFor as es := by
  intro rest hrest
  have htext : ("[" ++ commaSeparated (as.map text) ++ "]").toList =
      '[' :: ((commaSeparated (as.map text)).toList ++ [']']) := by simp
  rw [htext]
  refine Scans.mark .leftBracket (by decide) (enclosed_head ho (by decide)) fun l hl => ?_
  refine spells_enclosed .rightBracket ha (by decide) hrest (by decide) ?_
  intro ts r hr h
  obtain ⟨es, hd, hes⟩ := h
  exact ⟨l, es, .array hl hd hr, hes⟩

end

section
variable {es : List Expr} (he : ∀ e ∈ es, Opens e.text ∧ Spells e.text e.ReadAs)
include he

theorem items_spelled : ∀ e ∈ es, Spells e.text (ReadFor Expr.Alike e) :=
  fun e hm rest hrest => ((he e hm).2 rest hrest).mono fun _ => Expr.ReadAs.readFor

theorem spells_array {t : Token} : Spells (Expr.array t es).text (Expr.array t es).ReadAs := by
  intro rest hrest
  rw [Expr.text, Expr.texts_eq_map]
  refine (spells_bracketed (fun e hm => (he e hm).1) (items_spelled he) rest hrest).mono ?_
  intro ts h
  obtain ⟨l, es', hd, halike⟩ := h
  exact ⟨.array l es', hd, by simp [Expr.withoutTokens, Expr.allWithoutTokens_of_alike halike]⟩

theorem spells_call {t : Token} {e : Expr} (hcallee : Spells e.text e.ReadAs) :
    Spells (Expr.call t e es).text (Expr.call t e es).ReadAs := by
  intro rest hrest
  have htext : (Expr.call t e es).text.toList =
      e.text.toList ++ '(' :: ((commaSeparated (es.map Expr.text)).toList ++ [')']) := by
    simp [Expr.text, Expr.texts_eq_map]
  rw [htext]
  refine hcallee.before (by decide) ?_
  intro us h
  obtain ⟨e', hde, heqe⟩ := h
  have hopen : ∀ e ∈ es, Opens e.text := fun e hm => (he e hm).1
  refine Scans.mark .leftParen (by decide) (enclosed_head hopen (by decide)) fun l hl => ?_
  refine spells_enclosed .rightParen (items_spelled he) (by decide) hrest (by decide) ?_
  intro ts r hr h
  obtain ⟨es', hd, halike⟩ := h
  refine ⟨.call l e' es', .call hde hl hd hr, ?_⟩
  simp [Expr.withoutTokens, heqe, Expr.allWithoutTokens_of_alike halike]

end

/-- The tokens of a list of parameters. -/
def NamesReadAs (names : List Identifier) (ts : List Token) : Prop :=
  ∃ names', Derives False ts (.parameters names') ∧
    names'.map Identifier.withoutToken = names.map Identifier.withoutToken

theorem spells_parameters (names : List Identifier) (h : ∀ x ∈ names, IsName x.name) :
    Spells (parameterText names) (NamesReadAs names) := by
  induction names with
  | nil => exact fun rest _ => Scans.nil ⟨[], .noParameters, rfl⟩
  | cons x xs ih =>
    have hfirst := spells_name (h x (by simp))
    cases xs with
    | nil =>
      intro rest hrest
      refine (hfirst rest hrest).mono ?_
      intro ts h
      obtain ⟨t, rfl, hk, hl⟩ := h
      exact ⟨_, .lastParameter hk, by simp [Identifier.withoutToken, hl]⟩
    | cons y ys =>
      intro rest hrest
      have htext : (parameterText (x :: y :: ys)).toList =
          x.name.toList ++ ',' :: ' ' :: (parameterText (y :: ys)).toList := by
        simp [parameterText, commaSeparated]
      rw [htext]
      refine hfirst.before (by decide) ?_
      intro ts h
      obtain ⟨t, rfl, hk, hl⟩ := h
      refine Scans.mark .comma (by decide) (by simp) fun c hc => Scans.blank ?_
      have hmore := ih fun x hx => h x (List.mem_cons_of_mem _ hx)
      refine (hmore rest hrest).mono ?_
      intro us h
      obtain ⟨names', hd, heq⟩ := h
      cases names' with
      | nil => simp at heq
      | cons y' ys' =>
        refine ⟨_, .moreParameters hk hc hd, ?_⟩
        rw [List.map_cons, heq]
        simp [Identifier.withoutToken, hl]

theorem spells_function {names : List Identifier} {b : Block}
    (hn : ∀ x ∈ names, IsName x.name) (hb : Spells b.text b.ReadAs) :
    Spells ("fn(" ++ parameterText names ++ ") " ++ b.text) fun ts => ∃ t names' b',
      Derives False ts (.expression 7 (.function t names' b')) ∧
        names'.map Identifier.withoutToken = names.map Identifier.withoutToken ∧
        b'.withoutTokens = b.withoutTokens := by
  intro rest hrest
  have htext : ("fn(" ++ parameterText names ++ ") " ++ b.text).toList = "fn".toList ++
      '(' :: ((parameterText names).toList ++ ')' :: ' ' :: b.text.toList) := by simp
  rw [htext]
  refine Scans.keyword .fnWord (by decide) (by simp; decide) fun f hf => ?_
  refine Scans.mark .leftParen (by decide) ?_ fun l hl => ?_
  · cases names with
    | nil => simp [parameterText, commaSeparated]
    | cons x xs =>
      rw [List.append_assoc]
      exact (commaSeparated_opens _ (isName_opens (hn x (by simp)))).head _
  refine (spells_parameters names hn).before (by decide) ?_
  intro ts h
  obtain ⟨names', hd, heq⟩ := h
  refine Scans.mark .rightParen (by decide) (by simp) fun r hr => Scans.blank ?_
  refine (hb rest hrest).mono ?_
  intro us h
  obtain ⟨b', hdb, hbeq⟩ := h
  exact ⟨f, names', b', .function hf hl hd hr hdb, heq, hbeq⟩

/-- The condition of a conditional, and what stands behind it. -/
theorem scans_condition {e : Expr} {text rest : List Char} {ok : List Token → Prop}
    (ho : Opens e.text) (he : Spells e.text e.ReadAs)
    (h : ∀ (i l r : Token) (ts : List Token) (e' : Expr), i.kind = .ifWord →
      l.kind = .leftParen → r.kind = .rightParen → Derives False ts (.expression 1 e') →
      e'.withoutTokens = e.withoutTokens →
      Scans text rest fun us => ok (i :: l :: (ts ++ r :: us))) :
    Scans ("if".toList ++ ' ' :: '(' :: (e.text.toList ++ ')' :: ' ' :: text)) rest ok := by
  refine Scans.keyword .ifWord (by decide) (by simp; decide) fun i hi => Scans.blank ?_
  refine Scans.mark .leftParen (by decide) ?_ fun l hl => ?_
  · rw [List.append_assoc]
    exact ho.head _
  refine he.before (by decide) ?_
  intro ts hts
  obtain ⟨e', hd, heq⟩ := hts
  refine Scans.mark .rightParen (by decide) (by simp) fun r hr => Scans.blank ?_
  exact h i l r ts e' hi hl hr hd.loosest heq

theorem spells_conditional {t : Token} {e : Expr} {b : Block} (ho : Opens e.text)
    (he : Spells e.text e.ReadAs) (hb : Spells b.text b.ReadAs) :
    Spells (Expr.conditional t e b none).text (Expr.conditional t e b none).ReadAs := by
  intro rest hrest
  have htext : (Expr.conditional t e b none).text.toList = "if".toList ++
      ' ' :: '(' :: (e.text.toList ++ ')' :: ' ' :: b.text.toList) := by simp [Expr.text]
  rw [htext]
  apply scans_condition ho he
  intro i l r ts e' hi hl hr hd heq
  refine (hb rest hrest).mono ?_
  intro us h
  obtain ⟨b', hdb, hbeq⟩ := h
  exact ⟨.conditional i e' b' none, .conditional hi hl hd hr hdb,
    by simp [Expr.withoutTokens, heq, hbeq]⟩

theorem spells_alternative {t : Token} {e : Expr} {b a : Block} (ho : Opens e.text)
    (he : Spells e.text e.ReadAs) (hb : Spells b.text b.ReadAs) (ha : Spells a.text a.ReadAs) :
    Spells (Expr.conditional t e b (some a)).text (Expr.conditional t e b (some a)).ReadAs := by
  intro rest hrest
  have htext : (Expr.conditional t e b (some a)).text.toList = "if".toList ++
      ' ' :: '(' :: (e.text.toList ++ ')' :: ' ' :: (b.text.toList ++
        ' ' :: ("else".toList ++ ' ' :: a.text.toList))) := by simp [Expr.text]
  rw [htext]
  apply scans_condition ho he
  intro i l r ts e' hi hl hr hd heq
  refine hb.before (by decide) ?_
  intro us h
  obtain ⟨b', hdb, hbeq⟩ := h
  refine Scans.blank ?_
  refine Scans.keyword .elseWord (by decide) (by simp; decide) fun w hw => Scans.blank ?_
  refine (ha rest hrest).mono ?_
  intro vs h
  obtain ⟨a', hda, haeq⟩ := h
  exact ⟨.conditional i e' b' (some a'), .alternative hi hl hd hr hdb hw hda,
    by simp [Expr.withoutTokens, heq, hbeq, haeq]⟩

/-- The tokens of a statement in a sequence; an expression has its semicolon behind it only if
another statement follows. -/
def Stmt.ReadAs (s : Stmt) (ts : List Token) : Prop :=
  ∃ s' us, Derives False us (.core s') ∧ s'.withoutTokens = s.withoutTokens ∧
    match s with
    | .expression .. => ts = us
    | _ => ∃ t : Token, t.kind = .semicolon ∧ ts = us ++ [t]

theorem spells_letName {t : Token} {x : Identifier} {e : Expr} (hx : IsName x.name)
    (he : Spells e.text e.ReadAs) :
    Spells (Stmt.letName t x e).text (Stmt.letName t x e).ReadAs := by
  intro rest hrest
  have htext : (Stmt.letName t x e).text.toList = "let".toList ++ ' ' :: (x.name.toList ++
      ' ' :: '=' :: ' ' :: (e.text.toList ++ [';'])) := by simp [Stmt.text]
  rw [htext]
  refine Scans.keyword .letWord (by decide) (by simp; decide) fun l hl => Scans.blank ?_
  refine (spells_name hx).before (by decide) ?_
  intro ts h
  obtain ⟨n, rfl, hn, hliteral⟩ := h
  refine Scans.blank (Scans.mark .assign (by decide) (by simp) fun a ha => Scans.blank ?_)
  refine he.before (by decide) ?_
  intro us h
  obtain ⟨e', hd, heq⟩ := h
  refine Scans.mark .semicolon (by decide) hrest.head fun r hr => Scans.nil ?_
  refine ⟨_, _, .letName hl hn ha hd.loosest, ?_, r, hr, rfl⟩
  simp [Stmt.withoutTokens, Identifier.withoutToken, hliteral, heq]

theorem spells_returnValue {t : Token} {e : Expr} (he : Spells e.text e.ReadAs) :
    Spells (Stmt.returnValue t e).text (Stmt.returnValue t e).ReadAs := by
  intro rest hrest
  have htext : (Stmt.returnValue t e).text.toList =
      "return".toList ++ ' ' :: (e.text.toList ++ [';']) := by simp [Stmt.text]
  rw [htext]
  refine Scans.keyword .returnWord (by decide) (by simp; decide) fun l hl => Scans.blank ?_
  refine he.before (by decide) ?_
  intro us h
  obtain ⟨e', hd, heq⟩ := h
  refine Scans.mark .semicolon (by decide) hrest.head fun r hr => Scans.nil ?_
  refine ⟨_, _, .returnValue hl hd.loosest, ?_, r, hr, rfl⟩
  simp [Stmt.withoutTokens, heq]

theorem spells_expression {t : Token} {e : Expr} (he : Spells e.text e.ReadAs) :
    Spells (Stmt.expression t e).text (Stmt.expression t e).ReadAs := by
  intro rest hrest
  refine (he rest hrest).mono ?_
  intro ts h
  obtain ⟨e', hd, heq⟩ := h
  obtain ⟨u, us, rfl, -⟩ := hd.beginsWith
  refine ⟨_, _, .expression hd.loosest, ?_, rfl⟩
  simp [Stmt.withoutTokens, heq]

/-- The last statement, with its semicolon or without. -/
theorem Stmt.ReadAs.last {s : Stmt} {ts : List Token} (h : s.ReadAs ts) :
    Stmt.AllReadAs [s] ts := by
  obtain ⟨s', us, hd, heq, hts⟩ := h
  refine ⟨[s'], ?_, by simp [Stmt.allWithoutTokens, heq]⟩
  have hbare : Derives False (us ++ []) (.statements [s']) :=
    .unterminated hd (by simp) .noStatements
  rw [List.append_nil] at hbare
  cases s with
  | expression t e =>
    subst hts
    exact hbare
  | letName t x e =>
    obtain ⟨r, hr, rfl⟩ := hts
    exact .terminated hd hr .noStatements
  | returnValue t e =>
    obtain ⟨r, hr, rfl⟩ := hts
    exact .terminated hd hr .noStatements
  | block b =>
    obtain ⟨r, hr, rfl⟩ := hts
    exact .terminated hd hr .noStatements

/-- A statement, its semicolon, and the statements that follow. -/
theorem Stmt.AllReadAs.cons {s s' : Stmt} {ss : List Stmt} {us vs : List Token} {t : Token}
    (hd : Derives False us (.core s')) (heq : s'.withoutTokens = s.withoutTokens)
    (ht : t.kind = .semicolon) (hss : Stmt.AllReadAs ss vs) :
    Stmt.AllReadAs (s :: ss) (us ++ t :: vs) := by
  obtain ⟨ss', hds, heqs⟩ := hss
  exact ⟨s' :: ss', .terminated hd ht hds, by simp [Stmt.allWithoutTokens, heq, heqs]⟩

/-- The semicolon behind an expression comes with the separator, that of others is their own. -/
theorem spells_cons {s : Stmt} {text : String} {ss : List Stmt} (hs : Spells s.text s.ReadAs)
    (hss : Spells text (Stmt.AllReadAs ss)) :
    Spells (s.text ++ s.separator ++ text) (Stmt.AllReadAs (s :: ss)) := by
  intro rest hrest
  cases s with
  | expression t e =>
    have htext : ((Stmt.expression t e).text ++ (Stmt.expression t e).separator ++ text).toList =
        (Stmt.expression t e).text.toList ++ ';' :: ' ' :: text.toList := by
      simp [Stmt.separator]
    rw [htext]
    refine hs.before (by decide) ?_
    intro ts h
    obtain ⟨s', us, hd, heq, hts⟩ := h
    refine Scans.mark .semicolon (by decide) (by simp) fun r hr => Scans.blank ?_
    subst hts
    exact (hss rest hrest).mono fun vs hvs => .cons hd heq hr hvs
  | _ =>
    have hblank : ∀ s : Stmt, (s.text ++ " " ++ text).toList =
        s.text.toList ++ ' ' :: text.toList := by simp
    simp only [Stmt.separator, hblank]
    refine hs.before (by decide) ?_
    intro ts h
    obtain ⟨s', us, hd, heq, r, hr, hts⟩ := h
    subst hts
    refine Scans.blank ((hss rest hrest).mono fun vs hvs => ?_)
    rw [List.append_assoc]
    exact .cons hd heq hr hvs

theorem spells_block {t : Token} {ss : List Stmt}
    (hs : Spells (Stmt.sequenceText ss) (Stmt.AllReadAs ss)) :
    Spells (Block.mk t ss).text (Block.mk t ss).ReadAs := by
  have htext : (Block.mk t ss).text.toList = '\x7b' :: ' ' :: ((Stmt.sequenceText ss).toList ++
      if ss = [] then ['\x7d'] else [' ', '\x7d']) := by
    cases ss <;> simp [Block.text, Stmt.sequenceText]
  intro rest hrest
  rw [htext]
  refine Scans.mark .leftBrace (by decide) (by simp) fun l hl => Scans.blank ?_
  refine Scans.append (hs _ ?_) ?_
  · split <;> exact apart_cons (by decide)
  · intro ts h
    obtain ⟨ss', hd, heq⟩ := h
    have hclose : Scans ['\x7d'] rest fun us => (Block.mk t ss).ReadAs (l :: (ts ++ us)) := by
      refine Scans.mark .rightBrace (by decide) hrest.head fun r hr => Scans.nil ?_
      exact ⟨.mk l ss', .block hl hd hr, by simp [Block.withoutTokens, heq]⟩
    split
    · exact hclose
    · exact Scans.blank hclose

mutual

theorem Expr.spells : ∀ e : Expr, e.WellFormed → Spells e.text e.ReadAs
  | .name x, h => fun rest hrest => by
    refine (spells_name h rest hrest).mono ?_
    intro ts h
    obtain ⟨t, rfl, hk, hl⟩ := h
    exact ⟨_, .name hk, by simp [Expr.withoutTokens, Identifier.withoutToken, hl]⟩
  | .integer _ value, h => fun rest hrest => by
    refine (spells_integer h rest hrest).mono ?_
    intro ts h
    obtain ⟨t, hd⟩ := h
    exact ⟨_, hd, by simp [Expr.withoutTokens]⟩
  | .boolean _ value, _ => fun rest hrest => by
    refine (spells_boolean value rest hrest).mono ?_
    intro ts h
    obtain ⟨t, hd⟩ := h
    exact ⟨_, hd, by simp [Expr.withoutTokens]⟩
  | .string .., h => spells_string h
  | .array _ items, h => spells_array (Expr.all_spell items h)
  | .unary _ _ right, h => spells_unary (right.text_opens h) (right.spells h)
  | .binary _ left _ right, h =>
    spells_binary (left.text_opens h.1) (left.spells h.1) (right.spells h.2)
  | .conditional _ condition consequence none, h =>
    spells_conditional (condition.text_opens h.1) (condition.spells h.1) (consequence.spells h.2)
  | .conditional _ condition consequence (some alternative), h =>
    spells_alternative (condition.text_opens h.1) (condition.spells h.1) (consequence.spells h.2.1)
      (alternative.spells h.2.2)
  | .function _ _ body, h => fun rest hrest => by
    refine (spells_function h.1 (body.spells h.2) rest hrest).mono ?_
    intro ts h
    obtain ⟨t, names', b', hd, hnames, hb⟩ := h
    exact ⟨_, hd, by simp [Expr.withoutTokens, hnames, hb]⟩
  | .call _ callee arguments, h =>
    spells_call (Expr.all_spell arguments h.2) (callee.spells h.1)
  | .index _ left position, h =>
    spells_index (left.text_opens h.1) (position.text_opens h.2) (left.spells h.1)
      (position.spells h.2)

theorem Expr.all_spell : ∀ es : List Expr, Expr.AllWellFormed es →
    ∀ e ∈ es, Opens e.text ∧ Spells e.text e.ReadAs
  | [], _ => by simp
  | e :: es, h => by
    have hes := Expr.all_spell es h.2
    have he := e.spells h.1
    intro f hf
    rcases List.mem_cons.mp hf with rfl | hf
    · exact ⟨f.text_opens h.1, he⟩
    · exact hes f hf

theorem Stmt.spells : ∀ s : Stmt, s.WellFormed → Spells s.text s.ReadAs
  | .letName _ _ value, h => spells_letName h.1 (value.spells h.2)
  | .returnValue _ value, h => spells_returnValue (value.spells h)
  | .expression _ value, h => spells_expression (value.spells h)
  | .block _, h => h.elim

theorem Stmt.sequence_spells : ∀ ss : List Stmt, Stmt.AllWellFormed ss →
    Spells (Stmt.sequenceText ss) (Stmt.AllReadAs ss)
  | [], _ => fun _ _ => Scans.nil ⟨[], .noStatements, rfl⟩
  | [s], h => fun rest hrest => (s.spells h.1 rest hrest).mono fun _ hts => hts.last
  | s :: next :: rest, h => spells_cons (s.spells h.1) (Stmt.sequence_spells (next :: rest) h.2)

theorem Block.spells : ∀ b : Block, b.WellFormed → Spells b.text b.ReadAs
  | .mk _ statements, h => spells_block (Stmt.sequence_spells statements h)

end

/-- A text that spells statements is read without errors, as these statements. -/
theorem reading_of_spelled {text : String} {ok : List Stmt → Prop}
    (h : Spells text fun ts => ∃ ss, Derives False ts (.statements ss) ∧ ok ss) :
    (Reading.ofSource text).errors = [] ∧ ok (Reading.ofSource text).program := by
  obtain ⟨ts, offset, hts, ss, hd, hok⟩ := h [] apart_nil 0
  have hend : (⟨[], 0, offset⟩ : Lexer).tokens = [] := tokens_nil rfl
  rw [List.append_nil, hend, List.append_nil] at hts
  have hcompletes : Completes (Lexer.ofString text).tokens ts := hts ▸ completes_refl ts
  rw [reading_of_derives hcompletes hd]
  exact ⟨rfl, hok⟩

/-- Reading the canonical text of a well-formed program gives it back, up to its tokens. -/
theorem reading_of_text (program : Program) (h : program.WellFormed) :
    (Reading.ofSource program.text).errors = [] ∧
      (Reading.ofSource program.text).program.withoutTokens = program.withoutTokens :=
  reading_of_spelled (Stmt.sequence_spells program h)

/-- Rendering and parsing are inverse, and whatever is read can be rendered and read again. -/
theorem render_read_inverse :
    (∀ program : Program, program.WellFormed →
      (Reading.ofSource program.text).errors = [] ∧
        (Reading.ofSource program.text).program.withoutTokens = program.withoutTokens) ∧
    (∀ source : String, (Reading.ofSource source).program.WellFormed) ∧
    ∀ source : String,
      (Reading.ofSource (Reading.ofSource source).program.text).errors = [] ∧
        (Reading.ofSource (Reading.ofSource source).program.text).program.text =
          (Reading.ofSource source).program.text := by
  refine ⟨reading_of_text, reading_wellFormed, fun source => ?_⟩
  obtain ⟨herrors, hprogram⟩ := reading_of_text _ (reading_wellFormed source)
  exact ⟨herrors, Program.text_congr hprogram⟩

theorem render_read_negation :
    Program.WellFormed [.expression Token.erased
      (.unary Token.erased .not (.name ⟨Token.erased, "f"⟩))] ∧
    (Reading.ofSource (Program.text [.expression Token.erased
      (.unary Token.erased .not (.name ⟨Token.erased, "f"⟩))])).errors = [] := by
  have hname : IsName "f" := ⟨by simp [isLetter], by simp, by decide⟩
  have h : Program.WellFormed [.expression Token.erased
      (.unary Token.erased .not (.name ⟨Token.erased, "f"⟩))] := by
    simp [Program.WellFormed, Stmt.AllWellFormed, Stmt.WellFormed, Expr.WellFormed, hname]
  exact ⟨h, (render_read_inverse.1 _ h).1⟩

end MonkeyLang
