import MonkeyLang.Proofs.Lexing.Cover

namespace MonkeyLang

/-- The longest of those fronts of the bytes that are `P`. -/
structure Longest (P : List UInt8 → Prop) (bytes front : List UInt8) : Prop where
  isFront : front <+: bytes
  holds : P front
  longest : ∀ other, other <+: bytes → P other → other.length ≤ front.length

theorem Longest.unique {P : List UInt8 → Prop} {bytes xs ys : List UInt8}
    (hx : Longest P bytes xs) (hy : Longest P bytes ys) : xs = ys := by
  have hxy := hx.longest ys hy.isFront hy.holds
  have hyx := hy.longest xs hx.isFront hx.holds
  have hlength : xs.length = ys.length := Nat.le_antisymm hyx hxy
  exact (List.prefix_of_prefix_length_le hx.isFront hy.isFront hyx).eq_of_length hlength

/-- All the bytes are of one class. -/
def AllOf (P : UInt8 → Prop) (bytes : List UInt8) : Prop := ∀ b ∈ bytes, P b

theorem longest_takeWhile (p : Char → Bool) {P : UInt8 → Prop}
    (hp : ∀ {b : UInt8}, p (Char.ofUInt8 b) ↔ P b) (bytes : List UInt8) :
    Longest (AllOf P) bytes (bytes.takeWhile fun b => p (Char.ofUInt8 b)) where
  isFront := List.takeWhile_prefix _
  holds b hb := hp.mp (List.all_eq_true.mp List.all_takeWhile b hb)
  longest := by
    intro other hfront hall
    obtain ⟨behind, rfl⟩ := hfront
    rw [List.takeWhile_append_of_pos fun b hb => hp.mpr (hall b hb), List.length_append]
    exact Nat.le_add_right _ _

theorem isNoQuote_ofUInt8 {b : UInt8} : (Char.ofUInt8 b != '"') ↔ b ≠ '"'.toUInt8 := by
  rw [bne_iff_ne, Ne, ofUInt8_eq (by decide)]

theorem bytesOf_injective {s t : String} (h : bytesOf s = bytesOf t) : s = t :=
  String.toByteArray_inj.mp (ByteArray.ext (Array.toList_inj.mp h))

/-- What is cut out of a text are the bytes between the two places. -/
theorem bytesOf_slice {source text : String} {start stop : Nat}
    (h : slice? source start stop = some text) :
    bytesOf text = ((bytesOf source).drop start).take (stop - start) := by
  unfold slice? at h
  split at h
  · obtain rfl := Option.some.inj h
    change (source.toByteArray.extract start stop).data.toList = _
    rw [ByteArray.data_extract, Array.toList_extract, List.extract_eq_take_drop]
    rfl
  · cases h

namespace Token

namespace Kind

/-- The keyword of this kind. -/
inductive Keyword : Kind → String → Prop where
  | fnWord : Keyword .fnWord "fn"
  | letWord : Keyword .letWord "let"
  | ifWord : Keyword .ifWord "if"
  | elseWord : Keyword .elseWord "else"
  | returnWord : Keyword .returnWord "return"
  | trueWord : Keyword .trueWord "true"
  | falseWord : Keyword .falseWord "false"

/-- The operator or delimiter of this kind. -/
inductive Symbol : Kind → String → Prop where
  | equal : Symbol .equal "=="
  | notEqual : Symbol .notEqual "!="
  | lessEqual : Symbol .lessEqual "<="
  | greaterEqual : Symbol .greaterEqual ">="
  | and : Symbol .and "&&"
  | or : Symbol .or "||"
  | assign : Symbol .assign "="
  | bang : Symbol .bang "!"
  | less : Symbol .less "<"
  | greater : Symbol .greater ">"
  | plus : Symbol .plus "+"
  | minus : Symbol .minus "-"
  | star : Symbol .star "*"
  | slash : Symbol .slash "/"
  | comma : Symbol .comma ","
  | semicolon : Symbol .semicolon ";"
  | leftParen : Symbol .leftParen "("
  | rightParen : Symbol .rightParen ")"
  | leftBrace : Symbol .leftBrace "\x7b"
  | rightBrace : Symbol .rightBrace "\x7d"
  | leftBracket : Symbol .leftBracket "["
  | rightBracket : Symbol .rightBracket "]"

theorem mem_keywords {kind : Kind} {word : String} :
    (word, kind) ∈ keywords ↔ kind.Keyword word := by
  have hall : ∀ pair ∈ keywords, pair.2.Keyword pair.1 := by
    simp only [keywords, List.forall_mem_cons]
    exact ⟨.fnWord, .letWord, .ifWord, .elseWord, .returnWord, .trueWord, .falseWord,
      List.forall_mem_nil _⟩
  refine ⟨fun h => hall _ h, fun h => ?_⟩
  cases h <;> decide

theorem mem_symbols {kind : Kind} {symbol : String} :
    (symbol.toList, kind) ∈ symbols ↔ kind.Symbol symbol := by
  have hall : ∀ pair ∈ symbols, pair.2.Symbol (String.ofList pair.1) := by
    simp only [symbols, List.forall_mem_cons]
    exact ⟨.equal, .notEqual, .lessEqual, .greaterEqual, .and, .or, .assign, .plus, .minus, .star,
      .slash, .bang, .less, .greater, .comma, .semicolon, .leftParen, .rightParen, .leftBrace,
      .rightBrace, .leftBracket, .rightBracket, List.forall_mem_nil _⟩
  refine ⟨fun h => ?_, fun h => ?_⟩
  · have hsymbol := hall _ h
    rwa [String.ofList_toList] at hsymbol
  · cases h <;> decide

/-- The kind of a word is that of the keyword which the whole word is, or else it is a name. -/
def IsOfWord (kind : Kind) (word : String) : Prop :=
  kind.Keyword word ∨ kind = .name ∧ ∀ keyword : Kind, ¬keyword.Keyword word

/-- The bytes are those of the symbol of this kind. -/
def IsOfSymbol (kind : Kind) (bytes : List UInt8) : Prop :=
  ∃ symbol, kind.Symbol symbol ∧ bytesOf symbol = bytes

def Spelled (bytes : List UInt8) : Prop := ∃ kind : Kind, kind.IsOfSymbol bytes

theorem isOfSymbol_iff {kind : Kind} {bytes : List UInt8} :
    kind.IsOfSymbol bytes ↔ ∃ symbol, (symbol, kind) ∈ symbols ∧ utf8 symbol = bytes := by
  constructor
  · rintro ⟨symbol, hs, rfl⟩
    exact ⟨symbol.toList, mem_symbols.mpr hs, (bytesOf_eq symbol).symm⟩
  · rintro ⟨symbol, hs, rfl⟩
    refine ⟨String.ofList symbol, ?_, ?_⟩
    · rwa [← mem_symbols, String.toList_ofList]
    · rw [bytesOf_eq, String.toList_ofList]

theorem isOfWord_ofWord (word : String) : (ofWord word).IsOfWord word := by
  unfold ofWord
  cases hl : keywords.lookup word with
  | none =>
    refine .inr ⟨rfl, fun keyword hm => ?_⟩
    have hne := List.lookup_eq_none_iff.mp hl _ (mem_keywords.mpr hm)
    simp at hne
  | some kind =>
    obtain ⟨before, behind, heq, -⟩ := List.lookup_eq_some_iff.mp hl
    exact .inl (mem_keywords.mp (by simp [heq]))

theorem IsOfWord.unique {kind kind' : Kind} {word : String} (h : kind.IsOfWord word)
    (h' : kind'.IsOfWord word) : kind = kind' := by
  have hall : ∀ p ∈ keywords, ∀ q ∈ keywords, p.1 = q.1 → p.2 = q.2 := by decide
  rcases h with hk | ⟨hk, hnone⟩ <;> rcases h' with hk' | ⟨hk', hnone'⟩
  · exact hall _ (mem_keywords.mpr hk) _ (mem_keywords.mpr hk') rfl
  · exact absurd hk (hnone' _)
  · exact absurd hk' (hnone _)
  · rw [hk, hk']

theorem IsOfSymbol.unique {kind kind' : Kind} {bytes : List UInt8} (h : kind.IsOfSymbol bytes)
    (h' : kind'.IsOfSymbol bytes) : kind = kind' := by
  have hall : ∀ p ∈ symbols, ∀ q ∈ symbols, utf8 p.1 = utf8 q.1 → p.2 = q.2 := by decide +kernel
  obtain ⟨symbol, hs, hbytes⟩ := isOfSymbol_iff.mp h
  obtain ⟨symbol', hs', hbytes'⟩ := isOfSymbol_iff.mp h'
  exact hall _ hs _ hs' (hbytes.trans hbytes'.symm)

end Kind

/-- The longest run of letters. -/
structure IsWord (t : Token) (bytes : List UInt8) : Prop where
  longest : Longest (AllOf IsLetterByte) bytes (bytesOf t.literal)
  kind : t.kind.IsOfWord t.literal
  length : t.span.length = (bytesOf t.literal).length

/-- The longest run of digits. -/
structure IsNumber (t : Token) (bytes : List UInt8) : Prop where
  longest : Longest (AllOf IsDigitByte) bytes (bytesOf t.literal)
  kind : t.kind = .integer
  length : t.span.length = (bytesOf t.literal).length

/-- What stands between a quote and the next, with both, or up to the end if there is no other. -/
inductive IsString (t : Token) (bytes : List UInt8) : Prop where
  | closed (behind : List UInt8)
    (hb : bytes = '"'.toUInt8 :: (bytesOf t.literal ++ '"'.toUInt8 :: behind))
    (hq : AllOf (· ≠ '"'.toUInt8) (bytesOf t.literal)) (hk : t.kind = .string)
    (hl : t.span.length = (bytesOf t.literal).length + 2)
  | unclosed (hb : bytes = '"'.toUInt8 :: bytesOf t.literal)
    (hq : AllOf (· ≠ '"'.toUInt8) (bytesOf t.literal)) (hk : t.kind = .string)
    (hl : t.span.length = (bytesOf t.literal).length + 1)

/-- The longest symbol. -/
structure IsSymbol (t : Token) (bytes : List UInt8) : Prop where
  longest : Longest Kind.Spelled bytes (bytesOf t.literal)
  kind : t.kind.IsOfSymbol (bytesOf t.literal)
  length : t.span.length = (bytesOf t.literal).length

/-- A single byte that no token begins with. One outside ASCII is shown by the replacement
character. -/
structure IsIllegal (t : Token) (b : UInt8) : Prop where
  kind : t.kind = .illegal
  literal : t.literal = if b.toNat < 128 then String.singleton (Char.ofUInt8 b) else "\ufffd"
  length : t.span.length = 1

/-- The token is what the bytes begin with, by the longest match. -/
def IsFirst (t : Token) : List UInt8 → Prop
  | [] => False
  | b :: bs =>
    if IsLetterByte b then t.IsWord (b :: bs)
    else if IsDigitByte b then t.IsNumber (b :: bs)
    else if b = '"'.toUInt8 then t.IsString (b :: bs)
    else t.IsSymbol (b :: bs) ∨
      (∀ front, front <+: b :: bs → ¬Kind.Spelled front) ∧ t.IsIllegal b

section
variable {t u : Token} {bytes : List UInt8}

/-- The content of a string is the longest run without a quote, and only the end of the bytes can
keep it from its second quote. -/
theorem IsString.longest (h : t.IsString bytes) :
    Longest (AllOf (· ≠ '"'.toUInt8)) bytes.tail (bytesOf t.literal) ∧ t.kind = .string ∧
      t.span.length = min bytes.length ((bytesOf t.literal).length + 2) := by
  have hrun := longest_takeWhile (· != '"') isNoQuote_ofUInt8 bytes.tail
  cases h with
  | closed behind hb hq hk hl =>
    have hstop : ('"'.toUInt8 :: behind).takeWhile (fun b => Char.ofUInt8 b != '"') = [] :=
      List.takeWhile_cons_of_neg (by decide)
    rw [hb, List.tail_cons,
      List.takeWhile_append_of_pos fun b hm => isNoQuote_ofUInt8.mpr (hq b hm), hstop,
      List.append_nil] at hrun
    rw [hb, List.tail_cons]
    refine ⟨hrun, hk, ?_⟩
    simp only [List.length_cons, List.length_append]
    omega
  | unclosed hb hq hk hl =>
    rw [hb, List.tail_cons,
      List.takeWhile_eq_self_iff.mpr fun b hm => isNoQuote_ofUInt8.mpr (hq b hm)] at hrun
    rw [hb, List.tail_cons]
    refine ⟨hrun, hk, ?_⟩
    rw [List.length_cons]
    omega

theorem eq_of_parts (hk : t.kind = u.kind) (hl : bytesOf t.literal = bytesOf u.literal)
    (hs : t.span.start = u.span.start) (hn : t.span.length = u.span.length) : t = u := by
  obtain ⟨kind, literal, start, length⟩ := t
  obtain ⟨kind', literal', start', length'⟩ := u
  obtain rfl : literal = literal' := bytesOf_injective hl
  simp only at hk hs hn
  rw [hk, hs, hn]

section
variable (hs : t.span.start = u.span.start)
include hs

theorem IsWord.unique (h : t.IsWord bytes) (k : u.IsWord bytes) : t = u := by
  have hl := h.longest.unique k.longest
  have hk : t.kind = u.kind := h.kind.unique (bytesOf_injective hl ▸ k.kind)
  exact eq_of_parts hk hl hs (by rw [h.length, k.length, hl])

theorem IsNumber.unique (h : t.IsNumber bytes) (k : u.IsNumber bytes) : t = u := by
  have hl := h.longest.unique k.longest
  exact eq_of_parts (h.kind.trans k.kind.symm) hl hs (by rw [h.length, k.length, hl])

theorem IsString.unique (h : t.IsString bytes) (k : u.IsString bytes) : t = u := by
  obtain ⟨hrun, hk, hn⟩ := h.longest
  obtain ⟨hrun', hk', hn'⟩ := k.longest
  have hl := hrun.unique hrun'
  exact eq_of_parts (hk.trans hk'.symm) hl hs (by rw [hn, hn', hl])

theorem IsSymbol.unique (h : t.IsSymbol bytes) (k : u.IsSymbol bytes) : t = u := by
  have hl := h.longest.unique k.longest
  have hk : t.kind = u.kind := h.kind.unique (hl ▸ k.kind)
  exact eq_of_parts hk hl hs (by rw [h.length, k.length, hl])

theorem IsIllegal.unique {b : UInt8} (h : t.IsIllegal b) (k : u.IsIllegal b) : t = u := by
  have hl : t.literal = u.literal := h.literal.trans k.literal.symm
  exact eq_of_parts (h.kind.trans k.kind.symm) (congrArg bytesOf hl) hs
    (h.length.trans k.length.symm)

/-- No two tokens at one place are what the same bytes begin with. -/
theorem IsFirst.unique (h : t.IsFirst bytes) (k : u.IsFirst bytes) : t = u := by
  cases bytes with
  | nil => exact h.elim
  | cons b bs =>
    rw [IsFirst] at h k
    split at h
    · next hletter =>
      rw [if_pos hletter] at k
      exact h.unique hs k
    · next hletter =>
      rw [if_neg hletter] at k
      split at h
      · next hdigit =>
        rw [if_pos hdigit] at k
        exact h.unique hs k
      · next hdigit =>
        rw [if_neg hdigit] at k
        split at h
        · next hquote =>
          rw [if_pos hquote] at k
          exact h.unique hs k
        · next hquote =>
          rw [if_neg hquote] at k
          rcases h with h | ⟨hnone, h⟩ <;> rcases k with k | ⟨hnone', k⟩
          · exact h.unique hs k
          · exact absurd h.longest.holds (hnone' _ h.longest.isFront)
          · exact absurd k.longest.holds (hnone _ k.longest.isFront)
          · exact h.unique hs k

end

end

end Token

/-- From the offset on the bytes are read as these tokens: each is the first of what stands behind
the blanks and the tokens before it. -/
inductive Tokenizes : Nat → List UInt8 → List Token → Prop where
  | done {offset : Nat} {bytes : List UInt8} (hb : AllOf IsBlankByte bytes) :
    Tokenizes offset bytes []
  | token {offset : Nat} {bytes gap : List UInt8} {t : Token} {ts : List Token}
    (hgap : Longest (AllOf IsBlankByte) bytes gap) (hs : t.span.start = offset + gap.length)
    (ht : t.IsFirst (bytes.drop gap.length))
    (rest : Tokenizes t.span.stop (bytes.drop (gap.length + t.span.length)) ts) :
    Tokenizes offset bytes (t :: ts)

/-- Behind blanks alone there is no token. -/
theorem not_isFirst_of_blank {bytes gap : List UInt8} {t : Token} (hb : AllOf IsBlankByte bytes)
    (hgap : Longest (AllOf IsBlankByte) bytes gap) : ¬t.IsFirst (bytes.drop gap.length) := by
  have hall := hgap.longest bytes (List.prefix_refl _) hb
  rw [List.drop_eq_nil_of_le hall]
  exact id

theorem Tokenizes.unique {offset : Nat} {bytes : List UInt8} {ts us : List Token}
    (h : Tokenizes offset bytes ts) (k : Tokenizes offset bytes us) : ts = us := by
  induction h generalizing us with
  | done hb =>
    cases k with
    | done => rfl
    | token hgap hs ht rest => exact absurd ht (not_isFirst_of_blank hb hgap)
  | @token offset bytes gap t ts hgap hs ht rest ih =>
    cases k with
    | done hb => exact absurd ht (not_isFirst_of_blank hb hgap)
    | @token _ _ gap' u us hgap' hs' hu rest' =>
      obtain rfl := hgap.unique hgap'
      obtain rfl := ht.unique (hs.trans hs'.symm) hu
      rw [ih rest']

namespace Scanner

variable {source : String} {start after : Nat} {b : UInt8} {bs : List UInt8} {t : Token}

/-- What is cut out of the text from the byte on, and the place behind it. -/
theorem of_cut {kind : String → Token.Kind} {run : List UInt8} (hfront : run <+: b :: bs)
    (hdrop : (bytesOf source).drop start = b :: bs)
    (h : cut source kind start (start + run.length) = some (t, after)) :
    bytesOf t.literal = run ∧ t.kind = kind t.literal ∧ t.span.length = run.length := by
  obtain ⟨text, hslice, ht⟩ := Option.map_eq_some_iff.mp h
  obtain ⟨rfl, -⟩ := Prod.mk.inj ht
  have hbytes := bytesOf_slice hslice
  rw [hdrop, Nat.add_sub_cancel_left, ← List.prefix_iff_eq_take.mp hfront] at hbytes
  exact ⟨hbytes, rfl, Nat.add_sub_cancel_left _ _⟩

/-- A run of one class that is cut out of the text is the longest. -/
theorem of_cut_past {kind : String → Token.Kind} {p : Char → Bool} {P : UInt8 → Prop}
    (hp : ∀ {b : UInt8}, p (Char.ofUInt8 b) ↔ P b) (hdrop : (bytesOf source).drop start = b :: bs)
    (h : cut source kind start (past source p start) = some (t, after)) :
    Longest (AllOf P) (b :: bs) (bytesOf t.literal) ∧ t.kind = kind t.literal ∧
      t.span.length = (bytesOf t.literal).length := by
  have hrun := longest_takeWhile p hp (b :: bs)
  rw [past, hdrop] at h
  obtain ⟨hliteral, hkind, hlength⟩ := of_cut hrun.isFront hdrop h
  rw [hliteral]
  exact ⟨hrun, hkind, hlength⟩

/-- The first symbol of the table that fits is the longest that does. -/
theorem symbolAt_longest {bytes : List UInt8} {length : Nat} {kind : Token.Kind}
    (h : symbolAt? bytes = some (length, kind)) :
    ∃ run, run.length = length ∧ kind.IsOfSymbol run ∧
      Longest Token.Kind.Spelled bytes run := by
  have hsorted : Token.Kind.symbols.Pairwise fun earlier later =>
      (utf8 earlier.1).isPrefixOf (utf8 later.1) = false := by decide +kernel
  obtain ⟨symbol, hfind, heq⟩ := Option.map_eq_some_iff.mp h
  obtain ⟨rfl, rfl⟩ := Prod.mk.inj heq
  obtain ⟨hfits, before, behind, htable, hbefore⟩ := List.find?_eq_some_iff_append.mp hfind
  have hfront : utf8 symbol.1 <+: bytes := List.isPrefixOf_iff_prefix.mp hfits
  have hmem : symbol ∈ Token.Kind.symbols := List.mem_of_find?_eq_some hfind
  rw [htable] at hsorted
  have hkind : symbol.2.IsOfSymbol (utf8 symbol.1) :=
    Token.Kind.isOfSymbol_iff.mpr ⟨symbol.1, hmem, rfl⟩
  refine ⟨utf8 symbol.1, length_utf8 _, hkind, hfront, ⟨_, hkind⟩, ?_⟩
  intro other hother hspelled
  obtain ⟨kind', hkind'⟩ := hspelled
  obtain ⟨symbol', hmem', rfl⟩ := Token.Kind.isOfSymbol_iff.mp hkind'
  rw [htable] at hmem'
  rcases List.mem_append.mp hmem' with hm | hm
  · have hno := hbefore _ hm
    rw [List.isPrefixOf_iff_prefix.mpr hother] at hno
    cases hno
  · rcases List.mem_cons.mp hm with rfl | hm
    · exact Nat.le_refl _
    · by_contra hlt
      have hshorter := List.prefix_of_prefix_length_le hfront hother (Nat.le_of_not_le hlt)
      have hno := (List.pairwise_cons.mp (List.pairwise_append.mp hsorted).2.1).1 _ hm
      rw [List.isPrefixOf_iff_prefix.mpr hshorter] at hno
      cases hno

theorem not_spelled {bytes : List UInt8} (h : symbolAt? bytes = none) :
    ∀ front, front <+: bytes → ¬Token.Kind.Spelled front := by
  intro front hfront hspelled
  obtain ⟨kind, hkind⟩ := hspelled
  obtain ⟨symbol, hmem, rfl⟩ := Token.Kind.isOfSymbol_iff.mp hkind
  have hnone := List.find?_eq_none.mp (Option.map_eq_none_iff.mp h) _ hmem
  exact hnone (List.isPrefixOf_iff_prefix.mpr hfront)

theorem bytesOf_singleton (hb : b.toNat < 128) :
    bytesOf (String.singleton (Char.ofUInt8 b)) = [b] := by
  have hc : (Char.ofUInt8 b).toNat < 128 := by rwa [toNat_ofUInt8]
  obtain ⟨hbytes, hchar⟩ := utf8EncodeChar_ascii hc
  rw [bytesOf_eq, String.toList_singleton, utf8, List.flatMap_singleton, hbytes,
    ofUInt8_injective hchar]

/-- Behind the longest run without a quote there is a quote or the end. -/
theorem quoted_isString (hdrop : (bytesOf source).drop start = '"'.toUInt8 :: bs)
    (h : quoted source start = some (t, after)) : t.IsString ('"'.toUInt8 :: bs) := by
  have hbehind : (bytesOf source).drop (start + 1) = bs := by
    rw [← List.drop_drop, hdrop]
    rfl
  have hrun := longest_takeWhile (· != '"') isNoQuote_ofUInt8 bs
  rw [quoted, past, hbehind] at h
  generalize hcontent : bs.takeWhile (fun b => Char.ofUInt8 b != '"') = content at h hrun
  obtain ⟨rest, rfl⟩ := hrun.isFront
  obtain ⟨text, hslice, ht⟩ := Option.map_eq_some_iff.mp h
  obtain ⟨rfl, -⟩ := Prod.mk.inj ht
  have hbytes := bytesOf_slice hslice
  rw [hbehind, Nat.add_sub_cancel_left, List.take_left] at hbytes
  subst hbytes
  have hclose : (bytesOf source).drop (start + 1 + (bytesOf text).length) = rest := by
    rw [← List.drop_drop, hbehind, List.drop_left]
  rw [hclose]
  cases rest with
  | nil =>
    rw [List.append_nil] at hrun ⊢
    refine .unclosed rfl hrun.holds rfl ?_
    simp only [List.head?_nil, reduceCtorEq, if_false]
    omega
  | cons c rest =>
    rw [List.takeWhile_append_of_pos fun b hm => isNoQuote_ofUInt8.mpr (hrun.holds b hm),
      List.append_right_eq_self] at hcontent
    have hc : Char.ofUInt8 c = '"' := by
      by_contra hne
      simp [hne] at hcontent
    obtain rfl : c = '"'.toUInt8 := ofUInt8_injective hc
    refine .closed rest rfl hrun.holds rfl ?_
    simp only [List.head?_cons, if_true]
    omega

/-- The token at a byte is what stands there by the longest match. -/
theorem tokenAt_isFirst (hdrop : (bytesOf source).drop start = b :: bs)
    (h : tokenAt? source b start = some (t, after)) : t.IsFirst (b :: bs) := by
  rw [tokenAt?] at h
  rw [Token.IsFirst]
  by_cases hletter : isLetter (Char.ofUInt8 b)
  · rw [if_pos hletter] at h
    rw [if_pos (isLetter_ofUInt8.mp hletter)]
    obtain ⟨hlongest, hkind, hlength⟩ := of_cut_past isLetter_ofUInt8 hdrop h
    exact ⟨hlongest, hkind ▸ Token.Kind.isOfWord_ofWord _, hlength⟩
  rw [if_neg hletter] at h
  rw [if_neg (mt isLetter_ofUInt8.mpr hletter)]
  by_cases hdigit : (Char.ofUInt8 b).isDigit
  · rw [if_pos hdigit] at h
    rw [if_pos (isDigit_ofUInt8.mp hdigit)]
    obtain ⟨hlongest, hkind, hlength⟩ := of_cut_past isDigit_ofUInt8 hdrop h
    exact ⟨hlongest, hkind, hlength⟩
  rw [if_neg hdigit] at h
  rw [if_neg (mt isDigit_ofUInt8.mpr hdigit)]
  by_cases hquote : Char.ofUInt8 b = '"'
  · rw [if_pos (beq_iff_eq.mpr hquote)] at h
    obtain rfl : b = '"'.toUInt8 := ofUInt8_injective hquote
    rw [if_pos rfl]
    exact quoted_isString hdrop h
  rw [if_neg (by simpa using hquote)] at h
  rw [if_neg (mt (ofUInt8_eq (by decide)).mpr hquote)]
  rw [hdrop] at h
  cases hs : symbolAt? (b :: bs) with
  | some found =>
    obtain ⟨length, kind⟩ := found
    obtain ⟨run, rfl, hkind, hlongest⟩ := symbolAt_longest hs
    rw [hs] at h
    obtain ⟨hliteral, hk, hlength⟩ := of_cut hlongest.isFront hdrop h
    refine .inl ⟨hliteral ▸ hlongest, ?_, ?_⟩
    · rw [hk, hliteral]
      exact hkind
    · rw [hliteral, hlength]
  | none =>
    rw [hs] at h
    refine .inr ⟨not_spelled hs, ?_⟩
    by_cases hb : b.toNat < 128
    · simp only [hb, if_true] at h
      obtain ⟨hliteral, hk, hlength⟩ := of_cut (List.prefix_append [b] bs) hdrop h
      refine ⟨hk, ?_, hlength⟩
      rw [if_pos hb]
      exact bytesOf_injective (hliteral.trans (bytesOf_singleton hb).symm)
    · simp only [hb, if_false, Option.some.injEq, Prod.mk.injEq] at h
      obtain ⟨rfl, -⟩ := h
      exact ⟨rfl, by rw [if_neg hb], rfl⟩

end Scanner

namespace Lexer

variable {source : String}

/-- A token is the first of what stands behind the blanks. -/
theorem next_isFirst {lexer : Lexer} (h : lexer.At source) (hk : lexer.next.1.kind ≠ .endOfInput) :
    lexer.next.1.IsFirst ((bytesOf source).drop lexer.next.1.span.start) := by
  obtain ⟨-, hstart, -, -⟩ := next_stands h hk
  have hnext := (Scanner.next_eq h).1
  rw [Scanner.next?, ← hstart] at hnext
  cases hd : (bytesOf source).drop lexer.next.1.span.start with
  | nil =>
    simp only [hd, List.head?_nil, Option.some.injEq, Prod.mk.injEq] at hnext
    rw [← hnext.1] at hk
    exact absurd rfl hk
  | cons b bs =>
    simp only [hd, List.head?_cons] at hnext
    exact Scanner.tokenAt_isFirst hd hnext

theorem tokens_isFirst (lexer : Lexer) : lexer.At source →
    ∀ t ∈ lexer.tokens, t.IsFirst ((bytesOf source).drop t.span.start) := by
  induction lexer using by_tokens with
  | ending lexer hk => simp [tokens_nil hk]
  | token lexer hk ih =>
    intro h
    rw [tokens_cons hk]
    exact List.forall_mem_cons.mpr ⟨next_isFirst h hk, ih (Scanner.next_eq h).2⟩

/-- The lexer reads the bytes from its place on as its tokens. -/
theorem tokenizes (lexer : Lexer) : lexer.At source →
    Tokenizes lexer.offset ((bytesOf source).drop lexer.offset) lexer.tokens := by
  induction lexer using by_tokens with
  | ending lexer hk =>
    intro h
    rw [tokens_nil hk]
    refine .done fun b hb => ?_
    obtain ⟨i, hi⟩ := List.mem_iff_getElem?.mp hb
    rw [List.getElem?_drop] at hi
    exact isBlank_ofUInt8.mp (blank_of_end h hk (Nat.le_add_right _ _) hi)
  | token lexer hk ih =>
    intro h
    obtain ⟨-, hstart, -, hstop⟩ := next_stands h hk
    have hfirst := next_isFirst h hk
    have hrest := ih (Scanner.next_eq h).2
    rw [Scanner.past] at hstart
    rw [tokens_cons hk]
    refine .token (longest_takeWhile isBlank isBlank_ofUInt8 _) hstart ?_ ?_
    · rwa [List.drop_drop, ← hstart]
    · rw [List.drop_drop, ← Nat.add_assoc, ← hstart]
      rwa [hstop] at hrest

/-- One turn of an iteration over the tokens, which ends at the mark. -/
def turn? (lexer : Lexer) : Option (Token × Lexer) :=
  if lexer.next.1.kind = .endOfInput then none else some lexer.next

/-- An iteration from the lexer on yields these tokens. -/
inductive Yields : Lexer → List Token → Prop where
  | stop {lexer : Lexer} (h : lexer.turn? = none) : Yields lexer []
  | yield {lexer after : Lexer} {t : Token} {ts : List Token} (h : lexer.turn? = some (t, after))
    (rest : Yields after ts) : Yields lexer (t :: ts)

theorem yields_tokens (lexer : Lexer) : lexer.Yields lexer.tokens := by
  induction lexer using by_tokens with
  | ending lexer hk =>
    rw [tokens_nil hk]
    exact .stop (if_pos hk)
  | token lexer hk ih =>
    rw [tokens_cons hk]
    exact .yield (if_neg hk) ih

theorem Yields.unique {lexer : Lexer} {ts us : List Token} (h : lexer.Yields ts)
    (k : lexer.Yields us) : ts = us := by
  induction h generalizing us with
  | stop hstop =>
    cases k with
    | stop => rfl
    | yield hyield rest =>
      rw [hstop] at hyield
      cases hyield
  | yield hyield rest ih =>
    cases k with
    | stop hstop =>
      rw [hyield] at hstop
      cases hstop
    | yield hyield' rest' =>
      rw [hyield] at hyield'
      obtain ⟨rfl, rfl⟩ := Prod.mk.inj (Option.some.inj hyield')
      rw [ih rest']

end Lexer

/-- Each token of a source is what the bytes from its start on begin with, by the longest match, and
behind blanks. There is just one row of tokens for which this is so: it is the one that is read, up
to the mark of the end, and the one that an iteration over the lexer yields. -/
theorem tokens_longest_match (source : String) :
    let tokens := (Lexer.ofString source).tokens
    (∀ t ∈ tokens, t.IsFirst ((bytesOf source).drop t.span.start)) ∧
    (∀ ts, Tokenizes 0 (bytesOf source) ts ↔ ts = tokens) ∧
    (∀ n, ((Lexer.ofString source).skip n).next.1 =
      tokens.getD n (Token.endAt source.utf8ByteSize)) ∧
    ∀ ts, (Lexer.ofString source).Yields ts ↔ ts = tokens := by
  intro tokens
  have hat := Scanner.ofString_at source
  have htokenizes : Tokenizes 0 (bytesOf source) tokens := Lexer.tokenizes _ hat
  have hyields : (Lexer.ofString source).Yields tokens := Lexer.yields_tokens _
  have hend : (Lexer.ofString source).endMark = Token.endAt source.utf8ByteSize := by
    rw [utf8ByteSize_eq, Lexer.endMark, Lexer.remaining, Lexer.ofString, Nat.zero_add, Nat.zero_add]
  refine ⟨Lexer.tokens_isFirst _ hat, fun ts => ⟨fun h => h.unique htokenizes, ?_⟩, ?_,
    fun ts => ⟨fun h => h.unique hyields, ?_⟩⟩
  · rintro rfl
    exact htokenizes
  · intro n
    rw [← hend]
    exact Lexer.skip_next _ n
  · rintro rfl
    exact hyields

/-- Symbols that stand back to back are told apart from the left. -/
example : (Lexer.ofString "===&&&!==").tokens.map Token.kind =
    [.equal, .assign, .and, .illegal, .notEqual, .assign] := by
  decide +kernel

end MonkeyLang
