import MonkeyLang.Proofs.Lexing.Append
import MonkeyLang.Proofs.Lexing.Bytes

namespace MonkeyLang

namespace Scanner

variable (source : String)

/-- The first place from here on whose byte is not of the class. -/
def past (p : Char → Bool) (offset : Nat) : Nat :=
  offset + (((bytesOf source).drop offset).takeWhile fun b => p (Char.ofUInt8 b)).length

/-- The longest symbol at the front of the bytes, by its length. -/
def symbolAt? (bytes : List UInt8) : Option (Nat × Token.Kind) :=
  (Token.Kind.symbols.find? fun symbol => (utf8 symbol.1).isPrefixOf bytes).map fun symbol =>
    (byteLength symbol.1, symbol.2)

/-- A token whose literal is its stretch of the text, and the place behind it. -/
def cut (kind : String → Token.Kind) (start stop : Nat) : Option (Token × Nat) :=
  (slice? source start stop).map fun text => (⟨kind text, text, ⟨start, stop - start⟩⟩, stop)

/-- A string, whose literal is what stands behind the quote and before the next. -/
def quoted (start : Nat) : Option (Token × Nat) :=
  let close := past source (· != '"') (start + 1)
  let stop := if ((bytesOf source).drop close).head? = some '"'.toUInt8 then close + 1 else close
  (slice? source (start + 1) close).map fun text => (⟨.string, text, ⟨start, stop - start⟩⟩, stop)

/-- The token that begins with the byte at the place. There is none if its literal cannot be cut out
of the text. -/
def tokenAt? (byte : UInt8) (start : Nat) : Option (Token × Nat) :=
  if isLetter (Char.ofUInt8 byte) then
    cut source Token.Kind.ofWord start (past source isLetter start)
  else if (Char.ofUInt8 byte).isDigit then
    cut source (fun _ => .integer) start (past source Char.isDigit start)
  else if Char.ofUInt8 byte == '"' then
    quoted source start
  else
    match symbolAt? ((bytesOf source).drop start) with
    | some (length, kind) => cut source (fun _ => kind) start (start + length)
    | none =>
      if byte.toNat < 128 then cut source (fun _ => .illegal) start (start + 1)
      else some (⟨.illegal, "\ufffd", ⟨start, 1⟩⟩, start + 1)

/-- The next token, and the place behind it. -/
def next? (offset : Nat) : Option (Token × Nat) :=
  let start := past source isBlank offset
  match ((bytesOf source).drop start).head? with
  | none => some (Token.endAt start, start)
  | some byte => tokenAt? source byte start

/-- What so many readings from the place on give. -/
def read? : Nat → Nat → Option (List Token)
  | 0, _ => some []
  | n + 1, offset => do
    let (token, after) ← next? source offset
    let tokens ← read? n after
    return token :: tokens

section
variable {source : String} {front text rest : List Char}

theorem drop_bytes (h : source.toList = front ++ rest) :
    (bytesOf source).drop (byteLength front) = utf8 rest := by
  rw [bytesOf_eq, h, utf8_append, ← length_utf8, List.drop_left]

theorem byte_of_drop {offset : Nat} {b : UInt8} {bs : List UInt8}
    (h : (bytesOf source).drop offset = b :: bs) : (bytesOf source)[offset]? = some b := by
  rw [← List.head?_drop, h, List.head?_cons]

/-- A character outside ASCII shows in the byte at its place. -/
theorem byte_high {c : Char} {cs : List Char} (h : source.toList = front ++ c :: cs)
    (hc : 128 ≤ c.toNat) : ∃ b, (bytesOf source)[byteLength front]? = some b ∧ 128 ≤ b.toNat := by
  obtain ⟨b, bs, hbs⟩ := List.exists_cons_of_ne_nil (String.utf8EncodeChar_ne_nil (c := c))
  have hdrop := drop_bytes h
  rw [utf8_cons, hbs, List.cons_append] at hdrop
  exact ⟨b, byte_of_drop hdrop, le_of_mem_utf8EncodeChar hc b (by simp [hbs])⟩

theorem past_eq {p : Char → Bool} (hp : Uniform p) (h : source.toList = front ++ rest) :
    past source p (byteLength front) = byteLength (front ++ rest.takeWhile p) := by
  rw [past, drop_bytes h, hp.takeWhile, length_utf8, byteLength_append]

theorem cut_eq (kind : String → Token.Kind) (h : source.toList = front ++ text ++ rest) :
    cut source kind (byteLength front) (byteLength (front ++ text)) =
      some (⟨kind (String.ofList text), String.ofList text, ⟨byteLength front, byteLength text⟩⟩,
        byteLength front + byteLength text) := by
  have hslice := slice_eq h
  rw [byteLength_append, cut, hslice, Option.map_some, Nat.add_sub_cancel_left]

/-- A symbol is of ASCII, so that it shows in the bytes. -/
theorem isPrefixOf_utf8 : ∀ {symbol : List Char}, (∀ a ∈ symbol, a.toNat < 128) →
    ∀ cs, (utf8 symbol).isPrefixOf (utf8 cs) = symbol.isPrefixOf cs
  | [], _, _ => rfl
  | a :: symbol, ha, cs => by
    obtain ⟨hbytes, hchar⟩ := utf8EncodeChar_ascii (ha a (by simp))
    rw [utf8_cons, hbytes]
    cases cs with
    | nil => rfl
    | cons c cs =>
      have ih := isPrefixOf_utf8 (fun b hb => ha b (List.mem_cons_of_mem a hb)) cs
      rw [utf8_cons]
      by_cases hc : c.toNat < 128
      · obtain ⟨hbytes', hchar'⟩ := utf8EncodeChar_ascii hc
        have hbeq : (a.val.toUInt8 == c.val.toUInt8) = (a == c) := by
          rw [Bool.eq_iff_iff, beq_iff_eq, beq_iff_eq]
          exact ⟨fun h => by rw [← hchar, h, hchar'], fun h => by rw [h]⟩
        simp only [hbytes', List.singleton_append, List.isPrefixOf_cons_cons, hbeq, ih]
      · -- the bytes of the character are none of the symbol's, as it is not of ASCII
        obtain ⟨b, bs, hbs⟩ := List.exists_cons_of_ne_nil (String.utf8EncodeChar_ne_nil (c := c))
        have hb := le_of_mem_utf8EncodeChar (Nat.le_of_not_lt hc) b (by simp [hbs])
        have hne : (a == c) = false := by
          rw [beq_eq_false_iff_ne]
          rintro rfl
          exact hc (ha a (by simp))
        have hne' : (a.val.toUInt8 == b) = false := by
          rw [beq_eq_false_iff_ne]
          rintro rfl
          have hnat := congrArg Char.toNat hchar
          rw [toNat_ofUInt8] at hnat
          have hlt := ha a (by simp)
          omega
        simp only [hbs, List.cons_append, List.nil_append,
          List.isPrefixOf_cons_cons, hne, hne', Bool.false_and]

theorem symbolAt_utf8 (cs : List Char) : symbolAt? (utf8 cs) =
    (Token.Kind.symbolAt? cs).map fun symbol => (byteLength symbol.1, symbol.2) := by
  rw [symbolAt?, Token.Kind.symbolAt_eq_find,
    List.find?_congr fun pair hp => isPrefixOf_utf8 (Token.Kind.symbols_ascii pair hp) cs]

/-- No symbol begins with a byte outside ASCII. -/
theorem symbolAt_high {b : UInt8} (hb : 128 ≤ b.toNat) (bs : List UInt8) :
    symbolAt? (b :: bs) = none := by
  have hall : ∀ symbol ∈ Token.Kind.symbols, ∃ a as, utf8 symbol.1 = a :: as ∧ a.toNat < 128 := by
    simp [Token.Kind.symbols, utf8, String.utf8EncodeChar]
  rw [symbolAt?, Option.map_eq_none_iff, List.find?_eq_none]
  intro symbol hs
  obtain ⟨a, as, hsymbol, ha⟩ := hall symbol hs
  have hne : a ≠ b := by
    rintro rfl
    omega
  simp [hsymbol, List.isPrefixOf_cons_cons, hne]

/-- There are no blanks before a byte outside ASCII. -/
theorem past_high {b : UInt8} (hb : 128 ≤ b.toNat) {offset : Nat} {bs : List UInt8}
    (h : (bytesOf source).drop offset = b :: bs) : past source isBlank offset = offset := by
  have hblank : isBlank (Char.ofUInt8 b) = false := isBlank_uniform _ (by rwa [toNat_ofUInt8])
  simp [past, h, hblank]

/-- A byte outside ASCII is a token by itself. -/
theorem tokenAt_high {b : UInt8} (hb : 128 ≤ b.toNat) {start : Nat} {bs : List UInt8}
    (h : (bytesOf source).drop start = b :: bs) :
    tokenAt? source b start = some (⟨.illegal, "\ufffd", ⟨start, 1⟩⟩, start + 1) := by
  have hle : 128 ≤ (Char.ofUInt8 b).toNat := by rwa [toNat_ofUInt8]
  have hletter : isLetter (Char.ofUInt8 b) = false := isLetter_uniform _ hle
  have hdigit : (Char.ofUInt8 b).isDigit = false := isDigit_uniform _ hle
  have hquote : (Char.ofUInt8 b == '"') = false := by simpa using notQuote_uniform _ hle
  simp [tokenAt?, hletter, hdigit, hquote, h, symbolAt_high hb, Nat.not_lt.mpr hb]

end

end Scanner

/-- The lexer stands at its place in the text. The bytes that are pending are the last ones of an
illegal character. -/
structure Lexer.At (source : String) (lexer : Lexer) : Prop where
  split : ∃ front, source.toList = front ++ lexer.rest ∧
    byteLength front = lexer.offset + lexer.pending
  bytes : ∃ tail, tail.length = lexer.pending ∧ (∀ b ∈ tail, 128 ≤ b.toNat) ∧
    (bytesOf source).drop lexer.offset = tail ++ utf8 lexer.rest

namespace Scanner

variable {source : String} {front : List Char}

theorem at_of_split {rest : List Char} (h : source.toList = front ++ rest) :
    (⟨rest, 0, byteLength front⟩ : Lexer).At source :=
  ⟨⟨front, h, rfl⟩, [], rfl, nofun, drop_bytes h⟩

theorem ofString_at (source : String) : (Lexer.ofString source).At source :=
  @at_of_split source [] _ rfl

/-- The scanner comes to the lexeme that stands behind the front, and to the place behind it. -/
structure Gives (source : String) (front : List Char) (found : Option (Token × Nat))
    (lexeme : Lexeme) : Prop where
  token : found = some (⟨lexeme.kind, String.ofList lexeme.literal,
    ⟨byteLength front, lexeme.length⟩⟩, byteLength front + lexeme.length)
  after : (⟨lexeme.rest, lexeme.pending, byteLength front + lexeme.length⟩ : Lexer).At source

/-- A lexeme that is its own literal. -/
theorem gives_cut {text rest : List Char} (kind : String → Token.Kind)
    (h : source.toList = front ++ text ++ rest) {start stop : Nat}
    (hstart : start = byteLength front) (hstop : stop = byteLength (front ++ text)) :
    Gives source front (cut source kind start stop)
      ⟨kind (String.ofList text), text, byteLength text, rest, 0⟩ where
  token := by rw [hstart, hstop, cut_eq kind h]
  after := by
    rw [← byteLength_append]
    exact at_of_split h

theorem gives_run {p : Char → Bool} (hp : Uniform p) {cs : List Char} {kind : String → Token.Kind}
    (h : source.toList = front ++ cs) :
    Gives source front (cut source kind (byteLength front) (past source p (byteLength front)))
      (Lexeme.run (fun text => kind (String.ofList text)) p cs) := by
  have hsplit : source.toList = front ++ cs.takeWhile p ++ cs.dropWhile p := by
    rw [List.append_assoc, List.takeWhile_append_dropWhile, h]
  exact gives_cut kind hsplit rfl (past_eq hp h)

theorem gives_string {cs : List Char} (h : source.toList = front ++ '"' :: cs) :
    Gives source front (quoted source (byteLength front)) (Lexeme.string cs) := by
  have hopen : source.toList = front ++ ['"'] ++ cs := by rw [h, List.append_assoc]; rfl
  have hstart : byteLength (front ++ ['"']) = byteLength front + 1 := byteLength_append _ _
  have hsplit : source.toList =
      front ++ ['"'] ++ cs.takeWhile (· != '"') ++ cs.dropWhile (· != '"') := by
    rw [List.append_assoc, List.takeWhile_append_dropWhile, hopen]
  have hlength : byteLength (front ++ ['"'] ++ cs.takeWhile (· != '"')) =
      byteLength front + (byteLength (cs.takeWhile (· != '"')) + 1) := by
    rw [byteLength_append, hstart]
    omega
  have hclose := past_eq notQuote_uniform hopen
  have hslice := slice_eq hsplit
  have hdrop := drop_bytes hsplit
  rw [hstart, hlength] at hclose
  rw [← byteLength_append, hlength, hstart] at hslice
  rw [hlength] at hdrop
  unfold Lexeme.string
  cases hd : cs.dropWhile (· != '"') with
  | nil =>
    rw [hd] at hdrop hsplit
    constructor
    · simp only [quoted, hclose, hdrop, hslice, Option.map_some]
      simp [utf8]
    · have hat := at_of_split hsplit
      rwa [hlength] at hat
  | cons c rest =>
    have hc : c = '"' := by
      have hne : cs.dropWhile (· != '"') ≠ [] := by simp [hd]
      have hn := List.head_dropWhile_not (· != '"') hne
      simpa [hd] using hn
    subst hc
    rw [hd] at hdrop hsplit
    have hquote : (utf8 ('"' :: rest)).head? = some '"'.toUInt8 := rfl
    constructor
    · simp only [quoted, hclose, hdrop, hslice, hquote, if_true, Option.map_some,
        Nat.add_sub_cancel_left, Nat.add_assoc]
    · have hlast : source.toList =
          front ++ ['"'] ++ cs.takeWhile (· != '"') ++ ['"'] ++ rest := by
        rw [hsplit, List.append_assoc _ ['"'] rest]
        rfl
      have hat := at_of_split hlast
      have hone : byteLength ['"'] = 1 := rfl
      rwa [byteLength_append, hlength, hone] at hat

/-- A character outside ASCII is illegal, and its bytes are so one by one. -/
theorem ofText_high {c : Char} (hc : 128 ≤ c.toNat) (cs : List Char) :
    Lexeme.ofText c cs = Lexeme.illegal c cs := by
  have hletter : isLetter c = false := isLetter_uniform c hc
  have hdigit : c.isDigit = false := isDigit_uniform c hc
  have hquote : (c == '"') = false := by simpa using notQuote_uniform c hc
  have hsymbol : Token.Kind.symbolAt? (c :: cs) = none := by
    obtain ⟨b, bs, hbs⟩ := List.exists_cons_of_ne_nil (String.utf8EncodeChar_ne_nil (c := c))
    have hb := le_of_mem_utf8EncodeChar hc b (by simp [hbs])
    have hnone := symbolAt_high hb (bs ++ utf8 cs)
    rw [← List.cons_append, ← hbs, ← utf8_cons, symbolAt_utf8, Option.map_eq_none_iff] at hnone
    exact hnone
  simp [Lexeme.ofText, hletter, hdigit, hquote, hsymbol]

theorem gives_high {c : Char} {cs : List Char} (hc : 128 ≤ c.toNat)
    (h : source.toList = front ++ c :: cs) {b : UInt8} {bs : List UInt8}
    (hbs : String.utf8EncodeChar c = b :: bs) :
    Gives source front (tokenAt? source b (byteLength front)) (Lexeme.illegal c cs) := by
  have hdrop := drop_bytes h
  rw [utf8_cons, hbs, List.cons_append] at hdrop
  have hall := le_of_mem_utf8EncodeChar hc
  rw [hbs] at hall
  have hsize : bs.length + 1 = c.utf8Size := by
    rw [← String.length_utf8EncodeChar, hbs, List.length_cons]
  have hne : c.utf8Size ≠ 1 := fun hs => absurd (toNat_lt_of_size hs) (Nat.not_lt.mpr hc)
  constructor
  · rw [tokenAt_high (hall b (by simp)) hdrop]
    simp [Lexeme.illegal, hne]
  · have hsplit : source.toList = front ++ [c] ++ cs := by
      rw [h, List.append_assoc, List.singleton_append]
    refine ⟨⟨front ++ [c], hsplit, ?_⟩, bs, ?_, fun b' hb' => hall b' (by simp [hb']), ?_⟩
    · simp only [byteLength_append, byteLength, Lexeme.illegal]
      omega
    · simp only [Lexeme.illegal]
      omega
    · rw [← List.drop_drop, hdrop]
      rfl

/-- The scanner comes to the lexeme at the front of what is left. -/
theorem gives_lexeme {c : Char} {cs : List Char} (h : source.toList = front ++ c :: cs) {b : UInt8}
    {bs : List UInt8} (hbs : String.utf8EncodeChar c = b :: bs) :
    Gives source front (tokenAt? source b (byteLength front)) (Lexeme.ofText c cs) := by
  by_cases hc : c.toNat < 128
  · have hchar : Char.ofUInt8 b = c := by
      obtain ⟨hbytes, hchar⟩ := utf8EncodeChar_ascii hc
      rw [hbs, List.cons.injEq] at hbytes
      rw [hbytes.1, hchar]
    have hb : b.toNat < 128 := by rwa [← toNat_ofUInt8, hchar]
    unfold tokenAt? Lexeme.ofText
    rw [hchar, drop_bytes h, symbolAt_utf8, if_pos hb]
    split
    · exact gives_run isLetter_uniform h
    · split
      · exact gives_run isDigit_uniform h
      · split
        · next hq =>
          obtain rfl := beq_iff_eq.mp hq
          exact gives_string h
        · cases hs : Token.Kind.symbolAt? (c :: cs) with
          | some found =>
            obtain ⟨symbol, kind⟩ := found
            obtain ⟨rest, hrest⟩ := (Token.Kind.symbolAt_mem hs).2
            have hsplit : source.toList = front ++ symbol ++ rest := by
              rw [h, List.append_assoc, hrest]
            simp only [Option.map_some, ← hrest, List.drop_left]
            exact gives_cut (fun _ => kind) hsplit rfl (byteLength_append _ _).symm
          | none =>
            have hsize := size_of_toNat_lt hc
            have hsplit : source.toList = front ++ [c] ++ cs := by
              rw [h, List.append_assoc, List.singleton_append]
            have hone : byteLength [c] = 1 := hsize
            have hstop := byteLength_append front [c]
            rw [hone] at hstop
            have hgives := gives_cut (fun _ => .illegal) hsplit rfl hstop.symm
            rw [hone] at hgives
            simp only [Option.map_none, Lexeme.illegal, hsize, if_true]
            exact hgives
  · have hle := Nat.le_of_not_lt hc
    rw [ofText_high hle]
    exact gives_high hle h hbs

/-- Of the bytes that are pending the first is at the place of the lexer. -/
theorem at_pending {rest : List Char} {n offset : Nat}
    (h : (⟨rest, n + 1, offset⟩ : Lexer).At source) :
    ∃ b bs, 128 ≤ b.toNat ∧ (bytesOf source).drop offset = b :: bs ∧
      (⟨rest, n, offset + 1⟩ : Lexer).At source := by
  obtain ⟨⟨front, hsplit, hfront⟩, tail, htail, hhigh, hdrop⟩ := h
  obtain ⟨b, bs, rfl⟩ := List.exists_cons_of_length_eq_add_one htail
  refine ⟨b, _, hhigh b (by simp), hdrop, ⟨front, hsplit, ?_⟩, bs, Nat.succ.inj htail,
    fun b' hb' => hhigh b' (by simp [hb']), ?_⟩
  · simp only at hfront ⊢
    omega
  · rw [← List.drop_drop, hdrop]
    rfl

/-- Where the lexer stands before blanks, the scanner passes to what is behind them. -/
theorem at_behind {gap rest : List Char} {offset : Nat}
    (h : (⟨gap ++ rest, 0, offset⟩ : Lexer).At source) (hgap : ∀ c ∈ gap, isBlank c)
    (hrest : ∀ c ∈ rest.head?, isBlank c = false) :
    ∃ front, source.toList = front ++ rest ∧ offset + byteLength gap = byteLength front ∧
      past source isBlank offset = byteLength front := by
  obtain ⟨⟨front, hsplit, hfront⟩, -⟩ := h
  obtain rfl : byteLength front = offset := hfront
  have htake : rest.takeWhile isBlank = [] := by
    cases rest with
    | nil => rfl
    | cons c cs => exact List.takeWhile_cons_of_neg (by simp [hrest c rfl])
  refine ⟨front ++ gap, ?_, (byteLength_append _ _).symm, ?_⟩
  · rw [List.append_assoc, hsplit]
  · rw [past_eq isBlank_uniform hsplit, List.takeWhile_append_of_pos hgap, htake, List.append_nil]

/-- A step of the scanner is one of the lexer. -/
theorem next_eq {lexer : Lexer} (h : lexer.At source) :
    next? source lexer.offset = some (lexer.next.1, lexer.next.2.offset) ∧
      lexer.next.2.At source := by
  cases lexer using Lexer.by_next with
  | pending rest n offset =>
    obtain ⟨b, bs, hb, hdrop, hat⟩ := at_pending h
    refine ⟨?_, hat⟩
    simp only [next?, past_high hb hdrop, hdrop, List.head?_cons, tokenAt_high hb hdrop]
    rfl
  | ending gap offset hgap =>
    rw [← List.append_nil gap] at h
    obtain ⟨front, hsplit, hfront, hstart⟩ := at_behind h hgap nofun
    simp only [next?, hstart, drop_bytes hsplit, Lexer.next_ending hgap, hfront]
    exact ⟨rfl, at_of_split hsplit⟩
  | lexeme gap c cs offset hgap hc =>
    obtain ⟨front, hsplit, hfront, hstart⟩ := at_behind h hgap (by simpa using hc)
    obtain ⟨b, bs, hbs⟩ := List.exists_cons_of_ne_nil (String.utf8EncodeChar_ne_nil (c := c))
    have hgives := gives_lexeme hsplit hbs
    simp only [next?, hstart, drop_bytes hsplit, utf8_cons, hbs, Lexer.next_lexeme hgap hc, hfront]
    exact ⟨hgives.token, hgives.after⟩

end Scanner

end MonkeyLang
