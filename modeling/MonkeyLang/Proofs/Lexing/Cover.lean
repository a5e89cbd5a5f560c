import MonkeyLang.Proofs.Lexing.Scanner

namespace MonkeyLang

variable {source : String}

/-- Where the literal of a token stands: it is the text of the span, for a string without its
quotes, the second of which is missing if the text ends before it. A byte outside ASCII that is in
no string has no text of its own. -/
inductive Token.Stands (source : String) (t : Token) : Prop where
  | text (hk : t.kind ≠ .string) (ha : ∀ c ∈ t.literal.toList, c.toNat < 128)
    (h : slice? source t.span.start t.span.stop = some t.literal)
  | closed (hk : t.kind = .string)
    (h : slice? source t.span.start t.span.stop = some ("\"" ++ t.literal ++ "\""))
  | unclosed (hk : t.kind = .string)
    (h : slice? source t.span.start t.span.stop = some ("\"" ++ t.literal))
    (he : t.span.stop = source.utf8ByteSize)
  | broken (hk : t.kind = .illegal) (hl : t.literal = "\ufffd") (hs : t.span.length = 1)
    (hb : ∃ b, (bytesOf source)[t.span.start]? = some b ∧ 128 ≤ b.toNat)

/-- From the place on there are only blanks before, between and behind the tokens. -/
inductive Tiles (source : String) : Nat → List Token → Prop where
  | done {offset : Nat}
    (hb : ∀ i b, offset ≤ i → (bytesOf source)[i]? = some b → isBlank (Char.ofUInt8 b)) :
    Tiles source offset []
  | token {offset : Nat} {t : Token} {ts : List Token} (hle : offset ≤ t.span.start)
    (hb : ∀ i b, offset ≤ i → i < t.span.start → (bytesOf source)[i]? = some b →
      isBlank (Char.ofUInt8 b))
    (hpos : 0 < t.span.length) (hs : t.Stands source) (rest : Tiles source t.span.stop ts) :
    Tiles source offset (t :: ts)

namespace Tiles

variable {offset : Nat} {ts : List Token}

theorem le_start (h : Tiles source offset ts) : ∀ t ∈ ts, offset ≤ t.span.start := by
  induction h with
  | done => simp
  | token hle hb hpos hs rest ih =>
    refine List.forall_mem_cons.mpr ⟨hle, fun u hu => ?_⟩
    exact Nat.le_trans (Nat.le_trans hle (Nat.le_add_right _ _)) (ih u hu)

theorem ordered (h : Tiles source offset ts) :
    ts.Pairwise fun t u => t.span.stop ≤ u.span.start := by
  induction h with
  | done => exact .nil
  | token hle hb hpos hs rest ih => exact .cons rest.le_start ih

theorem nonempty (h : Tiles source offset ts) : ∀ t ∈ ts, 0 < t.span.length := by
  induction h with
  | done => simp
  | token hle hb hpos hs rest ih => exact List.forall_mem_cons.mpr ⟨hpos, ih⟩

theorem stands (h : Tiles source offset ts) : ∀ t ∈ ts, t.Stands source := by
  induction h with
  | done => simp
  | token hle hb hpos hs rest ih => exact List.forall_mem_cons.mpr ⟨hs, ih⟩

theorem blank (h : Tiles source offset ts) {i : Nat} {b : UInt8} (hi : offset ≤ i)
    (hbyte : (bytesOf source)[i]? = some b)
    (hout : ∀ t ∈ ts, ¬(t.span.start ≤ i ∧ i < t.span.stop)) : isBlank (Char.ofUInt8 b) := by
  induction h with
  | done hb => exact hb i b hi hbyte
  | @token offset t ts hle hb hpos hs rest ih =>
    obtain ⟨ht, hts⟩ := List.forall_mem_cons.mp hout
    by_cases hstart : i < t.span.start
    · exact hb i b hi hstart hbyte
    · exact ih (by omega) hts

/-- No byte is in two of them. -/
theorem unique (h : Tiles source offset ts) {t u : Token} (ht : t ∈ ts) (hu : u ∈ ts) {i : Nat}
    (hti : t.span.start ≤ i ∧ i < t.span.stop) (hui : u.span.start ≤ i ∧ i < u.span.stop) :
    t = u := by
  induction h with
  | done => cases ht
  | token hle hb hpos hs rest ih =>
    rcases List.mem_cons.mp ht with rfl | ht' <;> rcases List.mem_cons.mp hu with rfl | hu'
    · rfl
    · have hstart := rest.le_start u hu'
      omega
    · have hstart := rest.le_start t ht'
      omega
    · exact ih ht' hu'

theorem spans_nodup (h : Tiles source offset ts) : (ts.map Token.span).Nodup := by
  induction h with
  | done => exact .nil
  | @token offset t ts hle hb hpos hs rest ih =>
    refine List.nodup_cons.mpr ⟨fun hm => ?_, ih⟩
    obtain ⟨u, hu, hspan⟩ := List.mem_map.mp hm
    have hstart := rest.le_start u hu
    rw [hspan, Span.stop] at hstart
    omega

/-- A mark of no length is none of them. -/
theorem mark_nodup (h : Tiles source offset ts) {mark : Span} (hm : mark.length = 0) :
    (mark :: ts.map Token.span).Nodup := by
  refine List.nodup_cons.mpr ⟨fun hmem => ?_, h.spans_nodup⟩
  obtain ⟨t, ht, hspan⟩ := List.mem_map.mp hmem
  have hpos := h.nonempty t ht
  rw [hspan, hm] at hpos
  exact Nat.lt_irrefl 0 hpos

end Tiles

theorem stop_le_of_slice {text : String} {start stop : Nat}
    (h : slice? source start stop = some text) : stop ≤ source.utf8ByteSize := by
  unfold slice? at h
  split at h
  · next hv => exact String.Pos.Raw.le_iff.mp hv.2.1.le_rawEndPos
  · cases h

/-- A token ends within the text. -/
theorem Token.Stands.stop_le {t : Token} (h : t.Stands source) :
    t.span.stop ≤ source.utf8ByteSize := by
  cases h with
  | text hk ha h => exact stop_le_of_slice h
  | closed hk h => exact stop_le_of_slice h
  | unclosed hk h he => exact Nat.le_of_eq he
  | broken hk hl hs hb =>
    obtain ⟨b, hb, -⟩ := hb
    obtain ⟨hlt, -⟩ := List.getElem?_eq_some_iff.mp hb
    rw [length_bytesOf] at hlt
    rw [Span.stop, hs]
    exact hlt

theorem slice_front {front text behind : List Char} (h : source.toList = front ++ (text ++ behind))
    {length : Nat} (hl : length = byteLength text) :
    slice? source (byteLength front) (byteLength front + length) = some (String.ofList text) := by
  rw [hl]
  exact slice_eq (by rw [h, List.append_assoc])

/-- A lexeme at the front of what is left becomes a token that stands there. -/
theorem Lexeme.Takes.stands {front text : List Char} {lexeme : Lexeme} (ht : lexeme.Takes text)
    (h : source.toList = front ++ text) :
    (⟨lexeme.kind, String.ofList lexeme.literal, ⟨byteLength front, lexeme.length⟩⟩ :
      Token).Stands source := by
  cases ht with
  | word hl hne =>
    refine .text (Token.Kind.ofWord_ne _).2 ?_ (slice_front h rfl)
    rw [String.toList_ofList]
    exact fun c hc => isLetter_uniform.ascii rfl (hl c hc)
  | number hd hne =>
    refine .text nofun ?_ (slice_front h rfl)
    rw [String.toList_ofList]
    exact fun c hc => isDigit_uniform.ascii rfl (hd c hc)
  | symbol hs =>
    have hall : ∀ pair ∈ Token.Kind.symbols, pair.2 ≠ .string := by decide
    refine .text (hall _ hs) ?_ (slice_front h rfl)
    rw [String.toList_ofList]
    exact Token.Kind.symbols_ascii _ hs
  | mark hc hl hd hq hs =>
    refine .text nofun ?_ (slice_front h hc.symm)
    rw [String.toList_ofList]
    simpa using toNat_lt_of_size hc
  | @closed content rest hq =>
    have hsplit : source.toList = front ++ (('"' :: (content ++ ['"'])) ++ rest) := by
      rw [h]
      simp
    have htext : String.ofList ('"' :: (content ++ ['"'])) =
        "\"" ++ String.ofList content ++ "\"" := by
      rw [String.append_assoc]
      simp [String.ofList_cons, String.ofList_append]
    refine .closed rfl ?_
    rw [← htext]
    exact slice_front hsplit (byteLength_quoted content).symm
  | @unclosed content hq =>
    have hsplit : source.toList = front ++ (('"' :: content) ++ []) := by rw [h, List.append_nil]
    have hlength : byteLength content + 1 = byteLength ('"' :: content) := Nat.add_comm _ _
    have htext : String.ofList ('"' :: content) = "\"" ++ String.ofList content := by
      simp [String.ofList_cons]
    refine .unclosed rfl ?_ ?_
    · rw [← htext]
      exact slice_front hsplit hlength
    · rw [utf8ByteSize_eq, h, byteLength_append, ← hlength]
      rfl
  | @broken c rest hc =>
    have hhigh : 128 ≤ c.toNat := Nat.le_of_not_lt fun hlt => hc (size_of_toNat_lt hlt)
    exact .broken rfl rfl rfl (Scanner.byte_high h hhigh)

/-- The bytes that a class is passed over at are of the class. -/
theorem Scanner.past_class {p : Char → Bool} {offset i : Nat} {b : UInt8} (hle : offset ≤ i)
    (hlt : i < past source p offset) (hb : (bytesOf source)[i]? = some b) :
    p (Char.ofUInt8 b) := by
  obtain ⟨k, rfl⟩ := Nat.exists_eq_add_of_le hle
  have hk : k < (((bytesOf source).drop offset).takeWhile fun b => p (Char.ofUInt8 b)).length :=
    Nat.lt_of_add_lt_add_left hlt
  have htaken := List.prefix_iff_getElem?.mp
    (List.takeWhile_prefix (l := (bytesOf source).drop offset) fun b => p (Char.ofUInt8 b)) k hk
  rw [List.getElem?_drop, hb, Option.some.injEq] at htaken
  have hclass := List.all_eq_true.mp List.all_takeWhile _ (List.getElem_mem hk)
  rwa [← htaken] at hclass

namespace Lexer

/-- A token stands behind blanks, and the lexer goes on behind it. -/
theorem next_stands {lexer : Lexer} (h : lexer.At source) (hk : lexer.next.1.kind ≠ .endOfInput) :
    lexer.next.1.Stands source ∧
      lexer.next.1.span.start = Scanner.past source isBlank lexer.offset ∧
      0 < lexer.next.1.span.length ∧ lexer.next.2.offset = lexer.next.1.span.stop := by
  obtain ⟨rest, n, offset, rfl⟩ | ⟨gap, c, cs, offset, rfl, hgap, hc⟩ := of_token hk
  · obtain ⟨b, bs, hb, hdrop, -⟩ := Scanner.at_pending h
    exact ⟨.broken rfl rfl rfl ⟨b, Scanner.byte_of_drop hdrop, hb⟩,
      (Scanner.past_high hb hdrop).symm, Nat.one_pos, rfl⟩
  · obtain ⟨front, hsplit, hfront, hstart⟩ := Scanner.at_behind h hgap (by simpa using hc)
    have hlexeme := Lexeme.ofText_takes c cs
    simp only [next_lexeme hgap hc, hstart, hfront]
    exact ⟨hlexeme.stands hsplit, trivial, hlexeme.covers.positive, rfl⟩

/-- Where there are no more tokens there are only blanks. -/
theorem blank_of_end {lexer : Lexer} (h : lexer.At source) (hk : lexer.next.1.kind = .endOfInput)
    {i : Nat} {b : UInt8} (hi : lexer.offset ≤ i) (hb : (bytesOf source)[i]? = some b) :
    isBlank (Char.ofUInt8 b) := by
  obtain ⟨gap, offset, rfl, hgap⟩ := of_end hk
  obtain ⟨-, tail, htail, -, hdrop⟩ := h
  obtain rfl := List.eq_nil_of_length_eq_zero htail
  obtain ⟨k, rfl⟩ := Nat.exists_eq_add_of_le hi
  rw [← List.getElem?_drop, hdrop, List.nil_append] at hb
  obtain ⟨c, hc, hbyte⟩ := List.mem_flatMap.mp (List.mem_of_getElem? hb)
  rw [isBlank_uniform.byte c b hbyte]
  exact hgap c hc

theorem tokens_tile (lexer : Lexer) : lexer.At source →
    Tiles source lexer.offset lexer.tokens := by
  induction lexer using by_tokens with
  | ending lexer hk =>
    intro h
    rw [tokens_nil hk]
    exact .done fun i b hi hb => blank_of_end h hk hi hb
  | token lexer hk ih =>
    intro h
    obtain ⟨hstands, hstart, hpos, hstop⟩ := next_stands h hk
    have hrest := ih (Scanner.next_eq h).2
    rw [tokens_cons hk]
    rw [hstop] at hrest
    refine .token ?_ ?_ hpos hstands hrest
    · rw [hstart]
      exact Nat.le_add_right _ _
    · intro i b hi hlt hb
      rw [hstart] at hlt
      exact Scanner.past_class hi hlt hb

/-- At the end the mark is read, again and again. -/
theorem skip_of_end (n : Nat) : ∀ {lexer : Lexer}, lexer.next.1.kind = .endOfInput →
    (lexer.skip n).next.1 = lexer.endMark := by
  have hmark : ∀ {lexer : Lexer}, lexer.next.1.kind = .endOfInput →
      lexer.next.1 = lexer.endMark ∧ lexer.next.2.next.1.kind = .endOfInput ∧
        lexer.next.2.endMark = lexer.endMark := by
    intro lexer hk
    obtain ⟨gap, offset, rfl, hgap⟩ := of_end hk
    have hend : (⟨gap, 0, offset⟩ : Lexer).endMark = Token.endAt (offset + byteLength gap) := by
      simp [endMark, remaining]
    rw [next_ending hgap, hend]
    exact ⟨rfl, rfl, rfl⟩
  induction n with
  | zero => exact fun hk => (hmark hk).1
  | succ n ih =>
    intro lexer hk
    obtain ⟨-, hk', hend⟩ := hmark hk
    rw [skip, ih hk', hend]

/-- The tokens are what is read, one after the other, and behind them the mark of the end. -/
theorem skip_next (lexer : Lexer) : ∀ n,
    (lexer.skip n).next.1 = lexer.tokens.getD n lexer.endMark := by
  induction lexer using by_tokens with
  | ending lexer hk =>
    intro n
    rw [tokens_nil hk, skip_of_end n hk]
    rfl
  | token lexer hk ih =>
    intro n
    rw [tokens_cons hk]
    cases n with
    | zero => rfl
    | succ n =>
      have hend : lexer.next.2.endMark = lexer.endMark := congrArg Token.endAt (next_total hk)
      rw [skip, ih, hend]
      rfl

theorem length_take (n : Nat) : ∀ lexer : Lexer, (take n lexer).length ≤ n := by
  induction n with
  | zero => exact fun _ => Nat.le_refl _
  | succ n ih =>
    intro lexer
    rw [take]
    split
    split
    · exact Nat.zero_le _
    · exact Nat.succ_le_succ (ih _)

end Lexer

/-- What so many readings of the scanner give is what they give of the lexer. -/
theorem Scanner.read_eq (n : Nat) : ∀ {lexer : Lexer}, lexer.At source →
    read? source n lexer.offset =
      some ((List.range n).map fun k => (lexer.skip k).next.1) := by
  induction n with
  | zero => exact fun _ => rfl
  | succ n ih =>
    intro lexer h
    obtain ⟨hnext, hafter⟩ := next_eq h
    rw [read?, hnext, List.range_succ_eq_map, List.map_cons, List.map_map]
    simp only [Option.bind_eq_bind, Option.bind_some, ih hafter]
    rfl

/-- The tokens of a source are read in no more steps than it has bytes, and then the mark of its
end again and again. They stand in order, with nothing but blanks between them, and their literals
are the text of their spans. Read byte by byte they are the same, so that no literal is cut out of
the middle of a character. -/
theorem tokens_cover_source (source : String) :
    (Lexer.ofString source).tokens.length ≤ source.utf8ByteSize ∧
    (∀ t ∈ (Lexer.ofString source).tokens, t.kind ≠ .endOfInput ∧ 0 < t.span.length) ∧
    (∀ n, ((Lexer.ofString source).skip n).next.1 =
      (Lexer.ofString source).tokens.getD n (Token.endAt source.utf8ByteSize)) ∧
    ((Lexer.ofString source).tokens.Pairwise fun t u => t.span.stop ≤ u.span.start) ∧
    (∀ i b, (bytesOf source)[i]? = some b →
      (∀ t ∈ (Lexer.ofString source).tokens, ¬(t.span.start ≤ i ∧ i < t.span.stop)) →
        b = ' '.toUInt8 ∨ b = '\t'.toUInt8 ∨ b = '\n'.toUInt8 ∨ b = '\r'.toUInt8) ∧
    (∀ t ∈ (Lexer.ofString source).tokens,
      t.Stands source ∧ (t.kind = .string → '"' ∉ t.literal.toList)) ∧
    ∀ n, Scanner.read? source n 0 =
      some ((List.range n).map fun k => ((Lexer.ofString source).skip k).next.1) := by
  have hat := Scanner.ofString_at source
  have htiles := Lexer.tokens_tile _ hat
  have hsize : (Lexer.ofString source).remaining = source.utf8ByteSize := by
    rw [utf8ByteSize_eq]
    exact Nat.zero_add _
  have hend : (Lexer.ofString source).endMark = Token.endAt source.utf8ByteSize := by
    rw [← hsize]
    exact congrArg Token.endAt (Nat.zero_add _)
  have hproper := Lexer.tokens_proper (Lexer.ofString source)
  refine ⟨?_, fun t ht => ⟨(hproper t ht).inside, htiles.nonempty t ht⟩, ?_, htiles.ordered,
    fun i b hb hout => isBlank_ofUInt8.mp (htiles.blank (Nat.zero_le i) hb hout),
    fun t ht => ⟨htiles.stands t ht, (hproper t ht).string⟩, fun n => Scanner.read_eq n hat⟩
  · rw [← hsize]
    exact Lexer.length_take _ _
  · rw [← hend]
    exact Lexer.skip_next _

end MonkeyLang
