import Mathlib.Data.List.SplitBy
import MonkeyLang.Proofs.Parsing.Dropped
import MonkeyLang.Proofs.Parsing.FirstError

namespace MonkeyLang

open Grammar

/-- The tokens cut behind each semicolon. -/
def stretches (ts : List Token) : List (List Token) := ts.splitBy fun t _ => t.kind != .semicolon

/-- A stretch has no semicolon but at its end, where others are behind it there is one, and the
others are the stretches of what is behind. -/
theorem stretches_cons {ts stretch : List Token} {cuts : List (List Token)}
    (h : stretches ts = stretch :: cuts) : ts = stretch ++ cuts.flatten ∧
      stretch.IsChain (fun t _ => t.kind ≠ .semicolon) ∧ (cuts ≠ [] → EndsClosed stretch) ∧
        stretches cuts.flatten = cuts := by
  obtain ⟨hjoin, hnil, huncut, hcut⟩ := List.splitBy_eq_iff.mp h
  refine ⟨hjoin, ?_, ?_, ?_⟩
  · exact (huncut stretch List.mem_cons_self).imp fun t u hk => by simpa using hk
  · intro hne t ht
    obtain ⟨next, others, rfl⟩ := List.exists_cons_of_ne_nil hne
    obtain ⟨ha, hb, hk⟩ := (List.isChain_cons_cons.mp hcut).1
    obtain rfl : stretch.getLast ha = t := by
      rw [List.getLast?_eq_some_getLast ha] at ht
      exact Option.some.inj ht
    simpa using hk
  · refine List.splitBy_eq_iff.mpr ⟨rfl, ?_, ?_, hcut.tail⟩
    · exact fun hmem => hnil (List.mem_cons_of_mem _ hmem)
    · exact fun s hs => huncut s (List.mem_cons_of_mem _ hs)

/-- What is read of a stretch: all of it as statements, or else the statements that are complete
before a token is refused, and the error at this token. -/
inductive StretchReads (stretch : List Token) : Program → Option SyntaxError → Prop
  | whole {statements : Program}
      (all :
        Derives False (stretch.filter fun t => t.kind ≠ .endOfInput) (.statements statements)) :
      StretchReads stretch statements none
  | broken {statements : Program} {complete before : Nat} {cause : SyntaxError.Cause} {t : Token}
      (refused : scan ⟨0, 0, []⟩ stretch = .refused complete before cause)
      (here : stretch[before]? = some t)
      (completed : Derives False (stretch.take complete) (.statements statements)) :
      StretchReads stretch statements (some ⟨cause, t.span⟩)

namespace StretchReads

variable {stretch : List Token} {statements : Program} {e : SyntaxError}

theorem all (h : StretchReads stretch statements none) :
    Derives False (stretch.filter fun t => t.kind ≠ .endOfInput) (.statements statements) := by
  cases h with
  | whole all => exact all

theorem refused (h : StretchReads stretch statements (some e)) : ∃ complete before t,
    scan ⟨0, 0, []⟩ stretch = .refused complete before e.cause ∧ stretch[before]? = some t ∧
      e = ⟨e.cause, t.span⟩ ∧ Derives False (stretch.take complete) (.statements statements) := by
  cases h with
  | broken refused here completed => exact ⟨_, _, _, refused, here, rfl, completed⟩

end StretchReads

theorem filter_mark {mark : Token} (hm : mark.kind = .endOfInput) :
    ([mark].filter fun t => t.kind ≠ .endOfInput) = [] := by
  simp [hm]

/-- Tokens without braces, and with a semicolon at most at their end. -/
structure Flat (ts : List Token) : Prop where
  braceless : ∀ t ∈ ts, t.kind ≠ .leftBrace ∧ t.kind ≠ .rightBrace
  inside : ∀ t ∈ ts, t.kind ≠ .endOfInput
  uncut : ts.IsChain fun t _ => t.kind ≠ .semicolon

namespace Flat

variable {ts rest : List Token}

theorem filter_inside (h : Flat ts) : (ts.filter fun t => t.kind ≠ .endOfInput) = ts :=
  List.filter_eq_self.mpr fun t ht => by simpa using h.inside t ht

theorem suffix (h : Flat ts) (hr : rest <:+ ts) : Flat rest where
  braceless t ht := h.braceless t (hr.mem ht)
  inside t ht := h.inside t (hr.mem ht)
  uncut := h.uncut.suffix hr

theorem opened_eq (h : Flat ts) : opened ts = 0 := by
  refine List.countP_eq_zero.mpr fun t ht hk => ?_
  exact (h.braceless t ht).1 (by simpa using hk)

theorem closed_eq (h : Flat ts) : closed ts = 0 := by
  refine List.countP_eq_zero.mpr fun t ht hk => ?_
  exact (h.braceless t ht).2 (by simpa using hk)

theorem balanced (h : Flat ts) : BracesBalanced ts where
  front front hf := by
    have hclosed : closed front ≤ closed ts := hf.sublist.countP_le
    rw [h.closed_eq] at hclosed
    omega
  total := h.opened_eq.trans h.closed_eq.symm

/-- A failed statement is given up at the last token. -/
theorem abandon (h : Flat ts) : (Parser.abandon ts).tail = [] := by
  induction ts with
  | nil => rfl
  | cons t ts ih =>
    cases ts with
    | nil => rfl
    | cons u rest =>
      have hbrace := h.braceless t List.mem_cons_self
      have hnext := h.braceless u (List.mem_cons_of_mem _ List.mem_cons_self)
      have hsemicolon : t.kind ≠ .semicolon := (List.isChain_cons_cons.mp h.uncut).1
      have hgoes : ¬Parser.GivesUp t u := by
        rintro (hk | hk | hk)
        · exact hsemicolon hk
        · exact hbrace.2 hk
        · exact hnext.2 hk
      rw [Parser.abandon_of_not_givesUp hgoes]
      exact ih (h.suffix (List.suffix_cons _ _))

theorem not_mayNest {p : Parser} (h : Flat p.tokens) (hm : p.endMark.kind = .endOfInput) :
    ¬p.MayNest := by
  rintro ⟨t, ht, hk⟩
  obtain ht | ht := List.mem_append.mp ht
  · exact (h.braceless t ht).1 hk
  · obtain rfl := List.mem_singleton.mp ht
    rw [hm] at hk
    cases hk

end Flat

namespace Parse

open MonkeyLang.Parser

variable {n : Nat} {p q : Parser} {prog : Program}

theorem stream_split {front rest : List Token} (h : p.stream = front ++ rest) (hne : rest ≠ []) :
    ∃ behind, p.tokens = front ++ behind ∧ rest = behind ++ [p.endMark] := by
  obtain ⟨behind, last, rfl⟩ := (List.eq_nil_or_concat' rest).resolve_left hne
  rw [stream, ← List.append_assoc] at h
  obtain ⟨htokens, hlast⟩ := List.append_inj' h rfl
  exact ⟨behind, htokens, by rw [hlast]⟩

/-- Where no brace opens, a statement that is read records no error, and one that fails records
one. -/
theorem statement_flat (n : Nat) (h : ¬p.MayNest) :
    Ends (statement n) p (fun _ q => q.errors = p.errors) fun s q =>
      s = .syntaxError → ∃ e, q.errors = p.errors ++ [e] := by
  have hnone : ∀ {calls own q}, Made False p q calls own → q.errors = p.errors ++ own := by
    intro calls own q hmade
    have hcalls : calls = [] := by
      by_contra hne
      exact (hmade.placed hne).elim id h
    rw [hmade.errors, hcalls, List.flatMap_nil, List.append_nil]
  refine (watches_statement n ⟨p, []⟩).mono (fun s q hq => ?_) fun s q hq hs => ?_
  · obtain ⟨calls, -, hmade, -⟩ := hq
    rw [hnone hmade, List.append_nil]
  · obtain ⟨calls, -, hstopped⟩ := hq
    obtain ⟨e, hmade⟩ := hstopped hs
    exact ⟨e, hnone hmade⟩

/-- Behind the last token there is nothing to read. -/
theorem program_behind (n : Nat) (ht : p.tokens = []) (hm : p.endMark.kind = .endOfInput) :
    Ends (program n) p (fun prog q => prog = [] ∧ q = p) fun _ _ => True := by
  cases n with
  | zero => trivial
  | succ n =>
    unfold Ends
    rw [program_of_no_tokens ht hm n]
    exact ⟨rfl, rfl⟩

/-- Of a stretch the statements before the first error are read, and there is no other. -/
theorem program_flat (n : Nat) (p : Parser) (h : Flat p.tokens)
    (hm : p.endMark.kind = .endOfInput) :
    Ends (program n) p (fun prog q => prog = completed n p ∧
      ∃ error : Option SyntaxError, q.errors = p.errors ++ error.toList) fun _ _ => True := by
  induction n generalizing p with
  | zero => trivial
  | succ n ih =>
    rw [program, Body.program]
    refine ends_bind.2 (ends_current.2 ?_)
    split
    · next hk => exact ⟨(completed_end hk).symm, none, (List.append_nil _).symm⟩
    · next hk =>
      have hstatement := ((statement_flat n (h.not_mayNest hm)).and (ends_self (statement n) p)).and
        (obeys_statement reaches_discipline n p)
      refine ends_bind.2 (ends_attempt.2 (hstatement.mono (fun first q hq => ?_) fun s q hq => ?_))
      · obtain ⟨⟨hclean, hr⟩, hreach⟩ := hq
        have hrest := h.suffix ((List.tail_suffix _).trans hreach.tokens)
        refine ends_bind.2 (ends_advance.2 (ends_bind.2 ?_))
        have hbehind := ih q.advance hrest (hreach.endMark ▸ hm)
        refine hbehind.mono (fun rest r hr' => ?_) fun _ _ _ => trivial
        obtain ⟨rfl, error, herror⟩ := hr'
        refine ⟨?_, error, ?_⟩
        · rw [completed_ok hk hr, if_pos hclean]
        · rw [herror, ← hclean]
          rfl
      · obtain ⟨⟨hfails, hr⟩, hreach⟩ := hq
        refine ⟨fun hs => ?_, fun _ => trivial⟩
        obtain ⟨e, he⟩ := hfails hs
        have hreach := (hreach hs).toReaches
        have hend := (h.suffix hreach.tokens).abandon
        have hnothing := program_behind (p := ⟨(Parser.abandon q.tokens).tail, q.endMark, q.errors⟩)
          n hend (hreach.endMark ▸ hm)
        refine ends_bind.2 (ends_bind.2 (hnothing.mono (fun prog r hr' => ?_) fun _ _ _ => trivial))
        obtain ⟨rfl, rfl⟩ := hr'
        exact ⟨(completed_error hk hr).symm, some e, he⟩

/-- Without errors a stretch derives what is read of it. -/
theorem derives_of_clean (h : Flat p.tokens) (hm : p.endMark.kind = .endOfInput)
    (hrun : (program n : Parse Program).run p = .ok prog q) (hclean : q.errors = p.errors) :
    Derives False p.tokens (.statements prog) := by
  obtain ⟨ts, hts, hd⟩ := (sound_program n p ⟨hm, h.inside, Nat.le_refl _⟩).of_ok hrun
  have hd : Derives False ts (.statements prog) := hd.mono fun hlt => by
    rw [hclean] at hlt
    exact Nat.lt_irrefl _ hlt
  have hsame : p.tokens = ts := by
    rw [← List.append_nil p.tokens, ← List.append_nil ts] at hts
    exact hts.eq_of_balanced h.balanced.total hd.balanced
  rwa [hsame]

/-- A program of the tokens up to the mark. -/
theorem stretch_read (h : Flat p.tokens) (hm : p.endMark.kind = .endOfInput)
    (hrun : (program n : Parse Program).run p = .ok prog q) : ∃ error : Option SyntaxError,
      q.errors = p.errors ++ error.toList ∧ StretchReads p.stream prog error := by
  obtain ⟨hprog, error, herror⟩ := (program_flat n p h hm).of_ok hrun
  refine ⟨error, herror, ?_⟩
  have hbegins := begins_start hm h.inside (rfl : p.errors = p.errors)
  obtain ⟨-, hclean⟩ | hbreaks := (program_course n p 0 hbegins).of_ok hrun
  · have hnone : error.toList = [] := by
      rw [hclean] at herror
      exact List.self_eq_append_right.mp herror
    obtain rfl : error = none := Option.toList_eq_nil_iff.mp hnone
    refine .whole ?_
    rw [stream, List.filter_append, h.filter_inside, filter_mark hm, List.append_nil]
    exact derives_of_clean h hm hrun hclean
  · obtain ⟨us, rest, hus, hd, before, cause, t, hscan, ht, hfirst⟩ := hbreaks
    have hsome : error = some ⟨cause, t.span⟩ := by
      rw [herror, List.prefix_append_right_inj] at hfirst
      cases error with
      | none => cases List.prefix_nil.mp hfirst
      | some e => rw [List.singleton_inj.mp (hfirst.eq_of_length rfl)]
    have htake : p.stream.take us.length = us := by
      rw [stream, hus, List.append_assoc, List.take_left]
    rw [hsome]
    refine .broken (by rwa [Nat.zero_add] at hscan) ht ?_
    rwa [htake, hprog]

theorem exists_mark_elsewhere (mark : Token) :
    ∃ other : Token, other.word = mark.word ∧ other.span ≠ mark.span := by
  refine ⟨⟨mark.kind, mark.literal, ⟨mark.span.start + 1, 0⟩⟩, rfl, fun hspan => ?_⟩
  exact Nat.succ_ne_self _ (congrArg Span.start hspan)

/-- Behind a semicolon it does not matter where the mark of the end is. -/
theorem run_marked (h : Flat p.tokens) (hc : EndsClosed p.tokens)
    (hm : p.endMark.kind = .endOfInput) {mark : Token} (hmark : mark.kind = .endOfInput)
    (hrun : (program n : Parse Program).run p = .ok prog q) : ∃ m prog' q',
      (program m : Parse Program).run { p with endMark := mark } = .ok prog' q' ∧
        q'.errors = q.errors := by
  obtain ⟨prog', q', hrun'⟩ := program_run (p := { p with endMark := mark }) hmark
  refine ⟨_, prog', q', hrun', ?_⟩
  have hsplit := program_split [] mark hm hc h.inside h.balanced n
    (Parser.limit { p with endMark := mark })
  rw [List.append_nil] at hsplit
  obtain ⟨l, rest, hrest, -⟩ := hsplit.of_ok hrun hrun'
  have hbehind := program_behind (p := ⟨[], mark, q.errors⟩) l rfl hmark
  obtain ⟨-, rfl⟩ := hbehind.of_ok hrest
  rfl

/-- The token refused stands before the mark: a mark at another place would be refused alike, and
the error would be at this place. -/
theorem before_mark (h : Flat p.tokens) (hc : EndsClosed p.tokens)
    (hm : p.endMark.kind = .endOfInput) (hrun : (program n : Parse Program).run p = .ok prog q)
    {complete before : Nat} {cause : SyntaxError.Cause} {t : Token}
    (hscan : scan ⟨0, 0, []⟩ p.stream = .refused complete before cause)
    (ht : p.stream[before]? = some t) (herror : q.errors = p.errors ++ [⟨cause, t.span⟩]) :
    before < p.tokens.length := by
  have hstream := (List.getElem?_eq_some_iff.mp ht).1
  by_contra hge
  obtain rfl : before = p.tokens.length := by
    rw [stream, List.length_append, List.length_singleton] at hstream
    omega
  obtain rfl : p.endMark = t := by simpa [stream] using ht
  obtain ⟨mark, hword, hspan⟩ := exists_mark_elsewhere p.endMark
  have hmark : mark.kind = .endOfInput := (congrArg Prod.fst hword).trans hm
  obtain ⟨m, prog', q', hrun', hsame⟩ := run_marked h hc hm hmark hrun
  obtain ⟨error, herror', hread⟩ := stretch_read (p := ⟨p.tokens, mark, p.errors⟩) h hmark hrun'
  have hsome : error = some ⟨cause, p.endMark.span⟩ := by
    rw [hsame, herror] at herror'
    exact Option.toList_eq_singleton_iff.mp (List.append_cancel_left herror').symm
  rw [hsome] at hread
  obtain ⟨complete', before', t', hrefused, ht', he, -⟩ := hread.refused
  have hscan' : scan ⟨0, 0, []⟩ (p.tokens ++ [mark]) = .refused complete p.tokens.length cause := by
    have hwords : p.stream.map Token.word = (p.tokens ++ [mark]).map Token.word := by
      simp [stream, hword]
    have hcongr := scan_congr [] [] hwords (by rwa [List.append_nil]) (by simpa using hstream)
    rwa [List.append_nil] at hcongr
  obtain ⟨-, rfl, -⟩ := Verdict.refused.inj (hscan'.symm.trans hrefused)
  obtain rfl : mark = t' := by simpa [stream] using ht'
  exact hspan (congrArg SyntaxError.span he).symm

/-- A program of a stretch up to its semicolon: no error is at the mark behind it. -/
theorem stretch_read_closed (h : Flat p.tokens) (hc : EndsClosed p.tokens)
    (hm : p.endMark.kind = .endOfInput) (hrun : (program n : Parse Program).run p = .ok prog q) :
    ∃ error : Option SyntaxError,
      q.errors = p.errors ++ error.toList ∧ StretchReads p.tokens prog error := by
  obtain ⟨error, herror, hread⟩ := stretch_read h hm hrun
  refine ⟨error, herror, ?_⟩
  cases error with
  | none =>
    refine .whole ?_
    have hall := hread.all
    rwa [stream, List.filter_append, filter_mark hm, List.append_nil] at hall
  | some e =>
    obtain ⟨complete, before, t, hscan, ht, he, hd⟩ := hread.refused
    have hlt : before < p.tokens.length := by
      refine before_mark h hc hm hrun hscan ht ?_
      rw [herror, ← he]
      rfl
    have hle : complete ≤ p.tokens.length := (le_of_refused hscan).2.trans (Nat.le_of_lt hlt)
    have hfront : scan ⟨0, 0, []⟩ (p.tokens ++ []) = .refused complete before e.cause :=
      scan_congr [p.endMark] [] rfl hscan (by simpa using hlt)
    rw [List.append_nil] at hfront
    rw [stream, List.getElem?_append_left hlt] at ht
    rw [stream, List.take_append_of_le_length hle] at hd
    have hbroken := StretchReads.broken hfront ht hd
    rwa [← he] at hbroken

/-- The stretches are read one by one. -/
theorem program_stretches {cuts : List (List Token)} (h : stretches p.stream = cuts)
    (hb : ∀ t ∈ p.tokens, t.kind ≠ .leftBrace ∧ t.kind ≠ .rightBrace)
    (hi : ∀ t ∈ p.tokens, t.kind ≠ .endOfInput) (hm : p.endMark.kind = .endOfInput)
    (hrun : (program n : Parse Program).run p = .ok prog q) :
    ∃ portions : List (Program × Option SyntaxError),
      List.Forall₂ (fun stretch portion => StretchReads stretch portion.1 portion.2) cuts portions ∧
        prog = portions.flatMap Prod.fst ∧
        q.errors = p.errors ++ portions.filterMap Prod.snd := by
  induction cuts generalizing p n prog with
  | nil =>
    have hnil : p.stream = [] := List.splitBy_eq_nil.mp h
    simp [stream] at hnil
  | cons stretch cuts ih =>
    obtain ⟨hjoin, huncut, hclosed, hbehind⟩ := stretches_cons h
    cases cuts with
    | nil =>
      -- The last stretch ends with the mark.
      rw [List.flatten_nil, List.append_nil] at hjoin
      rw [← hjoin] at huncut
      have hflat : Flat p.tokens := ⟨hb, hi, huncut.left_of_append⟩
      obtain ⟨error, herror, hread⟩ := stretch_read hflat hm hrun
      refine ⟨[(prog, error)], ?_, ?_, ?_⟩
      · rw [← hjoin]
        exact .cons hread .nil
      · simp
      · rw [herror]
        cases error <;> rfl
    | cons next others =>
      have hne : (next :: others).flatten ≠ [] :=
        List.splitBy_ne_nil.mp (hbehind ▸ List.cons_ne_nil next others)
      obtain ⟨behind, htokens, hrest⟩ := stream_split hjoin hne
      rw [htokens] at hb hi
      have hflat : Flat stretch :=
        ⟨fun t ht => hb t (List.mem_append_left _ ht),
          fun t ht => hi t (List.mem_append_left _ ht), huncut⟩
      have hends := hclosed (List.cons_ne_nil _ _)
      -- The stretch alone, and behind it what the program goes on with.
      obtain ⟨first, r, hfirst⟩ := program_run (p := ⟨stretch, p.endMark, p.errors⟩) hm
      have hsplit := program_split behind p.endMark (p := ⟨stretch, p.endMark, p.errors⟩) hm hends
        hflat.inside hflat.balanced (Parser.limit ⟨stretch, p.endMark, p.errors⟩) n
      have hp : p = ⟨stretch ++ behind, p.endMark, p.errors⟩ := by rw [← htokens]
      rw [hp] at hrun
      obtain ⟨l, rest, hgoes, rfl⟩ := hsplit.of_ok hfirst hrun
      obtain ⟨error, herror, hread⟩ :=
        stretch_read_closed (p := ⟨stretch, p.endMark, p.errors⟩) hflat hends hm hfirst
      have hcuts : stretches (Parser.stream ⟨behind, p.endMark, r.errors⟩) = next :: others := by
        rw [stream, ← hrest]
        exact hbehind
      obtain ⟨portions, hreads, hprogram, herrors⟩ := ih hcuts
        (fun t ht => hb t (List.mem_append_right _ ht))
        (fun t ht => hi t (List.mem_append_right _ ht)) hm hgoes
      refine ⟨(first, error) :: portions, .cons hread hreads, ?_, ?_⟩
      · rw [hprogram, List.flatMap_cons]
      · have hr : r.errors = p.errors ++ error.toList := herror
        have hq : q.errors = r.errors ++ portions.filterMap Prod.snd := herrors
        rw [hq, hr]
        cases error <;> simp

end Parse

open Parse Lexer

/-- Where a text has no braces, a malformed statement yields one error. The text is read stretch by
stretch, each up to its semicolon and the last up to the end: all of a stretch, or what is complete
before the first token refused, with one error at this token. -/
theorem one_error_per_stretch {source : String}
    (h : ∀ t ∈ Lexer.stream source, t.kind ≠ .leftBrace ∧ t.kind ≠ .rightBrace) :
    ∃ portions : List (Program × Option SyntaxError),
      List.Forall₂ (fun stretch portion => StretchReads stretch portion.1 portion.2)
        (stretches (Lexer.stream source)) portions ∧
      (Reading.ofSource source).program = portions.flatMap Prod.fst ∧
      (Reading.ofSource source).errors = portions.filterMap Prod.snd ∧
      (Reading.ofSource source).errors.length ≤ (stretches (Lexer.stream source)).length := by
  obtain ⟨q, hrun, herrors⟩ := reading_run_limit source
  have hbraceless : ∀ t ∈ (ofString source).tokens, t.kind ≠ .leftBrace ∧ t.kind ≠ .rightBrace :=
    fun t ht => h t (List.mem_append_left _ ht)
  have hinside : ∀ t ∈ (ofString source).tokens, t.kind ≠ .endOfInput :=
    fun t ht => (tokens_proper _ t ht).inside
  have hcuts : stretches (Parser.ofLexer (ofString source)).stream =
      stretches (Lexer.stream source) := rfl
  obtain ⟨portions, hreads, hprogram, hall⟩ :=
    program_stretches hcuts hbraceless hinside rfl hrun
  have herrors : (Reading.ofSource source).errors = portions.filterMap Prod.snd := by
    rw [← herrors, hall]
    rfl
  refine ⟨portions, hreads, hprogram, herrors, ?_⟩
  rw [herrors, hreads.length_eq]
  exact List.length_filterMap_le _ _

/-- Two statements without a semicolon between them, a `let` without its `=`, a semicolon where an
argument should end, and a text that breaks off. -/
theorem one_error_per_stretch_broken_off :
    (∀ t ∈ Lexer.stream "a b; let x 5; c f(1; let y",
      t.kind ≠ .leftBrace ∧ t.kind ≠ .rightBrace) ∧
    (∃ portions : List (Program × Option SyntaxError),
      List.Forall₂ (fun stretch portion => StretchReads stretch portion.1 portion.2)
        (stretches (Lexer.stream "a b; let x 5; c f(1; let y")) portions ∧
      portions.flatMap Prod.fst = (Reading.ofSource "a b; let x 5; c f(1; let y").program ∧
      portions.filterMap Prod.snd = [⟨.unexpected .assign .integer, ⟨11, 1⟩⟩,
        ⟨.unexpected .rightParen .semicolon, ⟨19, 1⟩⟩,
        ⟨.unexpected .assign .endOfInput, ⟨26, 0⟩⟩]) ∧
    (Reading.ofSource "a b; let x 5; c f(1; let y").program.length = 3 ∧
    (stretches (Lexer.stream "a b; let x 5; c f(1; let y")).length = 4 := by
  have hbraceless : ∀ t ∈ Lexer.stream "a b; let x 5; c f(1; let y",
      t.kind ≠ .leftBrace ∧ t.kind ≠ .rightBrace := by decide +kernel
  obtain ⟨portions, hreads, hprogram, herrors, -⟩ := one_error_per_stretch hbraceless
  refine ⟨hbraceless, ⟨portions, hreads, hprogram.symm, ?_⟩, ?_, ?_⟩
  · rw [← herrors]
    decide +kernel
  · decide +kernel
  · decide +kernel

end MonkeyLang
