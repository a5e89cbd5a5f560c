import MonkeyLang.Proofs.Parsing.Append
import MonkeyLang.Proofs.Parsing.Course

namespace MonkeyLang

open Grammar

namespace Parser

/-- The parser stands within a block, behind which stands `rest`. So many blocks nested in it are
open, and more braces than these are closed before `rest`. -/
structure Within (rest : List Token) (k : Nat) (p : Parser) : Prop where
  proper : ∀ t ∈ p.tokens, t.kind ≠ .endOfInput
  blocks : ∃ inside, p.tokens = inside ++ rest ∧ opened inside + k < closed inside

namespace Within

variable {rest : List Token} {k j : Nat} {p q : Parser}

/-- The token that the parser stands on is within the block. -/
theorem cons (h : p.Within rest k) : ∃ inside, p.tokens = p.current :: (inside ++ rest) ∧
    opened [p.current] + opened inside + k < closed [p.current] + closed inside := by
  obtain ⟨inside, ht, hb⟩ := h.blocks
  cases inside with
  | nil => exact absurd hb (Nat.not_lt_zero _)
  | cons t inside =>
    have hcurrent : p.current = t := by simp [Parser.current, ht]
    rw [← List.singleton_append, opened_append, closed_append] at hb
    exact ⟨inside, by rw [hcurrent, ht]; rfl, by rwa [hcurrent]⟩

theorem current_proper (h : p.Within rest k) : p.current.kind ≠ .endOfInput := by
  obtain ⟨inside, ht, -⟩ := h.cons
  exact h.proper p.current (by rw [ht]; exact List.mem_cons_self)

/-- Behind the token so many blocks are open. -/
theorem advance (h : p.Within rest k)
    (hj : closed [p.current] + j ≤ opened [p.current] + k) : p.advance.Within rest j := by
  obtain ⟨inside, ht, hb⟩ := h.cons
  refine ⟨fun t hm => h.proper t (List.mem_of_mem_tail hm), inside, ?_, by omega⟩
  simp [Parser.advance, ht]

/-- No closing brace is skipped, so what is given up is within the block. -/
theorem recover (h : p.Within rest k) :
    ({ p with tokens := abandon p.tokens } : Parser).Within rest k := by
  obtain ⟨inside, ht, hb⟩ := h.blocks
  have hsuffix := abandon_suffix p.tokens
  have hclosed := closed_abandon p.tokens
  have hopened := opened_abandon_le p.tokens
  refine ⟨fun t hm => h.proper t (hsuffix.mem hm), ?_⟩
  have hrest : rest <:+ p.tokens := ⟨inside, ht.symm⟩
  obtain hshort | ⟨left, hleft⟩ := List.suffix_or_suffix_of_suffix hsuffix hrest
  · -- Giving up behind the block would skip the brace that closes it.
    have hle : closed (abandon p.tokens) ≤ closed rest := hshort.sublist.countP_le
    rw [hclosed, ht, closed_append] at hle
    omega
  · refine ⟨left, hleft.symm, ?_⟩
    rw [← hleft, ht, closed_append, closed_append] at hclosed
    rw [← hleft, ht, opened_append, opened_append] at hopened
    omega

/-- Within a block either its last token is left, or it stands behind others. -/
theorem left {inside : List Token} {closing : Token} (h : p.Within rest k)
    (hs : p.tokens <:+ inside ++ closing :: rest) : p.tokens = closing :: rest ∨
      ∃ front left, inside = front ++ p.current :: left ∧
        p.tokens = p.current :: (left ++ closing :: rest) := by
  obtain ⟨left, ht, -⟩ := h.cons
  obtain ⟨front, hfront⟩ := hs
  have htokens : (front ++ p.current :: left) ++ rest = (inside ++ [closing]) ++ rest := by
    rw [ht] at hfront
    simpa using hfront
  have hinside := List.append_cancel_right htokens
  obtain rfl | ⟨left, last, rfl⟩ := List.eq_nil_or_concat left
  · obtain ⟨rfl, hlast⟩ := List.append_inj' hinside rfl
    exact .inl (by simp_all)
  · have hsplit : (front ++ p.current :: left) ++ [last] = inside ++ [closing] := by
      simpa using hinside
    obtain ⟨rfl, hlast⟩ := List.append_inj' hsplit rfl
    exact .inr ⟨front, left, rfl, by simp_all⟩

end Within

theorem within_lockstep (rest : List Token) :
    Parse.Lockstep id fun k p q => q = p ∧ p.Within rest k where
  current h := by rw [h.1]; rfl
  pass {k p q} h hk := by
    obtain ⟨rfl, h⟩ := h
    exact ⟨rfl, h.advance (by simp [closed, hk.2])⟩
  enter {k p q} h hk := by
    obtain ⟨rfl, h⟩ := h
    exact ⟨rfl, h.advance (by simp [opened, closed, hk, Nat.add_comm])⟩
  leave {k p q} h hk := by
    obtain ⟨rfl, h⟩ := h
    have hle : closed [q.current] ≤ 1 := List.countP_le_length
    exact ⟨rfl, h.advance (by omega)⟩
  weaken {k p q} h := by
    obtain ⟨rfl, h⟩ := h
    obtain ⟨inside, ht, hb⟩ := h.blocks
    exact ⟨rfl, h.proper, inside, ht, by omega⟩
  semicolon {k p q} h hk := by
    obtain ⟨rfl, h⟩ := h
    exact ⟨rfl, h.advance (by simp [closed, hk])⟩
  record h cause t := by
    obtain ⟨rfl, h⟩ := h
    exact ⟨rfl, h.proper, h.blocks⟩
  recover h := by
    obtain ⟨rfl, h⟩ := h
    exact ⟨rfl, h.recover⟩

end Parser

namespace Parse

open MonkeyLang.Parser

theorem Together.ends {α : Type} {x : Parse α} {p : Parser} {ok : α → α → Parser → Parser → Prop}
    {stop : Parser → Parser → Prop} (h : Together x x p p ok stop) :
    Ends x p (fun a q => ok a a q q) fun s q => s = .syntaxError → stop q q := by
  unfold Ends
  cases hr : x.run p with
  | ok a q => exact h.of_ok hr hr
  | error s q =>
    rintro rfl
    unfold Together at h
    rwa [hr] at h

variable {rest : List Token} {p : Parser}

/-- A statement ends before the last token of the block, or is given up within it. -/
theorem statement_within (n : Nat) (h : p.Within rest 0) :
    Ends (statement n) p (fun _ q => q.advance.Within rest 0) fun s q =>
      s = .syntaxError → q.Within rest 0 := by
  have hends := ((within_lockstep rest).statement n n 0 p p ⟨rfl, h⟩).ends
  refine hends.mono (fun first q hs => ?_) fun s q hs hk => (hs hk).2
  obtain ⟨-, ⟨-, h⟩, hk | ⟨-, hbehind⟩⟩ := hs
  · exact h.advance (by simp [closed, hk])
  · exact hbehind

theorem statements_within (n : Nat) (p : Parser) (h : p.Within rest 0) :
    Ends (statements n) p (fun _ q => q.Within rest 0 ∧ q.current.kind = .rightBrace)
      fun s _ => s = .depth := by
  induction n generalizing p with
  | zero => rfl
  | succ n ih =>
    rw [statements, Body.statements]
    refine ends_bind.2 (ends_current.2 ?_)
    split
    · next hk => exact ⟨h, hk⟩
    · next hk => exact absurd hk h.current_proper
    · refine ends_bind.2 (ends_attempt.2 ((statement_within n h).mono ?_ ?_))
      · intro first q hq
        refine ends_bind.2 (ends_advance.2 (ends_bind.2 ?_))
        exact (ih _ hq).mono (fun _ _ hr => hr) fun _ _ hs => hs
      · intro s q hq
        refine ⟨fun hs => ?_, fun _ => rfl⟩
        have hrecover := (hq hs).recover
        refine ends_bind.2 (ends_bind.2 (ends_current.2 (ends_ite.2 ⟨fun hk => ?_, fun hk => ?_⟩)))
        · exact ⟨hrecover, hk⟩
        · refine ends_bind.2 (ends_advance.2 (ih _ (hrecover.advance ?_)))
          simp [closed, hk]

/-- A block is left at a closing brace, from which on all that stands behind it is still there. -/
theorem block_within (n : Nat) (h : p.advance.Within rest 0) :
    Ends (block n) p (fun _ q => q.Within rest 0 ∧ q.current.kind = .rightBrace ∧
      q.tokens <:+ p.advance.tokens) fun s _ => s = .depth := by
  cases n with
  | zero => rfl
  | succ n =>
    rw [block, Body.block]
    refine ends_bind.2 (ends_current.2 (ends_bind.2 (ends_advance.2 (ends_bind.2 ?_))))
    have hends := (statements_within n p.advance h).and (obeys_statements reaches_discipline n _)
    refine hends.mono (fun ss q hq => ?_) fun s q hs => hs.1
    obtain ⟨⟨hwithin, hbrace⟩, hreaches⟩ := hq
    exact ⟨hwithin, hbrace, hreaches.tokens⟩

/-- Without errors as many braces are closed in a block as are opened. -/
theorem block_course {n : Nat} {b : Block} {q : Parser} (hp : p.Sound p.errors.length)
    (ho : p.current.kind = .leftBrace) (hr : (block n : Parse Block).run p = .ok b q)
    (he : q.errors = p.errors) : ∃ us, p.stream = us ++ q.advance.stream ∧
      (q.advance.tokens ≠ [] → opened us = closed us) := by
  have hstart : p.Follows ⟨⟨0, 0, [.block]⟩, p.stream, p.errors⟩ 0 [.block] :=
    .inl ⟨rfl, hp, [], rfl, rfl, fun _ => rfl⟩
  have hbrace : Awaited.block.meet p.current = .take [.statements] := if_pos ho
  obtain h | h := (runs_block n p [] (hstart.take hbrace)).of_ok hr
  · obtain ⟨us, hus, -, hbraces⟩ := h.scanned
    exact ⟨us, hus, hbraces⟩
  · exact absurd he h.errors_ne

section
variable {n : Nat} {p q : Parser} {b : Block} {opening closing : Token}
  {inside front left rest : List Token}

/-- A block left before its own closing brace has an error, for more braces are opened in front of
this place than closed. -/
theorem errors_of_early (ht : p.tokens = opening :: (inside ++ closing :: rest))
    (ho : opening.kind = .leftBrace) (hb : BracesBalanced inside) (hp : p.Sound 0)
    (hr : (block n : Parse Block).run p = .ok b q) (hinside : inside = front ++ q.current :: left)
    (hq : q.tokens = q.current :: (left ++ closing :: rest)) : q.errors ≠ p.errors := by
  intro he
  have hsound : p.Sound p.errors.length := ⟨hp.endMark, hp.tokens, Nat.le_refl _⟩
  have hbrace : p.current.kind = .leftBrace := by simpa [Parser.current, ht] using ho
  obtain ⟨us, hus, hbraces⟩ := block_course hsound hbrace hr he
  have hbehind : q.advance.tokens = left ++ closing :: rest := by simp [Parser.advance, hq]
  have htaken : opening :: (front ++ [q.current]) = us := by
    have hsplit : (opening :: (front ++ [q.current])) ++
        (left ++ closing :: (rest ++ [p.endMark])) =
          us ++ (left ++ closing :: (rest ++ [q.advance.endMark])) := by
      unfold Parser.stream at hus
      rw [ht, hbehind, hinside] at hus
      simpa using hus
    exact (List.append_inj' hsplit (by simp)).1
  have hopen : opened [opening] = 1 ∧ closed [opening] = 0 := by simp [opened, closed, ho]
  have hfront : closed (front ++ [q.current]) ≤ opened (front ++ [q.current]) :=
    hb.front _ ⟨left, by simp [hinside]⟩
  have hbalanced : opened us = closed us := hbraces (by simp [hbehind])
  rw [← htaken, ← List.singleton_append, opened_append, closed_append, hopen.1, hopen.2]
    at hbalanced
  omega

/-- A block without braces in it has no other brace to end at. -/
theorem braces_of_early (hb : BracesBalanced inside) (hk : q.current.kind = .rightBrace)
    (hinside : inside = front ++ q.current :: left) : opened inside ≠ 0 := by
  intro hnone
  have hpos : 0 < closed inside :=
    List.countP_pos_iff.mpr ⟨q.current, by simp [hinside], by simpa using hk⟩
  rw [← hb.total, hnone] at hpos
  exact Nat.lt_irrefl 0 hpos

/-- The limit that a parser computes is enough for a block. -/
theorem block_finishes (ht : p.tokens ≠ []) (hm : p.endMark.kind = .endOfInput)
    (hn : p.limit ≤ n) (hd : Ends (block n) p (fun _ _ => True) fun s _ => s = .depth) :
    ∃ b q, (block n : Parse Block).run p = .ok b q := by
  have hpos : 1 ≤ p.tokens.length := List.length_pos_iff.mpr ht
  have hlimit : 8 * p.tokens.length + 2 ≤ n := by
    unfold Parser.limit at hn
    omega
  have hfinishes := finishes_block n _ p ⟨hm, Nat.le_refl _⟩ hpos hlimit
  cases hr : (block n : Parse Block).run p with
  | ok b q => exact ⟨b, q, rfl⟩
  | error s q =>
    have hs : s = .syntaxError := (hfinishes.of_error hr).1
    rw [hd.of_error hr] at hs
    cases hs

/-- A block never goes past the brace that closes it, whatever errors are in it: it is left at a
closing brace, which is its own one or stands before that. It is its own one if the block is read
without errors, or if no braces stand in it. -/
theorem block_ends (ht : p.tokens = opening :: (inside ++ closing :: rest))
    (ho : opening.kind = .leftBrace) (hc : closing.kind = .rightBrace)
    (hb : BracesBalanced inside) (hp : p.Sound 0) :
    (p.limit ≤ n → ∃ b q, (block n : Parse Block).run p = .ok b q) ∧
      ∀ b q, (block n : Parse Block).run p = .ok b q → q.current.kind = .rightBrace ∧
        closing :: rest <:+ q.tokens ∧
        (q.errors = p.errors ∨ opened inside = 0 → q.tokens = closing :: rest) := by
  have hadvance : p.advance.tokens = (inside ++ [closing]) ++ rest := by
    simp [Parser.advance, ht]
  have hwithin : p.advance.Within rest 0 := by
    refine ⟨hp.advance.tokens, inside ++ [closing], hadvance, ?_⟩
    have hclose : opened [closing] = 0 ∧ closed [closing] = 1 := by simp [opened, closed, hc]
    rw [opened_append, closed_append, hclose.1, hclose.2, hb.total]
    exact Nat.lt_succ_self _
  have hends := block_within n hwithin
  refine ⟨fun hn => ?_, fun b q hr => ?_⟩
  · have hne : p.tokens ≠ [] := by simp [ht]
    exact block_finishes hne hp.endMark hn (hends.mono (fun _ _ _ => trivial) fun _ _ hs => hs)
  · obtain ⟨hq, hbrace, hsuffix⟩ := hends.of_ok hr
    rw [hadvance, List.append_assoc, List.singleton_append] at hsuffix
    obtain hown | ⟨front, left, hinside, hearly⟩ := hq.left hsuffix
    · exact ⟨hbrace, hown ▸ List.suffix_refl _, fun _ => hown⟩
    · refine ⟨hbrace, hearly ▸ ⟨q.current :: left, rfl⟩, ?_⟩
      rintro (herrors | hnone)
      · exact absurd herrors (errors_of_early ht ho hb hp hr hinside hearly)
      · exact absurd hnone (braces_of_early hb hbrace hinside)

end

/-- A block with errors and no braces in it is read up to its own brace. -/
theorem block_ends_flat : ∃ p inside closing rest,
    p = (Parser.ofLexer (Lexer.ofString "fn(x) { let 1; x) } 3")).advance.advance.advance.advance ∧
      p.tokens = p.current :: (inside ++ closing :: rest) ∧ p.current.kind = .leftBrace ∧
      closing.kind = .rightBrace ∧ BracesBalanced inside ∧ p.Sound 0 ∧ opened inside = 0 ∧
      ∃ b q, (block p.limit : Parse Block).run p = .ok b q ∧ q.tokens = closing :: rest := by
  obtain ⟨p, hp⟩ : ∃ p, p =
    (Parser.ofLexer (Lexer.ofString "fn(x) { let 1; x) } 3")).advance.advance.advance.advance :=
    ⟨_, rfl⟩
  have ht : p.tokens = p.current :: (p.tokens.tail.take 5 ++
      ⟨.rightBrace, "\x7d", ⟨18, 1⟩⟩ :: [⟨.integer, "3", ⟨20, 1⟩⟩]) := by
    subst hp
    decide +kernel
  have ho : p.current.kind = .leftBrace := by
    subst hp
    decide +kernel
  have hb : BracesBalanced (p.tokens.tail.take 5) := by
    subst hp
    decide +kernel
  have hnone : opened (p.tokens.tail.take 5) = 0 := by
    subst hp
    decide +kernel
  have hsound : p.Sound 0 := by
    subst hp
    exact ⟨rfl, by decide +kernel, Nat.zero_le _⟩
  obtain ⟨hreturns, hends⟩ := block_ends ht ho rfl hb hsound
  obtain ⟨b, q, hr⟩ := hreturns (Nat.le_refl _)
  have hown := (hends b q hr).2.2 (.inr hnone)
  exact ⟨p, _, _, _, hp, ht, ho, rfl, hb, hsound, hnone, b, q, hr, hown⟩

/-- An error right behind a nested block is given up at the brace of this block, which then ends the
block around it too. What follows there becomes part of the program. -/
theorem block_left_early : ∃ p inside closing,
    p = (Parser.ofLexer (Lexer.ofString "fn() { (if (x) { 1 } 2); 3 }")).advance.advance.advance ∧
      p.tokens = p.current :: (inside ++ [closing]) ∧ p.current.kind = .leftBrace ∧
      closing.kind = .rightBrace ∧ BracesBalanced inside ∧ p.Sound 0 ∧
      (∃ b q, (block p.limit : Parse Block).run p = .ok b q ∧ q.tokens ≠ [closing]) ∧
      (Reading.ofSource "fn() { (if (x) { 1 } 2); 3 }").program.text = "fn() { }; 2; 3" := by
  obtain ⟨p, hp⟩ : ∃ p, p =
    (Parser.ofLexer (Lexer.ofString "fn() { (if (x) { 1 } 2); 3 }")).advance.advance.advance :=
    ⟨_, rfl⟩
  obtain ⟨closing, hc⟩ : ∃ closing : Token, closing = ⟨.rightBrace, "\x7d", ⟨27, 1⟩⟩ := ⟨_, rfl⟩
  have hearly : (match (block p.limit : Parse Block).run p with
      | .ok _ q => decide (q.tokens ≠ [closing])
      | .error _ _ => false) = true := by
    subst hp hc
    decide +kernel
  have ht : p.tokens = p.current :: (p.tokens.tail.take 12 ++ [closing]) ∧
      p.current.kind = .leftBrace ∧ closing.kind = .rightBrace ∧
      BracesBalanced (p.tokens.tail.take 12) := by
    subst hp hc
    decide +kernel
  have hsound : p.Sound 0 := by
    subst hp
    exact ⟨rfl, by decide +kernel, Nat.zero_le _⟩
  obtain ⟨ht, ho, hclosing, hb⟩ := ht
  refine ⟨p, _, closing, hp, ht, ho, hclosing, hb, hsound, ?_, by decide +kernel⟩
  cases hr : (block p.limit : Parse Block).run p with
  | ok b q =>
    rw [hr] at hearly
    exact ⟨b, q, rfl, of_decide_eq_true hearly⟩
  | error s q =>
    rw [hr] at hearly
    cases hearly

end Parse

end MonkeyLang
