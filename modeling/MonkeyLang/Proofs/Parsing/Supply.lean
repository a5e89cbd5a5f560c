import MonkeyLang.Proofs.Parsing.Awaited

namespace MonkeyLang

namespace Grammar

def Closer.token : Closer → Token
  | rightParen => ⟨.rightParen, ")", ⟨0, 0⟩⟩
  | rightBracket => ⟨.rightBracket, "]", ⟨0, 0⟩⟩

def Mark.token : Mark → Token
  | name => ⟨.name, "x", ⟨0, 0⟩⟩
  | assign => ⟨.assign, "=", ⟨0, 0⟩⟩
  | leftParen => ⟨.leftParen, "(", ⟨0, 0⟩⟩
  | closer c => c.token

def openBrace : Token := ⟨.leftBrace, "\x7b", ⟨0, 0⟩⟩

def closeBrace : Token := ⟨.rightBrace, "\x7d", ⟨0, 0⟩⟩

/-- The tokens with which something awaited is complete. -/
def Awaited.supply : Awaited → List Token
  | mark m => [m.token]
  | operand => [Mark.name.token]
  | expression _ => [Mark.name.token]
  | extension _ => []
  | items closing => [closing.token]
  | moreItems closing => [closing.token]
  | parameters => [Closer.rightParen.token]
  | moreParameters => [Closer.rightParen.token]
  | block => [openBrace, closeBrace]
  | alternative => []
  | statements => [closeBrace]
  | statement => [Mark.name.token]
  | semicolon => []

/-- What is supplied behind a construct, or the end. None of it goes on with an expression, a
conditional or a statement. -/
def suppliedKinds : List Token.Kind :=
  [.name, .assign, .rightParen, .rightBracket, .leftBrace, .rightBrace, .endOfInput]

section
variable {t : Token} {ts : List Token} {c b : Nat} {a : Awaited} {rest more : List Awaited}

theorem goOn_supplied (ht : t.kind ∈ suppliedKinds) (least : Strength) : goOn least t = .pass := by
  have hlowest : ∀ kind ∈ suppliedKinds, Strength.ofKind kind = .lowest := by decide
  have hnot : ¬least < Strength.lowest := Nat.not_lt_zero least.rank
  unfold goOn
  rw [hlowest _ ht, if_neg hnot]

theorem allowed_supplied (ht : t.kind ∈ suppliedKinds) {kind : Token.Kind}
    (hk : kind ∉ suppliedKinds) : allowed kind more t = .pass := by
  unfold allowed
  rw [if_neg]
  rintro rfl
  exact hk ht

theorem Closer.token_kind (closer : Closer) : closer.token.kind = closer.kind := by
  cases closer <;> rfl

theorem Mark.token_kind (m : Mark) : m.token.kind = m.kind := by
  cases m with
  | closer closer => exact closer.token_kind
  | _ => rfl

/-- With what it is supplied with, something awaited is done. -/
theorem scan_supply (ha : a ≠ .mark .leftParen) (ht : t.kind ∈ suppliedKinds) :
    ∃ b', scan ⟨c, b, a :: rest⟩ (a.supply ++ t :: ts) = scan ⟨c, b', rest⟩ (t :: ts) := by
  have hextension : ∀ b least rest, scan ⟨c, b, .extension least :: rest⟩ (t :: ts) =
      scan ⟨c, b, rest⟩ (t :: ts) := fun b least rest => scan_meet_pass (goOn_supplied ht least)
  have hname : Awaited.operand.meet Mark.name.token = .take [] := rfl
  cases a with
  | mark m =>
    have h : (Awaited.mark m).meet m.token = .take [] := if_pos m.token_kind
    exact ⟨_, scan_meet h⟩
  | operand => exact ⟨_, scan_meet hname⟩
  | expression least =>
    have h : (Awaited.expression least).meet Mark.name.token = .take [.extension least] := rfl
    exact ⟨_, (scan_meet h).trans (hextension _ _ _)⟩
  | extension least => exact ⟨b, hextension b least rest⟩
  | items closing =>
    have h : (Awaited.items closing).meet closing.token = .take [] := if_pos closing.token_kind
    exact ⟨_, scan_meet h⟩
  | moreItems closing =>
    have h : (Awaited.moreItems closing).meet closing.token = .take [] := by cases closing <;> rfl
    exact ⟨_, scan_meet h⟩
  | parameters =>
    have h : Awaited.parameters.meet Closer.rightParen.token = .take [] := rfl
    exact ⟨_, scan_meet h⟩
  | moreParameters =>
    have h : Awaited.moreParameters.meet Closer.rightParen.token = .take [] := rfl
    exact ⟨_, scan_meet h⟩
  | block =>
    have h : Awaited.block.meet openBrace = .take [.statements] := rfl
    have h' : Awaited.statements.meet closeBrace = .take [] := rfl
    exact ⟨_, (scan_meet h).trans (scan_meet h')⟩
  | alternative => exact ⟨b, scan_meet_pass (allowed_supplied ht (by decide))⟩
  | statements =>
    have h : Awaited.statements.meet closeBrace = .take [] := rfl
    exact ⟨_, scan_meet h⟩
  | statement =>
    have h : Awaited.statement.meet Mark.name.token = .take [.extension .lowest, .semicolon] := rfl
    have h' : Awaited.semicolon.meet t = .pass := allowed_supplied ht (by decide)
    exact ⟨_, (scan_meet h).trans ((hextension _ _ _).trans (scan_meet_pass h'))⟩
  | semicolon => exact ⟨b, scan_meet_pass (allowed_supplied ht (by decide))⟩

theorem supply_kinds (ha : a ≠ .mark .leftParen) : ∀ t ∈ a.supply, t.kind ∈ suppliedKinds := by
  have hcloser : ∀ closer : Closer, ∀ t ∈ [closer.token], t.kind ∈ suppliedKinds := by
    intro closer
    cases closer <;> decide
  cases a with
  | mark m =>
    cases m with
    | leftParen => exact absurd rfl ha
    | closer closer => exact hcloser closer
    | _ => decide
  | items closing => exact hcloser closing
  | moreItems closing => exact hcloser closing
  | expression least => exact List.forall_mem_singleton.mpr (by decide)
  | extension least => exact List.forall_mem_nil _
  | _ => decide

/-- With what all of it is supplied with, a text may end. -/
theorem scan_supplies {mark : Token} (hm : mark.kind = .endOfInput) {awaited : List Awaited}
    (h : .mark .leftParen ∉ awaited) (c b : Nat) :
    scan ⟨c, b, awaited⟩ (awaited.flatMap Awaited.supply ++ [mark]) = .accepted := by
  induction awaited generalizing b with
  | nil => exact scan_ends rfl hm
  | cons a rest ih =>
    rw [List.mem_cons, not_or] at h
    obtain ⟨ha, hrest⟩ := h
    obtain ⟨t, ts, hts⟩ : ∃ t ts, rest.flatMap Awaited.supply ++ [mark] = t :: ts :=
      List.exists_cons_of_ne_nil (by simp)
    have ht : t.kind ∈ suppliedKinds := by
      have hmem : t ∈ rest.flatMap Awaited.supply ++ [mark] := by simp [hts]
      rcases List.mem_append.mp hmem with hmem | hmem
      · obtain ⟨a', ha', hmem⟩ := List.mem_flatMap.mp hmem
        exact supply_kinds (fun heq => hrest (heq ▸ ha')) t hmem
      · rw [List.mem_singleton.mp hmem, hm]
        decide
    have hdone : ∃ b', scan ⟨c, b, a :: rest⟩ (a.supply ++ t :: ts) =
        scan ⟨c, b', rest⟩ (t :: ts) := scan_supply (Ne.symm ha) ht
    obtain ⟨b', hb'⟩ := hdone
    rw [List.flatMap_cons, List.append_assoc, hts, hb', ← hts]
    exact ih hrest b'

/-- An opening parenthesis is supplied where it is awaited first. -/
theorem scan_supplies_all {mark : Token} (hm : mark.kind = .endOfInput) {stage : Stage}
    (hs : .mark .leftParen ∉ stage.awaited.tail) :
    scan stage (stage.awaited.flatMap Awaited.supply ++ [mark]) = .accepted := by
  obtain ⟨c, b, awaited⟩ := stage
  by_cases htop : .mark .leftParen ∉ awaited
  · exact scan_supplies hm htop c b
  · cases awaited with
    | nil => exact absurd List.not_mem_nil htop
    | cons a rest =>
      obtain rfl : .mark .leftParen = a := by
        rcases List.mem_cons.mp (not_not.mp htop) with ha | ha
        · exact ha
        · exact absurd ha hs
      have h : (Awaited.mark .leftParen).meet Mark.leftParen.token = .take [] := rfl
      exact (scan_meet h).trans (scan_supplies hm hs c (b + 1))

/-- All that is supplied can be written. -/
theorem supply_spelled (a : Awaited) : ∀ t ∈ a.supply, t.Spelled := by
  have hletters : ∀ c ∈ ['x'], isLetter c := List.forall_mem_singleton.mpr (by decide)
  have hname : Mark.name.token.Spelled := ⟨['x'], Lexeme.alone_word hletters (by simp)⟩
  have hcloser : ∀ closer : Closer, ∀ t ∈ [closer.token], t.Spelled := by
    intro closer
    cases closer <;> exact List.forall_mem_singleton.mpr (Token.spelled_symbol (by decide))
  have hmark : ∀ m : Mark, ∀ t ∈ [m.token], t.Spelled := by
    intro m
    cases m with
    | name => exact List.forall_mem_singleton.mpr hname
    | closer closer => exact hcloser closer
    | _ => exact List.forall_mem_singleton.mpr (Token.spelled_symbol (by decide))
  have hopen : openBrace.Spelled := Token.spelled_symbol (by decide)
  have hclose : closeBrace.Spelled := Token.spelled_symbol (by decide)
  cases a with
  | mark m => exact hmark m
  | operand | expression | statement => exact hmark .name
  | items closing | moreItems closing => exact hcloser closing
  | parameters | moreParameters => exact hcloser .rightParen
  | extension | alternative | semicolon => exact List.forall_mem_nil _
  | block =>
    exact List.forall_mem_cons.mpr ⟨hopen, List.forall_mem_singleton.mpr hclose⟩
  | statements => exact List.forall_mem_singleton.mpr hclose

/-- Whatever stands before a token refused can be completed to a text that is accepted. -/
theorem scan_viable {mark : Token} (hm : mark.kind = .endOfInput) {c n : Nat}
    {cause : SyntaxError.Cause} {stage : Stage} {us : List Token}
    (h : scan stage (us ++ t :: ts) = .refused c n cause)
    (hn : n = stage.complete + stage.begun + us.length)
    (hs : .mark .leftParen ∉ stage.awaited.tail) : (∀ u ∈ us, u.kind ≠ .illegal) ∧
      ∃ ws : List Token, (∀ w ∈ ws, w.Spelled) ∧ scan stage (us ++ ws ++ [mark]) = .accepted := by
  induction us generalizing stage with
  | nil =>
    refine ⟨by simp, _, fun w hw => ?_, scan_supplies_all hm hs⟩
    obtain ⟨a, -, hw⟩ := List.mem_flatMap.mp hw
    exact supply_spelled a w hw
  | cons u us ih =>
    have hlength := facing_length stage u
    rw [List.cons_append] at h
    rw [List.length_cons] at hn
    cases hr : react (stage.facing u).awaited u with
    | take more =>
      have htaken := react_take hr (facing_shut hs)
      rw [scan_take hr] at h
      obtain ⟨hlegal, ws, hws, haccepted⟩ := ih h (by dsimp only; omega) htaken.shut
      refine ⟨List.forall_mem_cons.mpr ⟨htaken.legal, hlegal⟩, ws, hws, ?_⟩
      rw [List.cons_append, List.cons_append, scan_take hr, haccepted]
    | refuse cause =>
      rw [scan_refuse hr] at h
      have hn' := (Verdict.refused.inj h).2.1
      omega
    | pass =>
      rw [scan_pass hr] at h
      cases h

end

end Grammar

end MonkeyLang
