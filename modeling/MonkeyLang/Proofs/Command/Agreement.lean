import MonkeyLang.Proofs.Command.Lines
import MonkeyLang.Proofs.Evaluation.Carriers
import MonkeyLang.Proofs.Lexing.Append
import MonkeyLang.Proofs.Parsing.Reading

namespace MonkeyLang

open Eval Grammar

/-- The texts of files are those that some bytes encode. -/
theorem Text.decode_eq_some {bytes : List UInt8} {source : String} :
    decode? bytes = some source ↔ bytes = bytesOf source := by
  unfold decode? String.fromUTF8? bytesOf
  split
  · constructor
    · intro h
      cases h
      rfl
    · rintro rfl
      rfl
  · next hvalid =>
    refine ⟨nofun, ?_⟩
    rintro rfl
    exact absurd source.isValidUTF8 hvalid

/-- The tokens are what one reading after the other gives, up to the first end mark and with it. -/
inductive Lexer.Produces : Lexer → List Token → Prop where
  | last {lexer : Lexer} (h : lexer.next.1.kind = .endOfInput) : Produces lexer [lexer.next.1]
  | more {lexer : Lexer} {ts : List Token} (h : lexer.next.1.kind ≠ .endOfInput)
    (hts : Produces lexer.next.2 ts) : Produces lexer (lexer.next.1 :: ts)

theorem Lexer.produces_tokens (lexer : Lexer) :
    lexer.Produces (lexer.tokens ++ [lexer.endMark]) := by
  induction lexer using by_tokens with
  | ending lexer h =>
    have hlast := Produces.last h
    obtain ⟨gap, offset, rfl, hgap⟩ := of_end h
    rw [next_ending hgap] at hlast
    rw [tokens_nil h]
    simpa [endMark, remaining] using hlast
  | token lexer h ih =>
    have hmark : lexer.endMark = lexer.next.2.endMark := by rw [endMark, endMark, next_total h]
    rw [tokens_cons h, hmark]
    exact .more h ih

/-- What the grammar derives has no illegal token. -/
theorem Grammar.Derives.legal {ts : List Token} {phrase : Phrase}
    (h : Derives False ts phrase) : ∀ t ∈ ts, t.kind ≠ .illegal := by
  induction h with
  | boolean ht =>
    simp only [truthWords, List.mem_cons, Prod.mk.injEq, List.not_mem_nil, or_false] at ht
    rcases ht with ⟨ht, -⟩ | ⟨ht, -⟩ <;> simp [ht]
  | unary ht _ ih =>
    simp only [prefixOperators, List.mem_cons, Prod.mk.injEq, List.not_mem_nil, or_false] at ht
    rcases ht with ⟨ht, -⟩ | ⟨ht, -⟩ <;> simpa [ht] using ih
  | @binary _ t _ _ _ _ _ ht _ _ iha ihb =>
    have hop := (ofKind_of_mem ht).1
    have hlegal : t.kind ≠ .illegal := fun h => by simp [h, InfixOp.ofKind?] at hop
    intro u hu
    rcases List.mem_append.mp hu with hu | hu
    · exact iha u hu
    · rcases List.mem_cons.mp hu with rfl | hu
      · exact hlegal
      · exact ihb u hu
  | skip h _ _ => exact h.elim
  | _ => simp_all <;> grind

/-- A source with an illegal token has a syntax error, wherever the token stands. -/
theorem errors_of_illegal {source : String} {t : Token} (ht : t ∈ (Lexer.ofString source).tokens)
    (hk : t.kind = .illegal) : (Reading.ofSource source).errors ≠ [] := by
  intro hnone
  obtain ⟨ts, ⟨missing, -, rfl⟩, hd⟩ := reading_derives source
  have hlegal := (hd.mono (by simp [hnone])).legal
  exact hlegal t (List.mem_append_left _ ht) hk

/-- What the evaluation of a program by itself comes to, if calls are not nested too deeply: a
runtime error, or a value or none. -/
def Program.result? (limit : Nat) (program : Program) :
    Option (Except RuntimeError (Option Value)) :=
  match EStateM.run (runProgram (invoke limit) Store.fresh.1 program) Store.fresh.2 with
  | .ok value _ => some (.ok value)
  | .error (.returned value) _ => some (.ok (some value))
  | .error (.failed error) _ => some (.error error)
  | .error .tooDeep _ => none

/-- A runtime error is never taken for a value. -/
theorem Program.result_plain {limit : Nat} {program : Program} {value : Value}
    (h : program.result? limit = some (.ok (some value))) : value.Plain := by
  have d : (Invariant.plain Session.start.Sees).Setting (invoke limit) () Store.fresh.1 :=
    ⟨Invariant.invoke_leaves _ limit, .inl .root⟩
  have hleaves : Leaves Session.start.Sees _
      (fun found : Option Value => ∀ value ∈ found.toList, value.Within _) _ :=
    leaves_of_plain (Invariant.Setting.runProgram program d Store.fresh.2)
  have hended := hleaves Session.start_plain.holds
  unfold result? at h
  split at h
  · next found after hrun =>
    rw [hrun] at hended
    cases h
    exact (hended.2 value (List.mem_singleton_self _)).plain
  · next found after hrun =>
    rw [hrun] at hended
    cases h
    exact hended.2.plain
  · cases h
  · cases h

namespace Command

theorem execute_onFile (activity path source : String) (go : String → Execution) :
    onFile activity path (some (bytesOf source)) go =
      { go source with
        err := activity ++ " " ++ quotedPath path ++ "...\n" ++ (go source).err } := by
  have hdecode : some (bytesOf source) >>= Text.decode? = some source := Text.decode_eq_some.mpr rfl
  simp [onFile, hdecode]

/-- What a run prints for a value. -/
def printed : Option Value → String
  | none | some .null => ""
  | some value => value.inspect ++ "\n"

theorem ofAnswer_value {value : Value} (hp : value.Plain) (errors : ErrorFormat) :
    ofAnswer errors (.value value) = ⟨0, printed (some value), ""⟩ := by
  cases value with
  | error error => exact absurd (.error error) hp
  | _ => rfl

theorem executeTokenize_produces (source : String) (format : TokenFormat) :
    ∃ ts, (Lexer.ofString source).Produces ts ∧
      Lines (·.Shown format ·) ts (executeTokenize source format).out ∧
      (executeTokenize source format).exit =
        if ∃ t ∈ ts, t.kind = .illegal then syntaxErrorCode else 0 := by
  refine ⟨_, Lexer.produces_tokens _, ?_, ?_⟩
  · cases format with
    | basic => exact lines_joinLines (fun token => .basic token.basic_line) _
    | debug => exact lines_joinLines Token.debug_compact _
  · simp [executeTokenize]

theorem executeTokenize_failed {source : String} (format : TokenFormat)
    (h : (executeTokenize source format).exit = syntaxErrorCode) :
    ∃ t ∈ (Lexer.ofString source).tokens, t.kind = .illegal := by
  have hmark : (Lexer.ofString source).endMark.kind ≠ .illegal := nofun
  simpa [executeTokenize, syntaxErrorCode, hmark] using h

section
variable {library : Report.Library} {limit : Nat} {path source : String} {format : ProgramFormat}
  {errors : ErrorFormat}

theorem executeParse_failed :
    (executeParse library path source format errors).exit = syntaxErrorCode ↔
      (Reading.ofSource source).errors ≠ [] := by
  unfold executeParse
  cases h : (Reading.ofSource source).errors with
  | nil => simp [h, syntaxErrorCode]
  | cons error rest => simp [h]

theorem executeParse_out (h : (Reading.ofSource source).errors ≠ []) :
    (executeParse library path source format errors).out = "" := by
  simp [executeParse, h]

theorem executeRun_of_errors (h : (Reading.ofSource source).errors ≠ []) :
    executeRun library limit path source errors = ⟨syntaxErrorCode, "",
      joinLines ((Reading.ofSource source).errors.map
        (syntaxErrorText library path source errors))⟩ := by
  simp [executeRun, h]

/-- Without syntax errors an execution tells how the evaluation ended. -/
theorem executeRun_of_no_errors (h : (Reading.ofSource source).errors = []) :
    executeRun library limit path source errors =
      match (Reading.ofSource source).program.result? limit with
      | none => ofAnswer errors .tooDeep
      | some (.error error) => ofAnswer errors (.value (.error error))
      | some (.ok value) => ⟨0, printed value, ""⟩ := by
  have hplain := @Program.result_plain limit (Reading.ofSource source).program
  simp only [executeRun, h, List.isEmpty_nil, if_true, Program.run]
  unfold Program.result? EStateM.run at hplain ⊢
  cases hrun : runProgram (invoke limit) Store.fresh.1 (Reading.ofSource source).program
    Store.fresh.2 with
  | ok value after =>
    cases value with
    | none => rfl
    | some value => exact ofAnswer_value (hplain (by rw [hrun])) errors
  | error exit after =>
    cases exit with
    | returned value => exact ofAnswer_value (hplain (by rw [hrun])) errors
    | failed error => rfl
    | tooDeep => rfl

theorem executeRun_failed :
    (executeRun library limit path source errors).exit = syntaxErrorCode ↔
      (Reading.ofSource source).errors ≠ [] := by
  constructor
  · intro hexit hnone
    rw [executeRun_of_no_errors hnone] at hexit
    split at hexit <;> cases hexit
  · intro h
    rw [executeRun_of_errors h]

end

/-- The commands agree on every source. Tokenizing shows every token with the end mark and fails
just for an illegal one; parsing and running fail together, for the syntax errors alone, and then
print nothing, and a run shows these errors instead of anything that is evaluated; no illegal token
goes without a syntax error; and of an evaluation that ends, a run shows a runtime error or the
value. -/
theorem commands_agree (library : Report.Library) (source path : String) (limit : Nat)
    (input : List UInt8) (tokenFormat : TokenFormat) (programFormat : ProgramFormat)
    (errors errors' : ErrorFormat) :
    let content := some (bytesOf source)
    let reading := Reading.ofSource source
    let tokenizing := executeWith library limit content input (.tokenize path tokenFormat)
    let parsing := executeWith library limit content input (.parse path programFormat errors)
    let running := executeWith library limit content input (.run path errors')
    (∃ ts, (Lexer.ofString source).Produces ts ∧
      Lines (·.Shown tokenFormat ·) ts tokenizing.out ∧
      tokenizing.exit = if ∃ t ∈ ts, t.kind = .illegal then 65 else 0) ∧
    (parsing.exit = 65 ↔ running.exit = 65) ∧
    (running.exit = 65 ↔ reading.errors ≠ []) ∧
    (reading.errors ≠ [] → parsing.out = "" ∧ running.out = "" ∧
      ∃ text, Lines (·.Shown library path source errors' ·) reading.errors text ∧
        running.err = "Running " ++ quotedPath path ++ "...\n" ++ text) ∧
    (tokenizing.exit = 65 → parsing.exit = 65 ∧ running.exit = 65) ∧
    (reading.errors = [] → ∀ result, reading.program.result? limit = some result →
      (running.exit = 70 ∧ running.out = "" ↔ ∃ error, result = .error error) ∧
      ∀ value, result = .ok value → running.exit = 0 ∧ running.out = printed value) := by
  intro content reading tokenizing parsing running
  have htokenizing : tokenizing = _ := execute_onFile "Tokenizing" path source _
  have hparsing : parsing = _ := execute_onFile "Parsing" path source _
  have hrunning : running = _ := execute_onFile "Running" path source _
  have hparse : parsing.exit = 65 ↔ reading.errors ≠ [] := by
    rw [hparsing]
    dsimp only
    exact executeParse_failed
  have hrun : running.exit = 65 ↔ reading.errors ≠ [] := by
    rw [hrunning]
    dsimp only
    exact executeRun_failed
  refine ⟨?_, hparse.trans hrun.symm, hrun, fun h => ⟨?_, ?_, ?_⟩, fun h => ?_,
    fun hnone result hr => ?_⟩
  · rw [htokenizing]
    dsimp only
    exact executeTokenize_produces source tokenFormat
  · rw [hparsing]
    dsimp only
    exact executeParse_out h
  · rw [hrunning, executeRun_of_errors h]
  · rw [hrunning, executeRun_of_errors h]
    exact ⟨_, lines_joinLines (syntaxErrorText_shown library path source errors') _, rfl⟩
  · rw [htokenizing] at h
    obtain ⟨t, ht, hk⟩ := executeTokenize_failed tokenFormat h
    exact ⟨hparse.mpr (errors_of_illegal ht hk), hrun.mpr (errors_of_illegal ht hk)⟩
  · have hrun : executeRun library limit path source errors' = _ := executeRun_of_no_errors hnone
    rw [hr] at hrun
    rw [hrunning]
    cases result with
    | error error => simp [hrun, ofAnswer, runtimeErrorCode]
    | ok value => simp [hrun]

end Command

end MonkeyLang
