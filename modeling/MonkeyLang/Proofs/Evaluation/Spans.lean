import MonkeyLang.Proofs.Evaluation.Mirror
import MonkeyLang.Proofs.Parsing.Spans

namespace MonkeyLang

variable (f : Span → Span)

def Closure.mapSpans (closure : Closure) : Closure :=
  ⟨closure.parameters.map (Identifier.mapSpans f), closure.body.mapSpans f, closure.scope⟩

namespace Value

mutual

/-- The value with the spans of all tokens in its functions changed. -/
def mapSpans : Value → Value
  | .integer value => .integer value
  | .boolean value => .boolean value
  | .string text => .string text
  | .array identity items => .array identity (mapAllSpans items)
  | .null => .null
  | .returned value => .returned value.mapSpans
  | .error reason => .error reason
  | .function identity closure => .function identity (closure.mapSpans f)
  | .builtin named => .builtin named

def mapAllSpans : List Value → List Value
  | [] => []
  | value :: values => value.mapSpans :: mapAllSpans values

end

end Value

def Scope.mapSpans (scope : Scope) : Scope :=
  { scope with bindings := scope.bindings.map fun binding => (binding.1, binding.2.mapSpans f) }

def Store.mapSpans (store : Store) : Store :=
  { store with scopes := store.scopes.map (Scope.mapSpans f) }

def Answer.mapSpans : Answer → Answer
  | .value answered => .value (answered.mapSpans f)
  | .none => .none
  | .tooDeep => .tooDeep

variable (last : Store)

theorem Closure.mapSpans_eq (closure : Closure) :
    closure.mapSpans f = closure.renamed (.ofTokens (Token.mapSpan f) last) := by
  unfold Closure.mapSpans Closure.renamed
  rw [Block.mapSpans_eq, Identifier.mapSpans_eq]
  rfl

mutual

theorem Value.mapSpans_eq : ∀ value : Value,
    value.mapSpans f = value.renamed (.ofTokens (Token.mapSpan f) last)
  | .integer _ => by rw [mapSpans, renamed]
  | .boolean _ => by rw [mapSpans, renamed]
  | .string _ => by rw [mapSpans, renamed]
  | .array _ items => by
    rw [mapSpans, renamed, mapAllSpans_eq items]
    rfl
  | .null => by rw [mapSpans, renamed]
  | .returned value => by rw [mapSpans, renamed, mapSpans_eq value]
  | .error _ => by rw [mapSpans, renamed]
  | .function _ closure => by
    rw [mapSpans, renamed, closure.mapSpans_eq f last]
    rfl
  | .builtin _ => by rw [mapSpans, renamed]

theorem Value.mapAllSpans_eq : ∀ values : List Value,
    mapAllSpans f values = allRenamed (.ofTokens (Token.mapSpan f) last) values
  | [] => by rw [mapAllSpans, allRenamed]
  | value :: values => by
    rw [mapAllSpans, allRenamed, mapSpans_eq value, mapAllSpans_eq values]

end

theorem Scope.mapSpans_eq :
    Scope.mapSpans f = Scope.renamed (.ofTokens (Token.mapSpan f) last) := by
  funext scope
  have hparent : scope.parent.map (fun id : ScopeId => id) = scope.parent := Option.map_id'
  unfold Scope.mapSpans Scope.renamed
  simp only [Value.mapSpans_eq f last]
  exact congrArg (Scope.mk _) hparent.symm

theorem Answer.mapSpans_eq (answer : Answer) :
    answer.mapSpans f = answer.renamed (.ofTokens (Token.mapSpan f) last) := by
  cases answer with
  | value answered => rw [mapSpans, renamed, Value.mapSpans_eq f last]
  | none => rfl
  | tooDeep => rfl

theorem Store.mapSpans_mirrored (store : Store) :
    store.Mirrored (.ofTokens (Token.mapSpan f) last) (store.mapSpans f) where
  identities := fun _ _ => rfl
  scopes := fun _ _ => by simp [mapSpans, Renaming.ofTokens]
  found := fun _ => by
    rw [← Scope.mapSpans_eq]
    exact Array.getElem?_map

/-- The image under other spans is the store with other spans. -/
theorem Store.Mirrored.eq_mapSpans {image : Store}
    (h : last.Mirrored (.ofTokens (Token.mapSpan f) last) image) : image = last.mapSpans f := by
  have hcreated : image.created = last.created := (h.identities 0 (Nat.lt_succ_self _)).symm
  have hscopes : image.scopes = last.scopes.map (Scope.mapSpans f) := by
    apply Array.ext_getElem?
    intro id
    have hfound := h.found id
    rw [← Scope.mapSpans_eq] at hfound
    rw [Array.getElem?_map]
    exact hfound
  obtain ⟨scopes, created⟩ := image
  rw [mapSpans, ← hscopes, ← hcreated]

/-- A program that differs in its spans alone, run where the bindings differ in theirs, answers the
same and leaves the same behind, up to the spans. -/
theorem Program.run_mapSpans (limit : Nat) (program : Program) (scope : ScopeId) (store : Store) :
    Program.run limit (program.mapSpans f) scope (store.mapSpans f) =
      ((program.run limit scope store).1.mapSpans f,
        (program.run limit scope store).2.mapSpans f) := by
  have hprogram : program.mapSpans f = program.mapTokens (Token.mapSpan f) :=
    Stmt.mapAllSpans_eq f program
  obtain ⟨after, hafter, hrun⟩ := Program.run_mirrored limit program scope
    (Store.mapSpans_mirrored f (program.run limit scope store).2 store)
    (Renaming.ofTokens_fits (Token.mapSpan f) _)
  rw [hprogram, Answer.mapSpans_eq f (program.run limit scope store).2, ← hafter.eq_mapSpans]
  exact hrun

end MonkeyLang
