import MonkeyLang.Proofs.Evaluation.Mirror
import MonkeyLang.Proofs.Rendering.Spelled

namespace MonkeyLang

/-- The same outcome, up to what cannot be told apart by printing it. -/
inductive Answer.Alike : Answer → Answer → Prop where
  | value {a b : Value} (h : a.Alike b) : Alike (.value a) (.value b)
  | none : Alike .none .none
  | tooDeep : Alike .tooDeep .tooDeep

/-- The same names are bound, to values that are alike. -/
def Scope.Alike (a b : Scope) : Prop :=
  ∀ name, Option.Rel Value.Alike (a.find? name) (b.find? name)

theorem Answer.alike_of_renamed {r r' : Renaming} {a b : Answer}
    (h : a.renamed r = b.renamed r') : a.Alike b := by
  cases a <;> cases b <;> simp only [renamed, value.injEq, reduceCtorEq] at h
  · exact .value (Value.alike_of_renamed h)
  · exact .none
  · exact .tooDeep

theorem Scope.alike_of_renamed {r r' : Renaming} {a b : Scope} (h : a.renamed r = b.renamed r') :
    a.Alike b := by
  intro name
  have hfound : (a.find? name).map (Value.renamed r) = (b.find? name).map (Value.renamed r') := by
    rw [← find_renamed, h, find_renamed]
  revert hfound
  generalize a.find? name = x
  generalize b.find? name = y
  intro hfound
  cases x <;> cases y <;> simp only [Option.map_some, Option.map_none, Option.some.injEq,
    reduceCtorEq] at hfound
  · exact .none
  · exact .some (Value.alike_of_renamed hfound)

/-- Before anything is bound there is nothing to rename. -/
theorem Store.fresh_mirrored (token : Token → Token) (last : Store) :
    fresh.2.Mirrored (.ofTokens token last) fresh.2 where
  identities := fun _ _ => rfl
  scopes := fun _ _ => rfl
  found := fun id => by
    cases id with
    | zero => rfl
    | succ id => rfl

/-- A run does not remove the scope that it starts in. -/
theorem Program.run_root (p : Program) (limit : Nat) :
    ∃ root, (p.run limit Store.fresh.1 Store.fresh.2).2.scopes[Store.fresh.1]? = some root := by
  have hmirrors := Eval.mirrors_runProgram (Eval.invoke_mirrors (.ofTokens id Store.empty) limit)
    Store.fresh.1 p
  have hgrows := (hmirrors.grows Store.fresh.2).scopes
  rw [run_store]
  exact ⟨_, Array.getElem?_eq_getElem (Nat.lt_of_lt_of_le (by decide) hgrows)⟩

/-- What a run comes to shows in the run without tokens. -/
theorem Program.run_withoutTokens (p : Program) (limit : Nat) :
    ∃ r root after, (p.run limit Store.fresh.1 Store.fresh.2).2.scopes[Store.fresh.1]? = some root ∧
      after.scopes[Store.fresh.1]? = some (root.renamed r) ∧
      p.withoutTokens.run limit Store.fresh.1 Store.fresh.2 =
        ((p.run limit Store.fresh.1 Store.fresh.2).1.renamed r, after) := by
  have hstart := Store.fresh_mirrored (fun _ => Token.erased)
    (p.run limit Store.fresh.1 Store.fresh.2).2
  obtain ⟨after, hafter, hrun⟩ := Program.run_mirrored limit p Store.fresh.1 hstart
    (Renaming.ofTokens_fits _ _)
  obtain ⟨root, hroot⟩ := p.run_root limit
  have hfound := hafter.found Store.fresh.1
  rw [hroot] at hfound
  rw [withoutTokens_eq]
  exact ⟨_, root, after, hroot, hfound, hrun⟩

/-- Programs that differ in their tokens alone have the same outcome, and bind the same. -/
theorem Program.run_alike {p q : Program} (h : p.withoutTokens = q.withoutTokens) (limit : Nat) :
    (p.run limit Store.fresh.1 Store.fresh.2).1.Alike
        (q.run limit Store.fresh.1 Store.fresh.2).1 ∧
      ∃ a b, (p.run limit Store.fresh.1 Store.fresh.2).2.scopes[Store.fresh.1]? = some a ∧
        (q.run limit Store.fresh.1 Store.fresh.2).2.scopes[Store.fresh.1]? = some b ∧
          a.Alike b := by
  obtain ⟨r, a, after, ha, hroot, hp⟩ := p.run_withoutTokens limit
  obtain ⟨r', b, after', hb, hroot', hq⟩ := q.run_withoutTokens limit
  rw [h, hq, Prod.mk.injEq] at hp
  rw [hp.2, hroot, Option.some.injEq] at hroot'
  exact ⟨Answer.alike_of_renamed hp.1.symm, a, b, ha, hb, Scope.alike_of_renamed hroot'⟩

/-- The canonical text of a program is free of errors, and the program read from it has the same
outcome as the program and binds the same names to values that are alike. -/
theorem canonical_text_meaning (source : String) (limit : Nat) :
    let program := (Reading.ofSource source).program
    let reading := Reading.ofSource program.text
    let run := program.run limit Store.fresh.1 Store.fresh.2
    let rerun := reading.program.run limit Store.fresh.1 Store.fresh.2
    reading.errors = [] ∧ run.1.Alike rerun.1 ∧
      ∃ a b, run.2.scopes[Store.fresh.1]? = some a ∧ rerun.2.scopes[Store.fresh.1]? = some b ∧
        a.Alike b := by
  obtain ⟨herrors, hprogram⟩ := reading_of_text _ (reading_wellFormed source)
  have halike := Program.run_alike hprogram.symm limit
  dsimp only
  exact ⟨herrors, halike⟩

end MonkeyLang
