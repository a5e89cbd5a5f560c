import MonkeyLang.Store.Basic
import MonkeyLang.Text.Outline

namespace MonkeyLang

open Text (Outline)

/-- The names in order, and the scope around this one. -/
def Scope.outline (scope : Scope) (parent : Outline) : Outline :=
  .record "SharedEnvironment"
    [.field "names" (.list ((scope.names.mergeSort fun a b => decide (a ≤ b)).map .quoted)),
      .field "parent" parent]

namespace Store

/-- Scopes inside one another, the innermost first. -/
def chainOutline (store : Store) : List ScopeId → Outline
  | [] => .leaf "None"
  | id :: outer =>
    let scope := store.scopes[id]?.getD ⟨[], none⟩
    .tuple "Some" [scope.outline (chainOutline store outer)]

def outline (store : Store) (id : ScopeId) : Outline :=
  let scope := store.scopes[id]?.getD ⟨[], none⟩
  scope.outline (store.chainOutline (store.chain id).tail)

end Store

end MonkeyLang
