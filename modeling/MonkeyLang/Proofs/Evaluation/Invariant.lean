import MonkeyLang.Proofs.Evaluation.Moments

namespace MonkeyLang

open Eval

theorem Scope.mem_bind {scope : Scope} {name : String} {value : Value} {binding : String × Value}
    (h : binding ∈ (scope.bind name value).bindings) :
    binding = (name, value) ∨ binding ∈ scope.bindings := by
  rcases List.mem_cons.mp h with h | h
  · exact .inl h
  · exact .inr (List.mem_filter.mp h).1

namespace Store

variable {store : Store} {scope id : ScopeId} {name : String} {value : Value} {found : Scope}

theorem bound_of_access (h : store.access scope name = some value) :
    ∃ id ∈ store.chain scope, ∃ found, store.scopes[id]? = some found ∧
      (name, value) ∈ found.bindings := by
  obtain ⟨id, hid, hb⟩ := List.exists_of_findSome?_eq_some h
  obtain ⟨found, hf, hv⟩ := Option.bind_eq_some_iff.mp hb
  obtain ⟨before, behind, heq, -⟩ := List.lookup_eq_some_iff.mp hv
  exact ⟨id, hid, found, hf, by simp [heq]⟩

theorem of_newScope {parent : ScopeId} (h : (store.newScope parent).2.scopes[id]? = some found) :
    store.scopes[id]? = some found ∨ found = ⟨[], some parent⟩ := by
  by_cases he : id = store.scopes.size
  · right
    simpa [newScope, he, eq_comm] using h
  · left
    simpa [newScope, Array.getElem?_push, he] using h

theorem of_declare (h : (store.declare scope name value).scopes[id]? = some found) :
    ∃ before, store.scopes[id]? = some before ∧
      (found = before ∨ found = before.bind name value) := by
  rw [declare, Array.getElem?_modify] at h
  split at h
  · obtain ⟨before, hb, rfl⟩ := Option.map_eq_some_iff.mp h
    exact ⟨before, hb, .inr rfl⟩
  · exact ⟨found, h, .inl rfl⟩

end Store

/-- Values without parts. -/
def Value.Simple : Value → Prop
  | .integer _ | .boolean _ | .string _ | .null | .builtin _ => True
  | .array .. | .returned _ | .error _ | .function .. => False

/-- Values without parts have the property, and so have the items of arrays that have it. -/
structure Value.Inherited (P : Value → Prop) : Prop where
  simple : ∀ {v : Value}, v.Simple → P v
  item : ∀ {identity items}, P (.array identity items) → ∀ v ∈ items, P v

namespace Value.Inherited

variable {P : Value → Prop} (p : Inherited P) {v : Value}
include p

theorem of_prefixOp {op : PrefixOp} {right : Value} (h : op.apply right = .ok v) : P v := by
  cases op with
  | not =>
    cases h
    exact p.simple trivial
  | negate =>
    cases right with
    | integer a =>
      cases h
      exact p.simple trivial
    | _ => cases h

theorem of_onIntegers {op : InfixOp} {a b : Int64} (h : op.onIntegers a b = .ok v) : P v := by
  cases op with
  | divide =>
    rw [InfixOp.onIntegers] at h
    split at h
    · cases h
    · cases h
      exact p.simple trivial
  | _ =>
    cases h
    exact p.simple trivial

theorem of_onOthers {op : InfixOp} {left right : Value} (h : op.onOthers left right = .ok v) :
    P v := by
  unfold InfixOp.onOthers at h
  split at h
  · cases h
    exact p.simple trivial
  · split at h
    · cases h
    · split at h
      · cases h
      · split at h
        · cases h
          exact p.simple trivial
        · cases h
          exact p.simple trivial
        · cases h

theorem of_infixOp {op : InfixOp} {left right : Value} (h : op.apply left right = .ok v) : P v := by
  unfold InfixOp.apply at h
  split at h
  · cases h
    exact p.simple trivial
  · cases h
    exact p.simple trivial
  · split at h
    · exact p.of_onIntegers h
    · exact p.of_onOthers h

/-- An item of an array of such values, or nothing. -/
theorem of_getD {items : List Value} (h : ∀ v ∈ items, P v) {item : Option Value}
    (hi : ∀ v ∈ item, v ∈ items) : P (item.getD .null) := by
  cases item with
  | none => exact p.simple trivial
  | some v => exact h v (hi v rfl)

theorem of_index {left position : Value} (hl : P left) (h : left.atIndex position = .ok v) :
    P v := by
  unfold Value.atIndex at h
  split at h
  · next identity items i =>
    cases h
    split
    · exact p.simple trivial
    · rw [List.getD_eq_getElem?_getD]
      exact p.of_getD (p.item hl) fun v hv => List.mem_of_getElem? hv
  · cases h

theorem of_byte (text : Option Char) : P ((text.map Builtin.ofByteIn).getD .null) := by
  cases text with
  | none => exact p.simple trivial
  | some c => exact p.simple trivial

theorem of_length {argument : Value} (h : Builtin.length argument = .ok v) : P v := by
  unfold Builtin.length at h
  split at h
  · cases h
    exact p.simple trivial
  · cases h
    exact p.simple trivial
  · cases h

theorem of_firstOf {argument : Value} (ha : P argument) (h : Builtin.firstOf argument = .ok v) :
    P v := by
  unfold Builtin.firstOf at h
  split at h
  · cases h
    exact p.of_byte _
  · cases h
    exact p.of_getD (p.item ha) fun v hv => List.mem_of_mem_head? hv
  · cases h

theorem of_lastOf {argument : Value} (ha : P argument) (h : Builtin.lastOf argument = .ok v) :
    P v := by
  unfold Builtin.lastOf at h
  split at h
  · cases h
    exact p.of_byte _
  · cases h
    exact p.of_getD (p.item ha) fun v hv => List.mem_of_getLast? hv
  · cases h

theorem of_pushed {arguments items : List Value} (ha : ∀ v ∈ arguments, P v)
    (h : Builtin.pushed arguments = .ok items) : ∀ v ∈ items, P v := by
  unfold Builtin.pushed at h
  split at h
  · next identity before v =>
    cases h
    intro item hi
    rcases List.mem_append.mp hi with hi | hi
    · exact p.item (ha (.array identity before) (by simp)) item hi
    · exact ha item (List.mem_cons_of_mem _ hi)
  · cases h
  · cases h

end Value.Inherited

theorem Builtin.oneArgument_eq_ok {arguments : List Value} {f : Value → Except RuntimeError Value}
    {v : Value} (h : (oneArgument arguments >>= f) = .ok v) :
    ∃ argument ∈ arguments, f argument = .ok v := by
  cases arguments with
  | nil => cases h
  | cons argument rest =>
    cases rest with
    | nil => exact ⟨argument, by simp, h⟩
    | cons _ _ => cases h

/-- What can be said of stores, scopes and values as far as a world has come, and that the basic
steps keep it. -/
structure Invariant (W : Type) where
  le : W → W → Prop
  store : W → Store → Prop
  scope : W → ScopeId → Prop
  value : W → Value → Prop
  refl : ∀ w, le w w
  trans : ∀ {a b c}, le a b → le b c → le a c
  scope_mono : ∀ {w w' id}, le w w' → scope w id → scope w' id
  value_mono : ∀ {w w' v}, le w w' → value w v → value w' v
  simple : ∀ {w} {v : Value}, v.Simple → value w v
  item : ∀ {w identity items}, value w (.array identity items) → ∀ v ∈ items, value w v
  captured : ∀ {w identity} {closure : Closure}, value w (.function identity closure) →
    scope w closure.scope
  access : ∀ {w s id name v}, store w s → scope w id → s.access id name = some v → value w v
  declare : ∀ {w s id v} name, store w s → scope w id → value w v → store w (s.declare id name v)
  newScope : ∀ {w s parent}, store w s → scope w parent →
    ∃ w', le w w' ∧ store w' (s.newScope parent).2 ∧ scope w' (s.newScope parent).1
  newArray : ∀ {w s items}, store w s → (∀ v ∈ items, value w v) →
    ∃ w', le w w' ∧ store w' (s.newArray items).2 ∧ value w' (s.newArray items).1
  newFunction : ∀ {w s} {closure : Closure}, store w s → scope w closure.scope →
    ∃ w', le w w' ∧ store w' (s.newFunction closure).2 ∧ value w' (s.newFunction closure).1

namespace Invariant

variable {W : Type} {α β : Type} (I : Invariant W) {w w' : W}

def values (w : W) (vs : List Value) : Prop := ∀ v ∈ vs, I.value w v

/-- A `return` on its way out has such a value. -/
def exit (w : W) : Exit → Prop
  | .returned v => I.value w v
  | .failed _ => True
  | .tooDeep => True

/-- However the run ends, the invariant holds in a world that has grown, and so does `ok` of its
value. -/
def Leaves (w : W) (x : Eval α) (ok : W → α → Prop) (store : Store) : Prop :=
  I.store w store →
    match EStateM.run x store with
    | .ok a after => ∃ w', I.le w w' ∧ I.store w' after ∧ ok w' a
    | .error e after => ∃ w', I.le w w' ∧ I.store w' after ∧ I.exit w' e

variable {I} {x : Eval α} {ok : W → α → Prop} {store : Store}

theorem inherited (I : Invariant W) (w : W) : Value.Inherited (I.value w) := ⟨I.simple, I.item⟩

theorem values_mono {vs : List Value} (hw : I.le w w') (h : I.values w vs) : I.values w' vs :=
  fun v hv => I.value_mono hw (h v hv)

theorem leaves_pure {a : α} (ha : ok w a) : I.Leaves w (pure a) ok store :=
  fun hs => ⟨w, I.refl w, hs, ha⟩

theorem leaves_fail (error : RuntimeError) : I.Leaves w (fail error : Eval α) ok store :=
  fun hs => ⟨w, I.refl w, hs, trivial⟩

theorem Leaves.bind {f : α → Eval β} {ok' : W → β → Prop} (hx : I.Leaves w x ok store)
    (hf : ∀ a after w', I.le w w' → ok w' a → I.Leaves w' (f a) ok' after) :
    I.Leaves w (x >>= f) ok' store := by
  intro hs
  have h := hx hs
  rw [EStateM.run_bind]
  cases hr : EStateM.run x store with
  | ok a middle =>
    rw [hr] at h
    obtain ⟨w', hw, hmiddle, ha⟩ := h
    have h' := hf a middle w' hw ha hmiddle
    dsimp only
    cases hr' : EStateM.run (f a) middle with
    | ok b after =>
      rw [hr'] at h'
      obtain ⟨w'', hw', hafter, hb⟩ := h'
      exact ⟨w'', I.trans hw hw', hafter, hb⟩
    | error e after =>
      rw [hr'] at h'
      obtain ⟨w'', hw', hafter, he⟩ := h'
      exact ⟨w'', I.trans hw hw', hafter, he⟩
  | error e after =>
    rw [hr] at h
    exact h

/-- The invariant holds of the store that is left behind. -/
theorem Leaves.final (h : I.Leaves w x ok store) (hs : I.store w store) :
    ∃ w', I.le w w' ∧ I.store w' (x.final store) := by
  have hx := h hs
  cases hr : EStateM.run x store with
  | ok a after =>
    rw [hr] at hx
    rw [final_of_ok hr]
    exact hx.imp fun _ h => ⟨h.1, h.2.1⟩
  | error e after =>
    rw [hr] at hx
    rw [final_of_error hr]
    exact hx.imp fun _ h => ⟨h.1, h.2.1⟩

/-- A single value as a list. -/
theorem Leaves.one {x : Eval Value} (hx : I.Leaves w x I.value store) :
    I.Leaves w (do return [← x]) I.values store :=
  hx.bind fun _ _ _ _ hv => leaves_pure (List.forall_mem_singleton.mpr hv)

theorem leaves_ofExcept {result : Except RuntimeError α} (h : ∀ a, result = .ok a → ok w a) :
    I.Leaves w (ofExcept result) ok store := by
  cases result with
  | ok a => exact leaves_pure (h a rfl)
  | error error => exact leaves_fail error

theorem leaves_declare {scope : ScopeId} (hs : I.scope w scope) (name : String) {v : Value}
    (hv : I.value w v) : I.Leaves w (Eval.declare scope name v) (fun _ _ => True) store :=
  fun hstore => ⟨w, I.refl w, I.declare name hstore hs hv, trivial⟩

theorem leaves_of_run {y : Eval α} (h : EStateM.run x store = EStateM.run y store)
    (hy : I.Leaves w y ok store) : I.Leaves w x ok store := by
  unfold Leaves at hy ⊢
  rwa [h]

theorem leaves_resolve {scope : ScopeId} (hs : I.scope w scope) (name : String) :
    I.Leaves w (resolve scope name) I.value store := by
  intro hstore
  cases ha : store.access scope name with
  | some v =>
    have hrun : EStateM.run (resolve scope name) store = EStateM.run (pure v) store := by
      simp [resolve, ha]
    exact leaves_of_run hrun (leaves_pure (I.access hstore hs ha)) hstore
  | none =>
    cases hb : Builtin.ofName? name with
    | some builtin =>
      have hrun : EStateM.run (resolve scope name) store =
          EStateM.run (pure (.builtin builtin)) store := by simp [resolve, ha, hb]
      exact leaves_of_run hrun (leaves_pure (I.simple trivial)) hstore
    | none =>
      have hrun : EStateM.run (resolve scope name) store =
          EStateM.run (fail (.unknownName name)) store := by simp [resolve, ha, hb]
      exact leaves_of_run hrun (leaves_fail _) hstore

theorem leaves_callBuiltin (builtin : Builtin) {arguments : List Value}
    (ha : I.values w arguments) :
    I.Leaves w (callBuiltin builtin arguments) I.value store := by
  cases builtin with
  | len =>
    apply leaves_ofExcept
    intro v h
    obtain ⟨argument, -, h⟩ := Builtin.oneArgument_eq_ok h
    exact (I.inherited w).of_length h
  | first =>
    apply leaves_ofExcept
    intro v h
    obtain ⟨argument, hm, h⟩ := Builtin.oneArgument_eq_ok h
    exact (I.inherited w).of_firstOf (ha argument hm) h
  | last =>
    apply leaves_ofExcept
    intro v h
    obtain ⟨argument, hm, h⟩ := Builtin.oneArgument_eq_ok h
    exact (I.inherited w).of_lastOf (ha argument hm) h
  | push =>
    have hpushed : I.Leaves w (ofExcept (Builtin.pushed arguments)) I.values store :=
      leaves_ofExcept fun items h => (I.inherited w).of_pushed ha h
    exact hpushed.bind fun items after w' _ h hs => I.newArray hs h

/-- A way to call functions that keeps the invariant. -/
def CallLeaves (I : Invariant W) (call : Call) : Prop :=
  ∀ w closure arguments store, I.scope w closure.scope → I.values w arguments →
    I.Leaves w (call closure arguments) I.value store

theorem leaves_apply {call : Call} (hcall : I.CallLeaves call) {callee : Value}
    {arguments : List Value} (hc : I.value w callee) (ha : I.values w arguments) :
    I.Leaves w (apply call callee arguments) I.value store := by
  unfold Eval.apply
  split
  · exact hcall w _ _ _ (I.captured hc) ha
  · exact leaves_callBuiltin _ ha
  · exact leaves_fail _

theorem leaves_declareAll {scope : ScopeId} : ∀ (parameters : List Identifier)
    (arguments : List Value) (w : W) (store : Store), I.scope w scope → I.values w arguments →
    I.Leaves w (declareAll scope parameters arguments) (fun _ _ => True) store
  | [], _, _, _, _, _ => leaves_pure trivial
  | _ :: _, [], _, _, _, _ => leaves_pure trivial
  | parameter :: parameters, argument :: arguments, w, store, hs, ha => by
    obtain ⟨hfirst, hrest⟩ := List.forall_mem_cons.mp ha
    rw [declareAll]
    exact (leaves_declare hs parameter.name hfirst).bind fun _ after w' hw _ =>
      leaves_declareAll parameters arguments w' after (I.scope_mono hw hs) (values_mono hw hrest)

/-- What an evaluation in a scope may rely on. -/
structure Setting (I : Invariant W) (call : Call) (w : W) (scope : ScopeId) : Prop where
  call : I.CallLeaves call
  scope : I.scope w scope

namespace Setting

variable {call : Call} {scope : ScopeId}

theorem mono (d : I.Setting call w scope) (hw : I.le w w') : I.Setting call w' scope :=
  ⟨d.call, I.scope_mono hw d.scope⟩

mutual

theorem evaluate : ∀ (e : Expr) {w : W} (_ : I.Setting call w scope) (store : Store),
    I.Leaves w (Eval.evaluate call scope e) I.value store
  | .name x, _, d, _ => by
    rw [Eval.evaluate]
    exact leaves_resolve d.scope x.name
  | .integer _ value, _, _, _ => by
    rw [Eval.evaluate]
    exact leaves_pure (I.simple trivial)
  | .boolean _ value, _, _, _ => by
    rw [Eval.evaluate]
    exact leaves_pure (I.simple trivial)
  | .string _ value, _, _, _ => by
    rw [Eval.evaluate]
    exact leaves_pure (I.simple trivial)
  | .array _ items, _, d, store => by
    rw [Eval.evaluate]
    exact (evaluateAll items d store).bind fun values after _ _ hv hs => I.newArray hs hv
  | .unary _ op right, _, d, store => by
    rw [Eval.evaluate]
    exact (evaluate right d store).bind fun value after _ _ _ =>
      leaves_ofExcept fun result h => (I.inherited _).of_prefixOp h
  | .binary _ left op right, _, d, store => by
    rw [Eval.evaluate]
    refine (evaluate left d store).bind fun a middle _ hw _ => ?_
    exact (evaluate right (d.mono hw) middle).bind fun b after _ _ _ =>
      leaves_ofExcept fun result h => (I.inherited _).of_infixOp h
  | .conditional _ condition consequence none, _, d, store => by
    rw [Eval.evaluate]
    refine (evaluate condition d store).bind fun value after _ hw _ => ?_
    split
    · exact runBlock consequence (d.mono hw) after
    · exact leaves_pure (I.simple trivial)
  | .conditional _ condition consequence (some alternative), _, d, store => by
    rw [Eval.evaluate]
    refine (evaluate condition d store).bind fun value after _ hw _ => ?_
    split
    · exact runBlock consequence (d.mono hw) after
    · exact runBlock alternative (d.mono hw) after
  | .function _ parameters body, _, d, _ => by
    rw [Eval.evaluate]
    exact fun hs => I.newFunction hs d.scope
  | .call _ callee arguments, _, d, store => by
    rw [Eval.evaluate]
    refine (evaluate callee d store).bind fun f middle _ hw hf => ?_
    exact (evaluateAll arguments (d.mono hw) middle).bind fun values after _ hw' hv =>
      leaves_apply d.call (I.value_mono hw' hf) hv
  | .index _ left position, _, d, store => by
    rw [Eval.evaluate]
    refine (evaluate left d store).bind fun a middle _ hw ha => ?_
    exact (evaluate position (d.mono hw) middle).bind fun i after _ hw' _ =>
      leaves_ofExcept fun result h => (I.inherited _).of_index (I.value_mono hw' ha) h

theorem evaluateAll : ∀ (es : List Expr) {w : W} (_ : I.Setting call w scope) (store : Store),
    I.Leaves w (Eval.evaluateAll call scope es) I.values store
  | [], _, _, _ => by
    rw [Eval.evaluateAll]
    exact leaves_pure (List.forall_mem_nil _)
  | e :: es, _, d, store => by
    rw [Eval.evaluateAll]
    refine (evaluate e d store).bind fun value middle _ hw hv => ?_
    exact (evaluateAll es (d.mono hw) middle).bind fun values after _ hw' hvs =>
      leaves_pure (List.forall_mem_cons.mpr ⟨I.value_mono hw' hv, hvs⟩)

theorem run : ∀ (s : Stmt) {w : W} (_ : I.Setting call w scope) (store : Store),
    I.Leaves w (Eval.run call scope s) I.value store
  | .letName _ name value, _, d, store => by
    rw [Eval.run]
    refine (evaluate value d store).bind fun v after _ hw hv => ?_
    exact (leaves_declare (d.mono hw).scope name.name hv).bind fun _ _ _ _ _ =>
      leaves_pure (I.simple trivial)
  | .returnValue _ value, _, d, store => by
    rw [Eval.run]
    exact (evaluate value d store).bind fun v after w' _ hv hs => ⟨w', I.refl w', hs, hv⟩
  | .expression _ value, _, d, store => by
    rw [Eval.run]
    exact evaluate value d store
  | .block body, _, d, store => by
    rw [Eval.run]
    exact runBlock body d store

theorem runAll : ∀ (ss : List Stmt) {w : W} (_ : I.Setting call w scope) (store : Store),
    I.Leaves w (Eval.runAll call scope ss) I.value store
  | [], _, _, _ => by
    rw [Eval.runAll]
    exact leaves_pure (I.simple trivial)
  | [s], _, d, store => by
    rw [Eval.runAll]
    exact run s d store
  | s :: next :: rest, _, d, store => by
    rw [Eval.runAll]
    exact (run s d store).bind fun _ after _ hw _ => runAll (next :: rest) (d.mono hw) after

theorem runBlock : ∀ (b : Block) {w : W} (_ : I.Setting call w scope) (store : Store),
    I.Leaves w (Eval.runBlock call scope b) I.value store
  | .mk _ statements, _, d, store => by
    rw [Eval.runBlock]
    exact runAll statements d store

end

theorem runProgram : ∀ (program : Program) {w : W} (_ : I.Setting call w scope) (store : Store),
    I.Leaves w (Eval.runProgram call scope program) (fun w value => I.values w value.toList) store
  | [], _, _, _ => by
    rw [Eval.runProgram]
    exact leaves_pure (List.forall_mem_nil _)
  | [s], _, d, store => by
    rw [Eval.runProgram]
    refine (run s d store).bind fun value after _ _ hv => leaves_pure ?_
    split
    · exact List.forall_mem_nil _
    · exact List.forall_mem_singleton.mpr hv
  | s :: next :: rest, _, d, store => by
    rw [Eval.runProgram]
    exact (run s d store).bind fun _ after _ hw _ => runProgram (next :: rest) (d.mono hw) after

end Setting

theorem leaves_catchReturn {body : Eval Value} (h : I.Leaves w body I.value store) :
    I.Leaves w (catchReturn body) I.value store := by
  intro hs
  have hb := h hs
  rw [run_catchReturn]
  cases hr : EStateM.run body store with
  | ok value after => simpa [hr] using hb
  | error e after =>
    rw [hr] at hb
    cases e with
    | returned value => exact hb
    | failed error => exact hb
    | tooDeep => exact hb

/-- Calls keep the invariant, however deep they go. -/
theorem invoke_leaves (I : Invariant W) (n : Nat) : I.CallLeaves (invoke n) := by
  induction n with
  | zero => exact fun w _ _ _ _ _ hs => ⟨w, I.refl w, hs, trivial⟩
  | succ n ih =>
    intro w closure arguments store hscope ha
    rw [invoke]
    split
    · have hnew : I.Leaves w (Eval.newScope closure.scope) I.scope store :=
        fun hs => I.newScope hs hscope
      refine hnew.bind fun scope entered w' hw hin => ?_
      refine (leaves_declareAll _ _ w' entered hin (values_mono hw ha)).bind
        fun _ bound w'' hw' _ => ?_
      have d : I.Setting (invoke n) w'' scope := ⟨ih, I.scope_mono hw' hin⟩
      exact leaves_catchReturn (Setting.runBlock closure.body d bound)
    · exact leaves_fail _

section
variable {limit : Nat} {scope : ScopeId} {middle after : Store} {task part : Task}
  {vs : List Value}

theorem leaves_task (limit : Nat) (hs : I.scope w scope) (ht : I.values w task.values) :
    I.Leaves w (task.run limit scope) I.values store := by
  have d : I.Setting (invoke limit) w scope := ⟨invoke_leaves I limit, hs⟩
  cases task with
  | expression e => exact (Setting.evaluate e d store).one
  | expressions es => exact Setting.evaluateAll es d store
  | statement s => exact (Setting.run s d store).one
  | statements ss => exact (Setting.runAll ss d store).one
  | program p => exact (Setting.runProgram p d store).bind fun _ _ _ _ hv => leaves_pure hv
  | application callee arguments =>
    obtain ⟨hc, ha⟩ := List.forall_mem_cons.mp ht
    exact (leaves_apply d.call hc ha).one
  | binding parameters arguments =>
    exact (leaves_declareAll parameters arguments w store hs ht).bind fun _ _ _ _ _ =>
      leaves_pure (List.forall_mem_nil _)

theorem of_ends (h : task.Ends limit scope store vs after) (hstore : I.store w store)
    (hs : I.scope w scope) (ht : I.values w task.values) :
    ∃ w', I.le w w' ∧ I.store w' after ∧ I.values w' vs := by
  have hl := leaves_task limit hs ht hstore
  rw [h] at hl
  exact hl

/-- The parts of a task come to their turn with the invariant, too. -/
theorem of_part (h : task.Part limit scope store part middle) (hstore : I.store w store)
    (hs : I.scope w scope) (ht : I.values w task.values) :
    ∃ w', I.le w w' ∧ I.store w' middle ∧ I.values w' part.values := by
  have hnone : ∀ {w : W}, I.values w [] := List.forall_mem_nil _
  cases h with
  | items | operand | left | condition | callee | indexed | firstItem | letName | returnValue
  | alone | block | firstStatement | firstOfProgram => exact ⟨w, I.refl w, hstore, hnone⟩
  | right h | consequence h _ | alternative h _ | arguments h | position h | otherItems h
  | otherStatements h | othersOfProgram h =>
    obtain ⟨w', hw, hmiddle, -⟩ := of_ends h hstore hs hnone
    exact ⟨w', hw, hmiddle, hnone⟩
  | application he hes =>
    obtain ⟨w', hw, hmiddle, hcallee⟩ := of_ends he hstore hs hnone
    obtain ⟨w'', hw', hafter, harguments⟩ := of_ends hes hmiddle (I.scope_mono hw hs) hnone
    refine ⟨w'', I.trans hw hw', hafter, List.forall_mem_cons.mpr ⟨?_, harguments⟩⟩
    exact I.value_mono hw' (hcallee _ (List.mem_singleton_self _))
  | otherParameters =>
    obtain ⟨hv, hvs⟩ := List.forall_mem_cons.mp ht
    exact ⟨w, I.refl w, I.declare _ hstore hs hv, hvs⟩

end

/-- The invariant holds of all that the moment is about. -/
structure Sound (I : Invariant W) (w : W) (moment : Moment) : Prop where
  store : I.store w moment.store
  scope : I.scope w moment.scope
  values : I.values w moment.task.values

variable {moment later : Moment}

theorem Sound.does (hm : I.Sound w moment) (h : moment.Does later) :
    ∃ w', I.le w w' ∧ I.Sound w' later := by
  obtain ⟨hstore, hs, hvalues⟩ := hm
  cases h with
  | part h =>
    obtain ⟨w', hw, hmiddle, hpart⟩ := of_part h hstore hs hvalues
    exact ⟨w', hw, hmiddle, I.scope_mono hw hs, hpart⟩
  | parameters hl =>
    obtain ⟨hf, ha⟩ := List.forall_mem_cons.mp hvalues
    obtain ⟨w', hw, hnew, hscope⟩ := I.newScope hstore (I.captured hf)
    exact ⟨w', hw, hnew, hscope, values_mono hw ha⟩
  | body hl hb =>
    obtain ⟨hf, ha⟩ := List.forall_mem_cons.mp hvalues
    obtain ⟨w', hw, hnew, hscope⟩ := I.newScope hstore (I.captured hf)
    obtain ⟨w'', hw', hbound, -⟩ := of_ends hb hnew hscope (values_mono hw ha)
    exact ⟨w'', I.trans hw hw', hbound, I.scope_mono hw' hscope, List.forall_mem_nil _⟩

theorem Sound.leads (hm : I.Sound w moment) (h : moment.Leads later) :
    ∃ w', I.le w w' ∧ I.Sound w' later := by
  induction h with
  | refl => exact ⟨w, I.refl w, hm⟩
  | tail _ hd ih =>
    obtain ⟨w', hw, hmiddle⟩ := ih
    obtain ⟨w'', hw', hlater⟩ := hmiddle.does hd
    exact ⟨w'', I.trans hw hw', hlater⟩

end Invariant

end MonkeyLang
