import MonkeyLang.Proofs.Evaluation.Reached

namespace MonkeyLang

open Eval

/-- The first value is the second or stands inside it. -/
inductive Value.Inside : Value → Value → Prop where
  | self (value : Value) : Inside value value
  | item {value outer : Value} {identity : Nat} {items : List Value} (hm : outer ∈ items)
    (hv : Inside value outer) : Inside value (.array identity items)
  | returned {value outer : Value} (hv : Inside value outer) : Inside value (.returned outer)

def Store.Binds (store : Store) (value : Value) : Prop :=
  ∃ (id : ScopeId) (found : Scope), store.scopes[id]? = some found ∧
    ∃ binding ∈ found.bindings, binding.2 = value

/-- Values in hand, and a store. -/
structure Snapshot where
  hand : List Value
  store : Store

/-- The value exists: it stands inside one that is in hand or bound in the store. -/
def Snapshot.Has (snapshot : Snapshot) (value : Value) : Prop :=
  ∃ outer, (outer ∈ snapshot.hand ∨ snapshot.store.Binds outer) ∧ value.Inside outer

/-- The value on its way out. -/
def Exit.values : Exit → List Value
  | .returned value => [value]
  | .failed _ | .tooDeep => []

namespace Moment

/-- The later moment comes while the task of the first is done, and these values have to wait for
it: those that the task is about, and the values of parts that are done with. -/
inductive Passes : Moment → List Value → Moment → Prop where
  | does {moment later : Moment} (h : moment.Does later) : Passes moment moment.task.values later
  | right {limit : Nat} {scope : ScopeId} {store middle : Store} {token : Token} {a b : Expr}
    {op : InfixOp} {value : Value}
    (ha : Task.Ends limit scope store (.expression a) [value] middle) :
    Passes ⟨limit, scope, store, .expression (.binary token a op b)⟩ [value]
      ⟨limit, scope, middle, .expression b⟩
  | arguments {limit : Nat} {scope : ScopeId} {store middle : Store} {token : Token} {e : Expr}
    {es : List Expr} {value : Value}
    (he : Task.Ends limit scope store (.expression e) [value] middle) :
    Passes ⟨limit, scope, store, .expression (.call token e es)⟩ [value]
      ⟨limit, scope, middle, .expressions es⟩
  | position {limit : Nat} {scope : ScopeId} {store middle : Store} {token : Token} {a i : Expr}
    {value : Value} (ha : Task.Ends limit scope store (.expression a) [value] middle) :
    Passes ⟨limit, scope, store, .expression (.index token a i)⟩ [value]
      ⟨limit, scope, middle, .expression i⟩
  | otherItems {limit : Nat} {scope : ScopeId} {store middle : Store} {e : Expr} {es : List Expr}
    {value : Value} (he : Task.Ends limit scope store (.expression e) [value] middle) :
    Passes ⟨limit, scope, store, .expressions (e :: es)⟩ [value]
      ⟨limit, scope, middle, .expressions es⟩
  | otherStatements {limit : Nat} {scope : ScopeId} {store middle : Store} {s : Stmt}
    {ss : List Stmt} {value : Value}
    (hs : Task.Ends limit scope store (.statement s) [value] middle) :
    Passes ⟨limit, scope, store, .statements (s :: ss)⟩ [value]
      ⟨limit, scope, middle, .statements ss⟩
  | othersOfProgram {limit : Nat} {scope : ScopeId} {store middle : Store} {s : Stmt}
    {ss : List Stmt} {value : Value}
    (hs : Task.Ends limit scope store (.statement s) [value] middle) :
    Passes ⟨limit, scope, store, .program (s :: ss)⟩ [value]
      ⟨limit, scope, middle, .program ss⟩

/-- The moment comes in the course of the first, and these values are waiting then. -/
inductive Course (start : Moment) : List Value → Moment → Prop where
  | start : Course start [] start
  | passes {held more : List Value} {moment later : Moment} (h : Course start held moment)
    (hp : moment.Passes more later) : Course start (more ++ held) later

/-- The task of the moment is about to be done, or done with, while these values are waiting. -/
inductive Shows (held : List Value) (moment : Moment) : Snapshot → Prop where
  | before : Shows held moment ⟨moment.task.values ++ held, moment.store⟩
  | behind {values : List Value} {after : Store} (h : moment.outcome = .ok values after) :
    Shows held moment ⟨values ++ moment.task.values ++ held, after⟩
  | stopped {exit : Exit} {after : Store} (h : moment.outcome = .error exit after) :
    Shows held moment ⟨exit.values ++ moment.task.values ++ held, after⟩

/-- The moment comes in the course of a request in a session that has met others before, with these
values waiting. -/
inductive Reached (held : List Value) (moment : Moment) : Prop where
  | intro {limit : Nat} {done : List Request} {request : Request} {start : Moment}
    (hb : (Session.start.performAll limit done).Begins limit request start)
    (hc : start.Course held moment)

end Moment

namespace Invariant

variable {W : Type} {I : Invariant W} {w : W} {moment later : Moment} {held more : List Value}

theorem values_append {vs us : List Value} (hv : I.values w vs) (hu : I.values w us) :
    I.values w (vs ++ us) := List.forall_mem_append.mpr ⟨hv, hu⟩

theorem Sound.passes (hm : I.Sound w moment) (h : moment.Passes more later) :
    ∃ w', I.le w w' ∧ I.Sound w' later ∧ I.values w' more := by
  have hnone : ∀ {w : W}, I.values w [] := List.forall_mem_nil _
  obtain ⟨hstore, hs, hvalues⟩ := hm
  cases h with
  | does h =>
    obtain ⟨w', hw, hlater⟩ := Sound.does ⟨hstore, hs, hvalues⟩ h
    exact ⟨w', hw, hlater, values_mono hw hvalues⟩
  | right h | arguments h | position h | otherItems h | otherStatements h | othersOfProgram h =>
    obtain ⟨w', hw, hmiddle, hvalue⟩ := of_ends h hstore hs hnone
    exact ⟨w', hw, ⟨hmiddle, I.scope_mono hw hs, hnone⟩, hvalue⟩

theorem Sound.course {start : Moment} (hm : I.Sound w start) (h : start.Course held moment) :
    ∃ w', I.Sound w' moment ∧ I.values w' held := by
  induction h with
  | start => exact ⟨w, hm, List.forall_mem_nil _⟩
  | passes _ hp ih =>
    obtain ⟨w', hmoment, hheld⟩ := ih
    obtain ⟨w'', hw, hlater, hmore⟩ := hmoment.passes hp
    exact ⟨w'', hlater, values_append hmore (values_mono hw hheld)⟩

/-- The invariant holds of all that exists at once. -/
theorem Sound.shows (hm : I.Sound w moment) (hheld : I.values w held) {snapshot : Snapshot}
    (h : moment.Shows held snapshot) :
    ∃ w', I.le w w' ∧ I.store w' snapshot.store ∧ I.values w' snapshot.hand := by
  have hl := leaves_task moment.limit hm.scope hm.values hm.store
  cases h with
  | before => exact ⟨w, I.refl w, hm.store, values_append hm.values hheld⟩
  | behind ho =>
    rw [← Moment.outcome, ho] at hl
    obtain ⟨w', hw, hafter, hvs⟩ := hl
    refine ⟨w', hw, hafter, values_append (values_append hvs ?_) (values_mono hw hheld)⟩
    exact values_mono hw hm.values
  | @stopped exit after ho =>
    rw [← Moment.outcome, ho] at hl
    obtain ⟨w', hw, hafter, hexit⟩ := hl
    have hvs : I.values w' exit.values := by
      cases exit with
      | returned value => exact List.forall_mem_singleton.mpr hexit
      | failed | tooDeep => exact List.forall_mem_nil _
    refine ⟨w', hw, hafter, values_append (values_append hvs ?_) (values_mono hw hheld)⟩
    exact values_mono hw hm.values

theorem perform {session : Session} (limit : Nat) (request : Request)
    (hstore : I.store w session.store) (hs : I.scope w session.scope) :
    ∃ w', I.le w w' ∧ I.store w' (session.perform limit request).2.store ∧
      (session.perform limit request).2.scope = session.scope := by
  cases ht : request.task? with
  | none =>
    obtain ⟨errors, he⟩ := session.perform_none limit ht
    rw [he]
    exact ⟨w, I.refl w, hstore, rfl⟩
  | some task =>
    have hvalues : I.values w task.values := by
      rw [request.task?_values ht]
      exact List.forall_mem_nil _
    have hl : I.Leaves w _ I.values session.store := leaves_task limit hs hvalues
    obtain ⟨w', hw, hafter⟩ := hl.final hstore
    rw [Session.perform_some ht]
    exact ⟨w', hw, hafter, rfl⟩

theorem performAll (limit : Nat) (requests : List Request) : ∀ {session : Session} {w : W},
    I.store w session.store → I.scope w session.scope →
    ∃ w', I.le w w' ∧ I.store w' (session.performAll limit requests).store ∧
      I.scope w' (session.performAll limit requests).scope := by
  induction requests with
  | nil => exact fun hstore hs => ⟨_, I.refl _, hstore, hs⟩
  | cons request requests ih =>
    intro session w hstore hs
    obtain ⟨w', hw, hafter, hscope⟩ := perform limit request hstore hs
    obtain ⟨w'', hw', hlast⟩ := ih hafter (hscope ▸ I.scope_mono hw hs)
    exact ⟨w'', I.trans hw hw', hlast⟩

/-- What holds of a fresh environment holds whenever something is done in it. -/
theorem sound_of_reached (hstore : I.store w Session.start.store)
    (hs : I.scope w Session.start.scope) (h : moment.Reached held) :
    ∃ w', I.Sound w' moment ∧ I.values w' held := by
  obtain ⟨⟨task, ht, rfl⟩, hc⟩ := h
  obtain ⟨w', -, hsession, hscope⟩ := performAll _ _ hstore hs
  have hvalues : I.values w' task.values := by
    rw [Request.task?_values ht]
    exact List.forall_mem_nil _
  exact Sound.course ⟨hsession, hscope, hvalues⟩ hc

end Invariant

end MonkeyLang
