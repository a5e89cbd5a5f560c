import Mathlib.Logic.Relation
import MonkeyLang.Store.Basic

namespace MonkeyLang

/-- What has been done with the handles to scopes, of which there are `n` by now. -/
inductive History : Nat → Type where
  | start : History 0
  | root {n : Nat} (past : History n) : History (n + 1)
  | child {n : Nat} (past : History n) (parent : Fin n) : History (n + 1)
  | share {n : Nat} (past : History n) (handle : Fin n) : History (n + 1)
  | declare {n : Nat} (past : History n) (handle : Fin n) (name : String) (value : Value) :
    History n
  | access {n : Nat} (past : History n) (handle : Fin n) (name : String) : History n

/-- The scope that the store has around a scope. -/
def Store.parent? (store : Store) (scope : ScopeId) : Option ScopeId :=
  store.scopes[scope]?.bind fun found => found.parent

namespace History

variable {n : Nat}

/-- How many scopes there are; they are numbered as they are made. -/
def scopes : {n : Nat} → History n → Nat
  | _, start => 0
  | _, root past => past.scopes + 1
  | _, child past _ => past.scopes + 1
  | _, share past _ => past.scopes
  | _, declare past _ _ _ => past.scopes
  | _, access past _ _ => past.scopes

/-- The scope that a handle leads to; handles are numbered as they are made, too. -/
def scopeOf : {n : Nat} → History n → Nat → ScopeId
  | _, start, _ => 0
  | n + 1, root past, handle => if handle = n then past.scopes else past.scopeOf handle
  | n + 1, child past _, handle => if handle = n then past.scopes else past.scopeOf handle
  | n + 1, share past other, handle =>
    if handle = n then past.scopeOf other else past.scopeOf handle
  | _, declare past _ _ _, handle => past.scopeOf handle
  | _, access past _ _, handle => past.scopeOf handle

/-- The scope around a scope. -/
def parent? : {n : Nat} → History n → ScopeId → Option ScopeId
  | _, start, _ => none
  | _, root past, scope => past.parent? scope
  | _, child past parent, scope =>
    if scope = past.scopes then some (past.scopeOf parent) else past.parent? scope
  | _, share past _, scope => past.parent? scope
  | _, declare past _ _ _, scope => past.parent? scope
  | _, access past _ _, scope => past.parent? scope

/-- What was declared last for a name in a scope, through whatever handle. -/
def latest? : {n : Nat} → History n → ScopeId → String → Option Value
  | _, start, _, _ => none
  | _, root past, scope, name => past.latest? scope name
  | _, child past _, scope, name => past.latest? scope name
  | _, share past _, scope, name => past.latest? scope name
  | _, declare past handle other value, scope, name =>
    if past.scopeOf handle = scope ∧ other = name then some value else past.latest? scope name
  | _, access past _ _, scope, name => past.latest? scope name

/-- What the walk outward from a scope finds for a name. -/
inductive Finds (h : History n) (name : String) : ScopeId → Option Value → Prop where
  | here {scope : ScopeId} {value : Value} (hv : h.latest? scope name = some value) :
    Finds h name scope (some value)
  | outward {scope parent : ScopeId} {result : Option Value}
    (hv : h.latest? scope name = none) (hp : h.parent? scope = some parent)
    (hr : Finds h name parent result) : Finds h name scope result
  | top {scope : ScopeId} (hv : h.latest? scope name = none) (hp : h.parent? scope = none) :
    Finds h name scope none

/-- The second scope is the one around the first. -/
def Inside (h : History n) (scope parent : ScopeId) : Prop := h.parent? scope = some parent

/-- The first scope is the second, or is met on the way outward from it. -/
def Encloses (h : History n) (outer scope : ScopeId) : Prop :=
  Relation.ReflTransGen h.Inside scope outer

/-- Handles and the store that they lead to. -/
structure Handles (n : Nat) where
  scopes : Vector ScopeId n
  store : Store

/-- The history carried out on a store. -/
def handles : {n : Nat} → History n → Handles n
  | _, start => ⟨#v[], Store.empty⟩
  | _, root past =>
    let (scope, store) := past.handles.store.newRoot
    ⟨past.handles.scopes.push scope, store⟩
  | _, child past parent =>
    let (scope, store) := past.handles.store.newScope past.handles.scopes[parent]
    ⟨past.handles.scopes.push scope, store⟩
  | _, share past handle =>
    ⟨past.handles.scopes.push past.handles.scopes[handle], past.handles.store⟩
  | _, declare past handle name value =>
    ⟨past.handles.scopes, past.handles.store.declare past.handles.scopes[handle] name value⟩
  | _, access past _ _ => past.handles

/-- What the store answers when a name is looked up through a handle. -/
def lookup (h : History n) (handle : Fin n) (name : String) : Option Value :=
  h.handles.store.access h.handles.scopes[handle] name

theorem scopeOf_lt (h : History n) : ∀ handle : Fin n, h.scopeOf handle < h.scopes := by
  induction h with
  | start => exact fun handle => handle.elim0
  | root past ih | child past _ ih =>
    intro handle
    rw [scopeOf, scopes]
    split
    · exact Nat.lt_succ_self _
    · next hne => exact Nat.lt_succ_of_lt (ih ⟨handle, by omega⟩)
  | share past other ih =>
    intro handle
    rw [scopeOf, scopes]
    split
    · exact ih other
    · next hne => exact ih ⟨handle, by omega⟩
  | declare past _ _ _ ih | access past _ _ ih => exact ih

/-- A scope is made before those inside it. -/
theorem parent_lt {h : History n} {scope parent : ScopeId} (hp : h.parent? scope = some parent) :
    parent < scope ∧ scope < h.scopes := by
  induction h with
  | start => simp [parent?] at hp
  | root past ih => exact ⟨(ih hp).1, Nat.lt_succ_of_lt (ih hp).2⟩
  | child past handle ih =>
    rw [parent?] at hp
    split at hp
    · next hs =>
      obtain rfl : past.scopeOf handle = parent := by simpa using hp
      exact ⟨hs ▸ past.scopeOf_lt handle, hs ▸ Nat.lt_succ_self _⟩
    · exact ⟨(ih hp).1, Nat.lt_succ_of_lt (ih hp).2⟩
  | share past _ ih | declare past _ _ _ ih | access past _ _ ih => exact ih hp

theorem not_inside_self (h : History n) (scope : ScopeId) :
    ¬Relation.TransGen h.Inside scope scope := by
  have hlt : ∀ outer, Relation.TransGen h.Inside scope outer → outer < scope := by
    intro outer hout
    induction hout with
    | single hp => exact (parent_lt hp).1
    | tail _ hp ih => exact Nat.lt_trans (parent_lt hp).1 ih
  exact fun hs => Nat.lt_irrefl scope (hlt scope hs)

/-- A scope that has not been made yet has no declarations. -/
theorem latest_of_le {h : History n} {scope : ScopeId} (hs : h.scopes ≤ scope) (name : String) :
    h.latest? scope name = none := by
  induction h with
  | start => rfl
  | root past ih | child past _ ih => exact ih (Nat.le_of_succ_le hs)
  | share past _ ih | access past _ _ ih => exact ih hs
  | declare past handle other value ih =>
    have hne : past.scopeOf handle ≠ scope := Nat.ne_of_lt
      (Nat.lt_of_lt_of_le (past.scopeOf_lt handle) hs)
    rw [latest?, if_neg fun hc => hne hc.1]
    exact ih hs

/-- The scopes around a scope, the nearest first. -/
def outward : {n : Nat} → History n → ScopeId → List ScopeId
  | _, start, _ => []
  | _, root past, scope => past.outward scope
  | _, child past parent, scope =>
    if scope = past.scopes then past.scopeOf parent :: past.outward (past.scopeOf parent)
    else past.outward scope
  | _, share past _, scope => past.outward scope
  | _, declare past _ _ _, scope => past.outward scope
  | _, access past _ _, scope => past.outward scope

theorem outward_eq (h : History n) (scope : ScopeId) :
    h.outward scope = (h.parent? scope).elim [] fun parent => parent :: h.outward parent := by
  induction h generalizing scope with
  | start => rfl
  | root past ih => exact ih scope
  | child past handle ih =>
    rw [outward, parent?]
    split
    · have hne : past.scopeOf handle ≠ past.scopes := Nat.ne_of_lt (past.scopeOf_lt handle)
      simp [outward, hne]
    · rw [ih]
      cases hp : past.parent? scope with
      | none => rfl
      | some parent =>
        have hlt := parent_lt hp
        have hne : parent ≠ past.scopes := Nat.ne_of_lt (Nat.lt_trans hlt.1 hlt.2)
        simp [outward, hne]
  | share past _ ih | access past _ _ ih | declare past _ _ _ ih => exact ih scope

/-- What the first of the scopes on the walk has that has anything. -/
def nearest? (h : History n) (name : String) (scope : ScopeId) : Option Value :=
  (scope :: h.outward scope).findSome? fun id => h.latest? id name

theorem nearest_eq (h : History n) (name : String) (scope : ScopeId) :
    h.nearest? name scope =
      (h.latest? scope name).or ((h.parent? scope).bind (h.nearest? name)) := by
  unfold nearest?
  rw [outward_eq]
  cases hv : h.latest? scope name with
  | some value => simp [hv]
  | none => cases hp : h.parent? scope <;> simp [hv]

theorem finds_iff (h : History n) (name : String) (scope : ScopeId) (result : Option Value) :
    h.Finds name scope result ↔ h.nearest? name scope = result := by
  constructor
  · intro hf
    induction hf with
    | here hv => rw [nearest_eq, hv, Option.some_or]
    | outward hv hp _ ih =>
      rw [nearest_eq, hv, hp]
      exact ih
    | top hv hp => rw [nearest_eq, hv, hp, Option.none_or, Option.bind_none]
  · intro hr
    induction scope using Nat.strongRecOn with
    | ind scope ih =>
      rw [nearest_eq] at hr
      cases hv : h.latest? scope name with
      | some value =>
        obtain rfl : some value = result := by simpa [hv] using hr
        exact .here hv
      | none =>
        rw [hv, Option.none_or] at hr
        cases hp : h.parent? scope with
        | none =>
          obtain rfl : none = result := by simpa [hp] using hr
          exact .top hv hp
        | some parent =>
          rw [hp, Option.bind_some] at hr
          exact .outward hv hp (ih parent (parent_lt hp).1 hr)

/-- The store holds what the history says, and the handles lead where it says. -/
structure Matches (h : History n) (handles : Handles n) : Prop where
  size : handles.store.scopes.size = h.scopes
  leads : ∀ handle : Fin n, handles.scopes[handle] = h.scopeOf handle
  scope : ∀ id < h.scopes, ∃ found, handles.store.scopes[id]? = some found ∧
    found.parent = h.parent? id ∧ ∀ name, found.find? name = h.latest? id name

theorem matches_start : start.Matches start.handles where
  size := rfl
  leads handle := handle.elim0
  scope id hid := absurd hid (Nat.not_lt_zero id)

/-- A new scope is empty, stands behind those that were there, and one handle more leads to it. -/
theorem Matches.push {h : History n} {handles : Handles n} (hm : h.Matches handles)
    {next : History (n + 1)} {parent : Option ScopeId} {store : Store}
    (hstore : store.scopes = handles.store.scopes.push ⟨[], parent⟩)
    (hscopes : next.scopes = h.scopes + 1)
    (hleads : ∀ handle, next.scopeOf handle = if handle = n then h.scopes else h.scopeOf handle)
    (hparent : ∀ id < h.scopes, next.parent? id = h.parent? id)
    (hnew : next.parent? h.scopes = parent)
    (hlatest : ∀ id name, next.latest? id name = h.latest? id name) :
    next.Matches ⟨handles.scopes.push h.scopes, store⟩ where
  size := by rw [hstore, hscopes, Array.size_push, hm.size]
  leads handle := by
    rw [hleads]
    split
    · next he => simp [he]
    · next hne =>
      have hlt : handle.val < n := by omega
      have hprev := hm.leads ⟨handle, hlt⟩
      simpa [Vector.getElem_push, hlt] using hprev
  scope id hid := by
    rw [hscopes] at hid
    rw [hstore]
    by_cases he : id = h.scopes
    · refine ⟨⟨[], parent⟩, ?_, ?_, fun name => ?_⟩
      · simp [he, ← hm.size]
      · rw [he, hnew]
      · rw [hlatest, latest_of_le (Nat.le_of_eq he.symm)]
        rfl
    · have hlt : id < h.scopes := by omega
      obtain ⟨found, hf, haround, hbound⟩ := hm.scope id hlt
      refine ⟨found, ?_, haround.trans (hparent id hlt).symm, fun name => ?_⟩
      · rw [Array.getElem?_push, if_neg (by rw [hm.size]; exact he), hf]
      · rw [hlatest, hbound]

theorem matches_root {h : History n} (hm : h.Matches h.handles) :
    h.root.Matches h.root.handles := by
  have hnext : h.root.handles = ⟨h.handles.scopes.push h.scopes, (h.handles.store.newRoot).2⟩ := by
    rw [← hm.size]
    rfl
  rw [hnext]
  have hnew : h.parent? h.scopes = none :=
    Option.eq_none_iff_forall_ne_some.mpr fun _ hp => Nat.lt_irrefl _ (parent_lt hp).2
  exact hm.push rfl rfl (fun _ => rfl) (fun _ _ => rfl) hnew fun _ _ => rfl

theorem matches_child {h : History n} (hm : h.Matches h.handles) (parent : Fin n) :
    (h.child parent).Matches (h.child parent).handles := by
  have hnext : (h.child parent).handles = ⟨h.handles.scopes.push h.scopes,
      (h.handles.store.newScope h.handles.scopes[parent]).2⟩ := by
    rw [← hm.size]
    rfl
  rw [hnext]
  refine hm.push rfl rfl (fun _ => rfl) (fun id hid => ?_) ?_ fun _ _ => rfl
  · rw [parent?, if_neg (Nat.ne_of_lt hid)]
  · rw [parent?, if_pos rfl, hm.leads]

theorem matches_share {h : History n} (hm : h.Matches h.handles) (other : Fin n) :
    (h.share other).Matches (h.share other).handles where
  size := hm.size
  leads handle := by
    rw [scopeOf]
    split
    · next he => simpa [handles, he] using hm.leads other
    · next hne =>
      have hlt : handle.val < n := by omega
      have hprev := hm.leads ⟨handle, hlt⟩
      simpa [handles, Vector.getElem_push, hlt] using hprev
  scope := hm.scope

theorem matches_declare {h : History n} (hm : h.Matches h.handles) (handle : Fin n)
    (name : String) (value : Value) :
    (h.declare handle name value).Matches (h.declare handle name value).handles where
  size := by simpa [handles, scopes, Store.declare] using hm.size
  leads := hm.leads
  scope id hid := by
    obtain ⟨found, hf, hparent, hbound⟩ := hm.scope id hid
    by_cases he : h.scopeOf handle = id
    · refine ⟨found.bind name value, ?_, hparent, fun other => ?_⟩
      · simp [handles, Store.declare, Array.getElem?_modify, hm.leads, he, hf]
      · rw [latest?]
        by_cases hn : name = other
        · rw [if_pos ⟨he, hn⟩, ← hn, Scope.find?_bind_self]
        · rw [if_neg fun hc => hn hc.2, Scope.find?_bind_of_ne found value (Ne.symm hn), hbound]
    · refine ⟨found, ?_, hparent, fun other => ?_⟩
      · simp [handles, Store.declare, Array.getElem?_modify, hm.leads, he, hf]
      · rw [latest?, if_neg fun hc => he hc.1, hbound]

/-- The store and the handles are as the history says, whatever has been done. -/
theorem matches_handles (h : History n) : h.Matches h.handles := by
  induction h with
  | start => exact matches_start
  | root past ih => exact matches_root ih
  | child past parent ih => exact matches_child ih parent
  | share past other ih => exact matches_share ih other
  | declare past handle name value ih => exact matches_declare ih handle name value
  | access past handle name ih => exact { ih with }

/-- A scope binds a name to what was declared last for it there. -/
theorem Matches.bound {h : History n} {handles : Handles n} (hm : h.Matches handles)
    (id : ScopeId) (name : String) :
    (handles.store.scopes[id]?.bind fun found => found.find? name) = h.latest? id name := by
  by_cases hid : id < h.scopes
  · obtain ⟨found, hf, -, hfind⟩ := hm.scope id hid
    rw [hf, Option.bind_some, hfind]
  · have hnone : handles.store.scopes[id]? = none :=
      Array.getElem?_eq_none (hm.size ▸ Nat.le_of_not_lt hid)
    rw [hnone, latest_of_le (Nat.le_of_not_lt hid), Option.bind_none]

/-- The store passes through the scopes outward, and never turns back to a newer one. -/
theorem Matches.chain {h : History n} {handles : Handles n} (hm : h.Matches handles) {id : ScopeId}
    (hid : id < h.scopes) : handles.store.chain id = id :: h.outward id := by
  induction id using Nat.strongRecOn with
  | ind id ih =>
    obtain ⟨found, hf, hparent, -⟩ := hm.scope id hid
    rw [Store.chain_eq hf, hparent, outward_eq]
    cases hp : h.parent? id with
    | none => rfl
    | some parent =>
      obtain ⟨hlt, -⟩ := parent_lt hp
      simp only [Option.elim, if_pos hlt, ih parent hlt (Nat.lt_trans hlt hid)]

theorem lookup_eq (h : History n) (handle : Fin n) (name : String) :
    h.lookup handle name = h.nearest? name (h.scopeOf handle) := by
  have hm := h.matches_handles
  have hchain := hm.chain (h.scopeOf_lt handle)
  have hbound : (fun id => h.handles.store.scopes[id]?.bind fun found => found.find? name) =
      fun id => h.latest? id name := funext fun id => hm.bound id name
  rw [lookup, hm.leads, Store.access, hchain, hbound, nearest?]

theorem lookup_iff_finds (h : History n) (handle : Fin n) (name : String)
    (result : Option Value) :
    h.lookup handle name = result ↔ h.Finds name (h.scopeOf handle) result := by
  rw [lookup_eq, finds_iff]

/-- The scope that the store has around a scope is the one that the history says. -/
theorem parent_eq (h : History n) (scope : ScopeId) :
    h.handles.store.parent? scope = h.parent? scope := by
  have hm := h.matches_handles
  unfold Store.parent?
  by_cases hid : scope < h.scopes
  · obtain ⟨found, hf, hparent, -⟩ := hm.scope scope hid
    rw [hf, Option.bind_some, hparent]
  · have hnone : h.handles.store.scopes[scope]? = none :=
      Array.getElem?_eq_none (hm.size ▸ Nat.le_of_not_lt hid)
    have hparent : h.parent? scope = none := by
      cases hp : h.parent? scope with
      | none => rfl
      | some parent => exact absurd (parent_lt hp).2 hid
    rw [hnone, hparent, Option.bind_none]

section
variable {h : History n} {handle : Fin n} {other name : String} {value : Value}
  {scope : ScopeId} {result : Option Value}

/-- A declaration that the walk does not come across changes nothing. -/
theorem Finds.declare_elsewhere (hf : h.Finds name scope result)
    (hne : other = name → ¬h.Encloses (h.scopeOf handle) scope) :
    (h.declare handle other value).Finds name scope result := by
  have hlatest : ∀ id, h.Encloses id scope →
      (h.declare handle other value).latest? id name = h.latest? id name := by
    intro id hid
    rw [latest?, if_neg]
    rintro ⟨rfl, rfl⟩
    exact hne rfl hid
  induction hf with
  | here hv => exact .here ((hlatest _ .refl).trans hv)
  | outward hv hp _ ih =>
    have hinner : ∀ {id parent : ScopeId}, h.parent? id = some parent → ∀ {outer},
        h.Encloses outer parent → h.Encloses outer id := fun hp _ ho => .head hp ho
    refine .outward ((hlatest _ .refl).trans hv) hp (ih ?_ ?_)
    · exact fun hn he => hne hn (hinner hp he)
    · exact fun id hid => hlatest id (hinner hp hid)
  | top hv hp => exact .top ((hlatest _ .refl).trans hv) hp

/-- A declaration in a scope around is found from inside, unless a nearer scope has the name. -/
theorem finds_declare (he : h.Encloses (h.scopeOf handle) scope)
    (hnearer : ∀ id, h.Encloses id scope → Relation.TransGen h.Inside id (h.scopeOf handle) →
      h.latest? id name = none) :
    (h.declare handle name value).Finds name scope (some value) := by
  induction he using Relation.ReflTransGen.head_induction_on with
  | refl => exact .here (by rw [latest?, if_pos ⟨rfl, rfl⟩])
  | head hp hrest ih =>
    have hin := Relation.TransGen.head' hp hrest
    have hv := hnearer _ .refl hin
    have hne : h.scopeOf handle ≠ _ := fun hs => h.not_inside_self _ (hs ▸ hin)
    refine .outward ?_ hp (ih fun id hid hlt => hnearer id (.head hp hid) hlt)
    rw [latest?, if_neg fun hc => hne hc.1]
    exact hv

end

/-- Names are looked up lexically, whatever has been done through whatever handles: the nearest
scope outward in which the name was declared gives the value declared there last; declarations
elsewhere and of other names have no influence; those made in a scope around are seen, however late;
and no scope is around itself. -/
theorem lookup_lexical {n : Nat} (h : History n) (handle : Fin n) (name : String) :
    (∀ result, h.lookup handle name = result ↔ h.Finds name (h.scopeOf handle) result) ∧
    (∀ (through : Fin n) (other : String) (value : Value),
      (other = name → ¬h.Encloses (h.scopeOf through) (h.scopeOf handle)) →
      (h.declare through other value).lookup handle name = h.lookup handle name) ∧
    (∀ (through : Fin n) (value : Value),
      h.Encloses (h.scopeOf through) (h.scopeOf handle) →
      (∀ id, h.Encloses id (h.scopeOf handle) →
        Relation.TransGen h.Inside id (h.scopeOf through) → h.latest? id name = none) →
      (h.declare through name value).lookup handle name = some value) ∧
    (∀ scope, h.handles.store.parent? scope = h.parent? scope) ∧
    ∀ scope, ¬Relation.TransGen h.Inside scope scope := by
  refine ⟨h.lookup_iff_finds handle name, ?_, ?_, h.parent_eq, h.not_inside_self⟩
  · intro through other value hne
    have hf := (h.lookup_iff_finds handle name _).mp rfl
    exact (lookup_iff_finds _ _ _ _).mpr (hf.declare_elsewhere hne)
  · intro through value he hnearer
    exact (lookup_iff_finds _ _ _ _).mpr (finds_declare he hnearer)

/-- A root, a scope inside it, and one more handle to the root. -/
def sharedRoot : History 3 := (start.root.child 0).share 0

theorem lookup_shared_root :
    sharedRoot.Encloses (sharedRoot.scopeOf 2) (sharedRoot.scopeOf 1) ∧
    (sharedRoot.declare 2 "x" (.integer 5)).lookup 1 "x" = some (.integer 5) ∧
    ¬sharedRoot.Encloses (sharedRoot.scopeOf 1) (sharedRoot.scopeOf 0) ∧
    (sharedRoot.declare 1 "x" (.integer 5)).lookup 0 "x" = none := by
  have hroot : sharedRoot.Encloses 0 1 := .single rfl
  have hnone : ∀ id, sharedRoot.latest? id "x" = none := fun _ => rfl
  have hinner : ¬sharedRoot.Encloses 1 0 := by
    intro he
    obtain heq | ⟨id, hid, -⟩ := Relation.ReflTransGen.cases_head he
    · exact absurd heq (by decide)
    · exact Nat.not_lt_zero _ (parent_lt hid).1
  have hseen := (lookup_lexical sharedRoot 1 "x").2.2.1 2 (.integer 5) hroot fun id _ _ => hnone id
  have helsewhere := (lookup_lexical sharedRoot 0 "x").2.1 1 "x" (.integer 5) fun _ => hinner
  exact ⟨hroot, hseen, hinner, helsewhere.trans rfl⟩

end History

end MonkeyLang
