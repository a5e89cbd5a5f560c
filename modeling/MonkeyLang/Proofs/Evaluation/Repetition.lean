import MonkeyLang.Proofs.Evaluation.Reached

namespace MonkeyLang

open Eval

variable {store after : Store} {callee : Value} {arguments : List Value}

/-- A later store in which no scope has changed is an image of the earlier one. -/
theorem Store.Unchanged.mirrored (h : store.Unchanged after) (hg : store.Grows after)
    (hc : store.Closed) :
    store.Mirrored (.beyond store (after.created - store.created)
      (after.scopes.size - store.scopes.size) after) after where
  identities := fun k _ => by
    have hmoved : moved store.created (after.created - store.created) (store.created + k) =
        store.created + k + (after.created - store.created) := moved_of_le (Nat.le_add_right _ _)
    have hle := hg.created
    exact hmoved.trans (by omega)
  scopes := fun k _ => by
    have hmoved : moved store.scopes.size (after.scopes.size - store.scopes.size)
        (store.scopes.size + k) = store.scopes.size + k + (after.scopes.size - store.scopes.size) :=
      moved_of_le (Nat.le_add_right _ _)
    have hle := hg.scopes
    exact hmoved.trans (by omega)
  found := fun id => by
    change after.scopes[moved store.scopes.size (after.scopes.size - store.scopes.size) id]? = _
    by_cases hid : id < store.scopes.size
    · rw [moved_of_lt hid, h id hid]
      cases hf : store.scopes[id]? with
      | none => rfl
      | some found => exact congrArg some (hc id found hf).renamed_beyond.symm
    · have hle := Nat.le_of_not_lt hid
      rw [moved_of_le hle, Array.getElem?_eq_none hle, Array.getElem?_eq_none (by omega)]
      rfl

/-- The second call ends as the first did, with what was made renamed. -/
theorem apply_again (limit : Nat) (hs : store.Closed) (hc : callee.MadeIn store)
    (ha : ∀ argument ∈ arguments, argument.MadeIn store) :
    ∃ r later, EStateM.run (apply (invoke limit) callee arguments)
        ((apply (invoke limit) callee arguments).final store) =
      resultIn r (Value.renamed r) later
        (EStateM.run (apply (invoke limit) callee arguments) store) := by
  have hunchanged := apply_unchanged limit callee arguments store
  have hstill := mirrors_apply (invoke_mirrors (.beyond store 0 0 store) limit) callee arguments
  have hg := hstill.grows store
  have hm := hunchanged.mirrored hg hs
  generalize hlast : (apply (invoke limit) callee arguments).final store = last at hm hg
  have hmirrors := mirrors_apply (invoke_mirrors (.beyond store (last.created - store.created)
    (last.scopes.size - store.scopes.size) last) limit) callee arguments
  have harguments : arguments.map (Value.renamed (.beyond store (last.created - store.created)
      (last.scopes.size - store.scopes.size) last)) = arguments :=
    map_eq_self_iff.mpr fun argument hm => argument.renamed_beyond (ha argument hm)
  rw [callee.renamed_beyond hc, harguments] at hmirrors
  obtain ⟨later, -, hrun⟩ := hmirrors.runs store last hm (hlast ▸ Renaming.beyond_fits _ _ _ _)
  exact ⟨_, later, hrun⟩

/-- A call can be repeated. In the store that the first call leaves behind the second comes to a
value of the same type and text, or stops with the same runtime error. -/
theorem call_repeatable (hs : store.Reached) (limit : Nat) (hc : callee.MadeIn store)
    (ha : ∀ argument ∈ arguments, argument.MadeIn store) :
    (∀ value after, EStateM.run (apply (invoke limit) callee arguments) store = .ok value after →
      ∃ again later, EStateM.run (apply (invoke limit) callee arguments) after = .ok again later ∧
        value.Alike again) ∧
    ∀ error after,
      EStateM.run (apply (invoke limit) callee arguments) store = .error (.failed error) after →
        ∃ later, EStateM.run (apply (invoke limit) callee arguments) after =
          .error (.failed error) later := by
  obtain ⟨r, later, hagain⟩ := apply_again limit hs.closed hc ha
  constructor
  · intro value after h
    rw [final_of_ok h, h] at hagain
    exact ⟨_, later, hagain, value.alike_renamed r⟩
  · intro error after h
    rw [final_of_error h, h] at hagain
    exact ⟨later, hagain⟩

/-- The program `let box = [1];
let keep = fn(x) { let other = [x]; [x == box, other == box, fn() { other }] };` -/
def boxes : Program :=
  let token := Token.endAt 0
  let word := fun name => Expr.name ⟨token, name⟩
  [.letName token ⟨token, "box"⟩ (.array token [.integer token 1]),
    .letName token ⟨token, "keep"⟩ (.function token [⟨token, "x"⟩] (.mk token
      [.letName token ⟨token, "other"⟩ (.array token [word "x"]),
        .expression token (.array token
          [.binary token (word "x") .equal (word "box"),
            .binary token (word "other") .equal (word "box"),
            .function token [] (.mk token [.expression token (word "other")])])]))]

/-- The store behind the program above. -/
def boxed : Store := Moment.after ⟨0, Store.fresh.1, Store.fresh.2, .program boxes⟩

/-- The call makes an array, which it keeps in a function, and tells it from the one that it is
given; a second array makes no difference. -/
theorem call_repeatable_boxed : ∃ keep box, boxed.access Store.fresh.1 "keep" = some keep ∧
    boxed.access Store.fresh.1 "box" = some box ∧ boxed.Reached ∧ keep.MadeIn boxed ∧
    (∀ argument ∈ [box], argument.MadeIn boxed) ∧
    ∃ value after again later, EStateM.run (apply (invoke 1) keep [box]) boxed = .ok value after ∧
      EStateM.run (apply (invoke 1) keep [box]) after = .ok again later ∧ value.Alike again ∧
      value.inspect = "[true, false, fn() { other }]" := by
  have hreached : boxed.Reached := by
    refine Store.Reached.after (.newRoot .empty) ?_ ?_
    · decide
    · nofun
  have hbox : Value.MadeIn boxed (.array 0 [.integer 1]) := ⟨by decide, trivial, trivial⟩
  have harguments : ∀ argument ∈ [Value.array 0 [.integer 1]], argument.MadeIn boxed := by
    simpa using hbox
  obtain ⟨closure, hkeep, hscope, value, after, hrun, htext⟩ : ∃ closure,
      boxed.access Store.fresh.1 "keep" = some (.function 1 closure) ∧
      closure.scope < boxed.scopes.size ∧
      ∃ value after, EStateM.run (apply (invoke 1) (.function 1 closure)
        [.array 0 [.integer 1]]) boxed = .ok value after ∧
        value.inspect = "[true, false, fn() { other }]" :=
    ⟨_, rfl, by decide, _, _, rfl, by decide⟩
  have hcallee : Value.MadeIn boxed (.function 1 closure) := ⟨by decide, hscope⟩
  obtain ⟨again, later, hagain, halike⟩ :=
    (call_repeatable hreached 1 hcallee harguments).1 value after hrun
  exact ⟨_, _, hkeep, rfl, hreached, hcallee, harguments, value, after, again, later, hrun, hagain,
    halike, htext⟩

end MonkeyLang
