import StructScript.Proofs.Store.Paths

/-!
# Assignment is a lawful update

An assignment changes the binding of one variable, the innermost one of the root's name, or nothing
(`Eval.assignPlace_lawful`). What was assigned is read; every other variable, and every path that
parts from the one assigned, reads as before, so a copy of a struct that is held elsewhere is not
affected; the root and the structs on the path keep their types; and of two assignments to a place
the later counts.
-/

namespace StructScript

namespace Ast.Place

/-- The names of the fields after the root. -/
def fields (place : Ast.Place) : List String := place.path.map (·.name)

/-- A further field comes last on the path. -/
@[simp] theorem fields_field (base : Ast.Place) (name : Ast.Ident) (span : Span) :
    (field base name span).fields = base.fields ++ [name.name] := List.map_append

end Ast.Place

namespace Store

variable {s : Store} {id other scope : ScopeId} {name : String} {v old : Value}

/-! ### Reading a place -/

/-- The variable that a place goes through: its name, and the innermost scope that binds it. -/
def binding? (s : Store) (scope : ScopeId) (place : Ast.Place) : Option (ScopeId × String) :=
  (s.binder? scope place.root.name).map fun b => (b.1, place.root.name)

/-- The value at a place: the fields of the place are followed from the value of its root. -/
def readPlace (s : Store) (scope : ScopeId) (place : Ast.Place) : Except EvalError Value :=
  match s.lookupVariable scope place.root.name with
  | some v => .ok (v.follow place.fields)
  | none => .error (.atSpan place.root.span (.undefinedVariable place.root.name))

/-- Reading is evaluated by looking up the root and following the fields. -/
theorem readPlace_apply (scope : ScopeId) (place : Ast.Place) (m : Machine) :
    Eval.readPlace scope place m = some (m.store.readPlace scope place, m) := by
  induction place with
  | var name =>
      rw [Eval.readPlace, Eval.lookup, Bounded.bind_apply, readPlace, Ast.Place.root]
      dsimp only [Bounded.state]
      cases m.store.lookupVariable scope name.name <;> rfl
  | field base name span ih =>
      rw [Eval.readPlace, Bounded.bind_apply, ih, readPlace, readPlace, Ast.Place.root]
      cases m.store.lookupVariable scope base.root.name with
      | none => rfl
      | some v =>
          simp only [Ast.Place.fields_field, Value.follow_append]
          rfl

/-! ### The binding of the root -/

/-- The value that a place goes through is the one of its binding. -/
theorem lookupVariable_of_binding? {place : Ast.Place} (h : s.binding? scope place = some (id, name))
    (hv : (s.vars id).find? name = some v) : s.lookupVariable scope place.root.name = some v := by
  obtain ⟨⟨binder, w⟩, hbinder, heq⟩ := Option.map_eq_some_iff.mp h
  obtain ⟨rfl, hname⟩ := Prod.mk.injEq .. ▸ heq
  have hw := find?_vars_of_binder? hbinder
  rw [hname, hv] at hw
  rw [lookupVariable_eq, hbinder, hw]
  rfl

/-- What a variable reads after a bound variable has been given another value. -/
theorem lookupVariable_defineVariable_of_bound (h : (s.vars id).find? name = some old) (v : Value)
    (other : ScopeId) (place : Ast.Place) :
    (s.defineVariable id name v).lookupVariable other place.root.name =
      if s.binding? other place = some (id, name) then some v
      else s.lookupVariable other place.root.name := by
  rw [binding?]
  by_cases hname : place.root.name = name
  · rw [hname, lookupVariable_eq, lookupVariable_eq, binder?_defineVariable_of_bound h]
    rcases s.binder? other name with _ | ⟨binder, w⟩
    · rfl
    · by_cases hbinder : binder = id <;> simp [hbinder]
  · rw [lookupVariable_defineVariable_of_ne hname, if_neg]
    intro hbinding
    obtain ⟨b, -, hb⟩ := Option.map_eq_some_iff.mp hbinding
    exact hname (congrArg Prod.snd hb)

/-- One variable of one scope has been given another value, and nothing else has changed. -/
structure Rebound (s t : Store) (id : ScopeId) (name : String) (v : Value) : Prop where
  value : (t.vars id).find? name = some v
  others : ∀ other key, (other, key) ≠ (id, name) →
    (t.vars other).find? key = (s.vars other).find? key
  types : ∀ other, t.types other = s.types other
  parents : ∀ other, (t.scope? other).map Scope.parent = (s.scope? other).map Scope.parent

/-- Defining a variable that the scope binds already rebinds it and does no more. -/
theorem rebound_defineVariable (h : (s.vars id).find? name = some old) (v : Value) :
    Rebound s (s.defineVariable id name v) id name v where
  value := by
    obtain ⟨scope, hscope, -⟩ := exists_of_find?_vars h
    exact find?_vars_defineVariable_self (lt_size_of_scope? hscope) name v
  others := fun _ _ hne =>
    find?_vars_defineVariable_of_ne (fun hid hkey => hne (Prod.ext hid hkey)) s v
  types := fun other => types_defineVariable s id other name v
  parents := fun other => by
    rw [scope?_defineVariable]
    by_cases hother : other = id
    · rw [if_pos hother, Option.map_map, hother]
      rfl
    · rw [if_neg hother]

/-! ### Assigning to a place -/

/-- An assignment to a place, by the scope that binds its root. -/
theorem assignPlace_eq (s : Store) (scope : ScopeId) (target : Ast.Place) (v : Value) :
    s.assignPlace scope target v =
      match s.binder? scope target.root.name with
      | none => .error (.atSpan target.root.span (.undefinedVariable target.root.name))
      | some (binder, old) =>
        match old.setPath target.path v with
        | .error e => .error e
        | .ok new =>
          if old.typeName = new.typeName then .ok (s.defineVariable binder target.root.name new)
          else .error (.ofCause (.setTypeMismatch target.root.name old.typeName new.typeName)) := by
  have hroot (root : Ast.Ident) (new : Value) : s.assignRoot scope root new =
      match s.binder? scope root.name with
      | none => .error (.atSpan root.span (.undefinedVariable root.name))
      | some (binder, old) =>
        if old.typeName = new.typeName then .ok (s.defineVariable binder root.name new)
        else .error (.ofCause (.setTypeMismatch root.name old.typeName new.typeName)) := by
    rw [assignRoot, assign]
    rcases s.binder? scope root.name with _ | ⟨binder, old⟩
    · rfl
    · by_cases htype : old.typeName = new.typeName <;> simp [htype]
  cases target with
  | var name => simp only [assignPlace, Ast.Place.root, Ast.Place.path, Value.setPath, hroot]
  | field base name span =>
      simp only [assignPlace, lookupVariable_eq, hroot]
      rcases s.binder? scope (Ast.Place.field base name span).root.name with _ | ⟨binder, old⟩
      · rfl
      · rfl

/-- An assignment to a field does not fail for the type of the root. -/
theorem cause_of_assignPlace {target : Ast.Place} {e : EvalError}
    (h : s.assignPlace scope target v = .error e) (hpath : target.path ≠ [])
    (name expected found : String) : e.cause ≠ .setTypeMismatch name expected found := by
  rw [assignPlace_eq] at h
  split at h
  · cases h
    intro hcause
    cases hcause
  · split at h
    · rename_i he
      cases h
      exact Value.cause_of_setPath he name expected found
    · rename_i old new hnew
      rw [if_pos (Value.typeName_setPath hnew hpath)] at h
      cases h

/-- A second assignment to a place gives what it alone would have given. -/
theorem assignPlace_assignPlace {t : Store} {target : Ast.Place}
    (h : s.assignPlace scope target v = .ok t) (w : Value) :
    t.assignPlace scope target w = s.assignPlace scope target w := by
  obtain ⟨binder, old, new, hbinder, hset, htype, rfl⟩ := exists_of_assignPlace h
  have hbinder' : (s.defineVariable binder target.root.name new).binder? scope target.root.name =
      some (binder, new) := by
    rw [binder?_defineVariable_of_bound (find?_vars_of_binder? hbinder), hbinder, Option.map_some,
      if_pos rfl]
  rw [assignPlace_eq, assignPlace_eq, hbinder, hbinder']
  simp only [Value.setPath_setPath hset, htype, defineVariable_defineVariable_self]

end Store

namespace Eval

variable {scope other : ScopeId} {target place : Ast.Place} {v : Value} {m m' : Machine}

/-- What the assignment of `v` to the place `target` of a scope makes of a machine. -/
structure Updates (scope : ScopeId) (target : Ast.Place) (v : Value) (m m' : Machine) : Prop where
  reads : readPlace scope target m' = some (.ok v, m')
  /-- The innermost variable of the root's name has another value of its type, with the same structs
  on the path, and nothing else has changed. -/
  rebinds : ∃ binder old new, m.store.binder? scope target.root.name = some (binder, old) ∧
    m.store.Rebound m'.store binder target.root.name new ∧ new.typeName = old.typeName ∧
      ∀ before field after, target.fields = before ++ field :: after →
        Value.SameForm (old.follow before) (new.follow before)
  output_eq : m'.output = m.output
  calls_eq : m'.calls = m.calls
  /-- A place that goes through another variable, or along a path that parts from the one of the
  target, reads as before. -/
  elsewhere : ∀ other place,
    m.store.binding? other place ≠ m.store.binding? scope target ∨
        Diverge target.fields place.fields →
      readPlace other place m' = (readPlace other place m).map fun x => (x.1, m')
  /-- A second assignment leads where it alone would have led. -/
  again : ∀ w m'', assignPlace scope target w m' = some (.ok (), m'') ↔
    assignPlace scope target w m = some (.ok (), m'')

/-- An assignment to a place is an update of it. -/
theorem updates_of_assignPlace {t : Store} (h : m.store.assignPlace scope target v = .ok t) :
    Updates scope target v m { m with store := t } := by
  obtain ⟨binder, old, new, hbinder, hset, htype, rfl⟩ := Store.exists_of_assignPlace h
  have hbound := Store.find?_vars_of_binder? hbinder
  have hbinding : m.store.binding? scope target = some (binder, target.root.name) := by
    rw [Store.binding?, hbinder]
    rfl
  -- what any place reads from the new store
  have hread (other : ScopeId) (place : Ast.Place) :=
    Store.lookupVariable_defineVariable_of_bound hbound new other place
  refine ⟨?_, ⟨binder, old, new, hbinder, Store.rebound_defineVariable hbound new, htype.symm, ?_⟩,
    rfl, rfl, fun other place hother => ?_, fun w m'' => ?_⟩
  · rw [Store.readPlace_apply, Store.readPlace, hread, if_pos hbinding]
    exact congrArg (fun a => some (Except.ok a, _)) (Value.follow_setPath hset)
  · intro before field after hpath
    obtain ⟨before', after', hpath', rfl, hafter⟩ := List.map_eq_append_iff.mp hpath
    obtain ⟨field', after'', rfl, -, -⟩ := List.map_eq_cons_iff.mp hafter
    rw [hpath'] at hset
    exact Value.sameForm_setPath hset
  · rw [Store.readPlace_apply, Store.readPlace_apply, Option.map_some, Store.readPlace, hread,
      Store.readPlace]
    by_cases hsame : m.store.binding? other place = some (binder, target.root.name)
    · -- the place goes through the variable that was assigned, so its path parts from the target's
      have hdiverge := hother.resolve_left fun hne => hne (hsame.trans hbinding.symm)
      rw [if_pos hsame, Store.lookupVariable_of_binding? hsame hbound]
      exact congrArg (fun a => some (Except.ok a, _)) (Value.follow_setPath_of_diverge hset hdiverge)
    · rw [if_neg hsame]
  · rw [assignPlace, assignPlace, Store.assignPlace_assignPlace h]
    cases m.store.assignPlace scope target w with
    | error e => simp
    | ok u => rfl

/-- **Assignment is an update.** One that fails leaves the machine as it was, and one to a field
never fails for the type of the root; one that succeeds does what an update does. -/
theorem assignPlace_lawful (scope : ScopeId) (target : Ast.Place) (v : Value) (m : Machine) :
    ∃ r m', assignPlace scope target v m = some (r, m') ∧
      match r with
      | .ok _ => Updates scope target v m m'
      | .error e => m' = m ∧ (target.path ≠ [] →
          ∀ name expected found, e.cause ≠ .setTypeMismatch name expected found) := by
  rw [assignPlace]
  cases h : m.store.assignPlace scope target v with
  | error e => exact ⟨.error e, m, rfl, rfl, Store.cause_of_assignPlace h⟩
  | ok t => exact ⟨.ok (), { m with store := t }, rfl, updates_of_assignPlace h⟩

/-- A field of a field is set, and a copy of the struct keeps the old value. -/
example (span : Span) :
    let inner : Value := .struct ⟨.simple "Q", [], [("x", .simple "int")], [("x", .int 1)]⟩
    let p : Value := .struct ⟨.simple "P", [], [("q", .simple "Q")], [("q", inner)]⟩
    let s : Store := ⟨#[⟨[], [("copy", p), ("p", p)], none⟩]⟩
    let place (root : String) : Ast.Place :=
      .field (.field (.var ⟨root, span⟩) ⟨"q", span⟩ span) ⟨"x", span⟩ span
    (s.assignPlace ⟨0⟩ (place "p") (.int 2)).map
        (fun t => (t.readPlace ⟨0⟩ (place "p"), t.readPlace ⟨0⟩ (place "copy"))) =
      .ok (.ok (.int 2), .ok (.int 1)) := by
  cbv

end Eval

end StructScript
