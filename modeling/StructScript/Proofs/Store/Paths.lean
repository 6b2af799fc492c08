import StructScript.Proofs.Store.Bindings

/-!
# Setting the field at the end of a path

A path of field names leads from a value to a value inside it (`Value.follow`). Setting the field at
its end succeeds only if every value that the path passes is a struct, and it obeys the laws of an
update:

* what was set is read (`Value.follow_setPath`);
* a path that parts from it reads what it read before (`Value.follow_setPath_of_diverge`);
* of two values that are set the later counts (`Value.setPath_setPath`);
* the structs on the path keep their types (`Value.sameForm_setPath`).
-/

namespace StructScript

/-- Two paths part: after the names that they share each goes on with another one, so that neither
is a beginning of the other. -/
def Diverge (path other : List String) : Prop := ¬ path <+: other ∧ ¬ other <+: path

namespace Diverge

/-- The empty path leads to everything, so it does not diverge from any. -/
theorem not_nil {other : List String} : ¬ Diverge [] other := fun h => h.1 List.nil_prefix

/-- Paths diverge at their first fields or behind them. -/
theorem cons_cons {field name : String} {path other : List String} :
    Diverge (field :: path) (name :: other) ↔ field ≠ name ∨ Diverge path other := by
  unfold Diverge
  rw [List.cons_prefix_cons, List.cons_prefix_cons]
  by_cases hname : field = name
  · simp [hname]
  · simp [hname, Ne.symm hname]

end Diverge

namespace Value

variable {target new v w : Value} {path : List Ast.Ident}

/-- Read the fields of a path in turn. -/
def follow (v : Value) (path : List String) : Value := path.foldl get v

/-- A path is followed field by field. -/
@[simp] theorem follow_cons (v : Value) (field : String) (path : List String) :
    v.follow (field :: path) = (v.get field).follow path := rfl

/-- One path behind another is followed from where the first leads. -/
theorem follow_append (v : Value) (path other : List String) :
    v.follow (path ++ other) = (v.follow path).follow other := List.foldl_append

/-- Both are structs of one type, with the same parameters and the same declared fields. -/
def SameForm : Value → Value → Prop
  | struct a, struct b => a.type = b.type ∧ a.params = b.params ∧ a.fieldTypes = b.fieldTypes
  | _, _ => False

/-! ### A step of a path -/

/-- A field that is set is a field of a struct, which goes on to hold what the rest of the path
makes of the value of the field. -/
theorem cases_of_setPath {field : Ast.Ident} (h : target.setPath (field :: path) v = .ok new) :
    ∃ record inner, target = struct record ∧
      (target.get field.name).setPath path v = .ok inner ∧
        new = struct { record with fields := NameMap.insert field.name inner record.fields } := by
  unfold setPath at h
  cases target with
  | struct record =>
      cases path with
      | nil =>
          dsimp only at h
          split at h
          · cases h
          · split at h
            · cases h
              exact ⟨record, v, rfl, by rw [setPath], rfl⟩
            · cases h
      | cons next rest =>
          dsimp only at h
          split at h
          · cases h
          · rename_i inner hinner
            cases h
            exact ⟨record, inner, rfl, hinner, rfl⟩
  | _ => cases h

/-- A field that has been bound has its value. -/
theorem get_insert_self (record : Record Value) (field : String) (inner : Value) :
    (struct { record with fields := NameMap.insert field inner record.fields }).get field =
      inner := by
  rw [get, NameMap.find?_insert_self, Option.getD_some]

/-- The other fields keep theirs. -/
theorem get_insert_of_ne {field other : String} (h : other ≠ field) (record : Record Value)
    (inner : Value) :
    (struct { record with fields := NameMap.insert field inner record.fields }).get other =
      (struct record).get other := by
  rw [get, get, NameMap.find?_insert_of_ne h]

/-! ### The laws -/

/-- What was set is read. -/
theorem follow_setPath (h : target.setPath path v = .ok new) :
    new.follow (path.map (·.name)) = v := by
  induction path generalizing target new with
  | nil =>
      rw [setPath] at h
      cases h
      rfl
  | cons field rest ih =>
      obtain ⟨record, inner, -, hinner, rfl⟩ := cases_of_setPath h
      rw [List.map_cons, follow_cons, get_insert_self, ih hinner]

/-- A path that parts from the one that was set reads what it read before. -/
theorem follow_setPath_of_diverge (h : target.setPath path v = .ok new) {other : List String}
    (hother : Diverge (path.map (·.name)) other) : new.follow other = target.follow other := by
  induction path generalizing target new other with
  | nil => exact absurd hother Diverge.not_nil
  | cons field rest ih =>
      obtain ⟨record, inner, rfl, hinner, rfl⟩ := cases_of_setPath h
      cases other with
      | nil => exact absurd List.nil_prefix hother.2
      | cons name names =>
          rw [follow_cons, follow_cons]
          by_cases hname : name = field.name
          · subst hname
            rw [get_insert_self]
            exact ih hinner ((Diverge.cons_cons.mp hother).resolve_left fun hne => hne rfl)
          · rw [get_insert_of_ne hname]

/-- Setting a field a second time gives what setting it to the later value alone gives, be that a
value or an error. -/
theorem setPath_setPath (h : target.setPath path v = .ok new) (w : Value) :
    new.setPath path w = target.setPath path w := by
  induction path generalizing target new with
  | nil => rw [setPath, setPath]
  | cons field rest ih =>
      obtain ⟨record, inner, rfl, hinner, rfl⟩ := cases_of_setPath h
      cases rest with
      | nil => simp only [setPath, NameMap.insert_insert_self]
      | cons next rest =>
          have hget : ((NameMap.insert field.name inner record.fields).find? field.name).getD nil =
              inner := by rw [NameMap.find?_insert_self, Option.getD_some]
          rw [setPath, setPath, hget, ih hinner]
          simp only [get, NameMap.insert_insert_self]

/-- A struct on the path keeps its type, its parameters and its declared fields. -/
theorem sameForm_setPath {before after : List Ast.Ident} {field : Ast.Ident}
    (h : target.setPath (before ++ field :: after) v = .ok new) :
    SameForm (target.follow (before.map (·.name))) (new.follow (before.map (·.name))) := by
  induction before generalizing target new with
  | nil =>
      obtain ⟨record, inner, rfl, -, rfl⟩ := cases_of_setPath h
      exact ⟨rfl, rfl, rfl⟩
  | cons first rest ih =>
      obtain ⟨record, inner, -, hinner, rfl⟩ := cases_of_setPath h
      rw [List.map_cons, follow_cons, follow_cons, get_insert_self]
      exact ih hinner

/-- Setting a field inside a struct keeps the type of the struct. -/
theorem typeName_setPath (h : target.setPath path v = .ok new) (hpath : path ≠ []) :
    target.typeName = new.typeName := by
  obtain ⟨field, rest, rfl⟩ := List.exists_cons_of_ne_nil hpath
  obtain ⟨record, inner, rfl, -, rfl⟩ := cases_of_setPath h
  rfl

/-- A field that cannot be set fails with an error about that field. -/
theorem cause_of_setPath {e : EvalError} (h : target.setPath path v = .error e)
    (name expected found : String) : e.cause ≠ .setTypeMismatch name expected found := by
  induction path generalizing target with
  | nil =>
      rw [setPath] at h
      cases h
  | cons field rest ih =>
      unfold setPath at h
      cases target with
      | struct record =>
          cases rest with
          | nil =>
              dsimp only at h
              split at h
              · cases h
                intro hcause
                cases hcause
              · split at h
                · cases h
                · cases h
                  intro hcause
                  cases hcause
          | cons next rest =>
              dsimp only at h
              split at h
              · rename_i e' he
                cases h
                exact ih he
              · cases h
      | _ =>
          cases h
          intro hcause
          cases hcause

end Value

end StructScript
