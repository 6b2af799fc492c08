import StructScript.Evaluation.Machine

/-!
# Reading and assigning places

A place is read by looking up its root and following its fields. It is assigned by reading the value
of its root, replacing the field at the end of the path in a copy, and assigning the copy to the
root. The new value has to be of the declared type of the field, and the value of the root keeps its
type.

Main definitions:

* `Eval.readPlace`;
* `Value.setPath`, replacing a field inside a value;
* `Store.assignPlace`, `Eval.assignPlace`.
-/

namespace StructScript

namespace Value

/-- The value with the field at the end of a path replaced. Every step but the last may pass over an
absent field only to fail at the next one, since nil has no fields. -/
def setPath (target : Value) (path : List Ast.Ident) (v : Value) : Except EvalError Value :=
  match path with
  | [] => .ok v
  | field :: rest =>
    match target with
    | struct record =>
      match rest with
      | [] =>
        match record.fieldTypes.find? field.name with
        | none => .error (.atSpan field.span (.unknownField record.type.name field.name))
        | some declared =>
          if v.typeName = declared.name then
            .ok (struct { record with fields := NameMap.insert field.name v record.fields })
          else
            .error (.atSpan field.span
              (.fieldTypeMismatch field.name declared.text v.typeName))
      | next :: rest =>
        match setPath ((NameMap.find? record.fields field.name).getD nil) (next :: rest) v with
        | .error e => .error e
        | .ok inner =>
          .ok (struct { record with fields := NameMap.insert field.name inner record.fields })
    | other =>
      .error (.atSpan field.span (.invalidAssignmentTarget field.name other.typeName))

end Value

/-- Give the variable at the root of a place another value of its type. -/
def Store.assignRoot (s : Store) (scope : ScopeId) (root : Ast.Ident) (v : Value) :
    Except EvalError Store :=
  match s.assign scope root.name v with
  | .ok s => .ok s
  | .error .undefined => .error (.atSpan root.span (.undefinedVariable root.name))
  | .error (.typeMismatch expected found) =>
    .error (.ofCause (.setTypeMismatch root.name expected found))

/-- Assign a value to a place. -/
def Store.assignPlace (s : Store) (scope : ScopeId) (target : Ast.Place) (v : Value) :
    Except EvalError Store :=
  match target with
  | .var name => s.assignRoot scope name v
  | .field .. =>
    match s.lookupVariable scope target.root.name with
    | none => .error (.atSpan target.root.span (.undefinedVariable target.root.name))
    | some current =>
      match current.setPath target.path v with
      | .error e => .error e
      | .ok new => s.assignRoot scope target.root new

namespace Eval

/-- The value at a place. -/
def readPlace (scope : ScopeId) : Ast.Place → Eval Value
  | .var name => lookup scope name
  | .field base name _ => do
    let v ← readPlace scope base
    return v.get name.name

/-- Assign a value to a place. The machine stays as it was if that fails. -/
def assignPlace (scope : ScopeId) (target : Ast.Place) (v : Value) : Eval Unit := fun m =>
  match m.store.assignPlace scope target v with
  | .error e => some (.error e, m)
  | .ok store => some (.ok (), { m with store := store })

end Eval

end StructScript
