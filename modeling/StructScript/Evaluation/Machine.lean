import StructScript.Bounded
import StructScript.EvalError
import StructScript.Output
import StructScript.Store

/-!
# The machine

What evaluation reads and changes: the store of scopes, the printed output and the running calls.

Main definitions:

* `Machine`, and `Eval`, the computations over it;
* `Eval.lookup`, `Eval.define`, `Eval.defineType`, `Eval.print`, the basic steps;
* `Eval.inFrame`, which runs a computation as a call.
-/

namespace StructScript

/-- The state of an evaluation. -/
structure Machine where
  store : Store
  output : Output
  calls : CallStack

/-- A computation over the machine. -/
abbrev Eval (α : Type) : Type := Bounded Machine EvalError α

/-- How a list of statements ends. -/
inductive Outcome where
  /-- All statements have run. -/
  | completed
  /-- A return ended the list. -/
  | returned (v : Value)

namespace Outcome

/-- The value of a call whose body ends so. -/
def value : Outcome → Value
  | completed => .nil
  | returned v => v

/-- The returned value, if a return ended the list. -/
def returned? : Outcome → Option Value
  | completed => none
  | returned v => some v

end Outcome

namespace Eval

variable {α : Type}

/-- Stop at a construct. -/
def failAt (span : Span) (cause : EvalError.Cause) : Eval α := Bounded.fail (.atSpan span cause)

/-- Go on with a value, or stop with a cause that the constructs around it place. -/
def ofCause (x : Except EvalError.Cause α) : Eval α :=
  Bounded.ofExcept (x.mapError EvalError.ofCause)

/-- Place the errors of a computation at a construct, unless they are placed already. -/
def locate (span : Span) (m : Eval α) : Eval α := Bounded.mapError (EvalError.locate span) m

/-- The value of a variable. -/
def lookup (scope : ScopeId) (name : Ast.Ident) : Eval Value := do
  let m ← Bounded.state
  match m.store.lookupVariable scope name.name with
  | some v => return v
  | none => failAt name.span (.undefinedVariable name.name)

/-- Bind a variable. -/
def define (scope : ScopeId) (name : String) (v : Value) : Eval Unit :=
  Bounded.modifyState fun m => { m with store := m.store.defineVariable scope name v }

/-- Bind a type. -/
def defineType (scope : ScopeId) (name : String) (type : StructType) : Eval Unit :=
  Bounded.modifyState fun m => { m with store := m.store.defineType scope name type }

/-- Print a text. -/
def print (text : String) : Eval Unit :=
  Bounded.modifyState fun m => { m with output := m.output.write text }

/-- Make a scope inside another one, with some variables. -/
def enterScope (parent : ScopeId) (bindings : List (String × Value)) : Eval ScopeId := fun m =>
  let (scope, store) := m.store.addChild parent
  let store := bindings.foldl (fun s b => s.defineVariable scope b.1 b.2) store
  some (.ok scope, { m with store := store })

/-- Run a computation as a call. It is among the running calls while it runs, and its errors record
them. -/
def inFrame (frame : Frame) (body : Eval α) : Eval α := fun m =>
  match m.calls.push? frame with
  | .error limit => some (.error (.ofCause (.recursionLimitExceeded limit)), m)
  | .ok calls =>
    match body { m with calls := calls } with
    | none => none
    | some (.ok a, m') => some (.ok a, { m' with calls := m'.calls.pop })
    | some (.error e, m') =>
      some (.error (e.trace m'.calls.frames), { m' with calls := m'.calls.pop })

end Eval

end StructScript
