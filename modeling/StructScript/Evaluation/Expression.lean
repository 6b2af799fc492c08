import StructScript.Evaluation.Place
import StructScript.Text.Escape
import StructScript.Value.Operation

/-!
# Evaluating expressions and statements

Evaluation follows the syntax. What a call of a function does is a parameter of all evaluators, so
that the recursion ends with the syntax; `StructScript.Evaluation.Call` supplies it.

Main definitions:

* `Rules`, the parameters of an evaluation;
* `Value.ofLiteral`;
* `Expr.eval`, `Stmt.exec`, `Stmt.execAll`, in the namespace `Ast`.
-/

namespace StructScript

/-- How a function is called: the name it is called by, the function, its arguments, and the place
of the call. -/
abbrev CallRule : Type := String → Closure → List Value → Span → Eval Value

/-- The parameters of an evaluation. -/
structure Rules where
  /-- Whether a struct literal has to give every field. -/
  strict : Bool
  /-- What a call of a function does. -/
  call : CallRule

/-- The value of a literal. -/
def Value.ofLiteral (kind : LiteralKind) (lexeme : String) : Except EvalError.Cause Value :=
  match kind with
  | .int =>
    match Decimal.readNat? lexeme.toList with
    | some n =>
      if (n : Int) ≤ Int64.maxValue.toInt then .ok (.int (Int64.ofNat n))
      else .error (.invalidLiteral lexeme)
    | none => .error (.invalidLiteral lexeme)
  | .float =>
    match Decimal.readFloat? lexeme with
    | some x => .ok (.float x)
    | none => .error (.invalidLiteral lexeme)
  | .string => .ok (.str (Escape.value lexeme))
  | .true => .ok (.bool true)
  | .false => .ok (.bool false)
  | .nil => .ok .nil

namespace Eval

/-- The struct type that a struct literal names, with its parameters replaced. -/
def instantiate (scope : ScopeId) (type : Ast.TypeExpr) : Eval Instantiation := do
  let m ← Bounded.state
  match m.store.lookupType scope type.name.name with
  | none => failAt type.span (.undefinedType type.name.name)
  | some template => locate type.span (ofCause (template.instantiate (TypeName.ofExpr type).args))

/-- The least of the declared fields that has not been given. -/
def missingField? (declared : NameMap TypeName) (fields : NameMap Value) : Option String :=
  declared.names.find? (fun name => !fields.contains name)

/-- The struct value of a literal whose fields have been evaluated. -/
def buildStruct (strict : Bool) (type : Ast.TypeExpr) (inst : Instantiation)
    (fields : NameMap Value) : Except EvalError.Cause Value :=
  match if strict then missingField? inst.type.fields fields else none with
  | some name => .error (.missingField type.name.name name)
  | none => .ok (.struct ⟨TypeName.ofExpr type, inst.bindings, inst.type.fields, fields⟩)

/-- The built-in function that a call names. A field is never built in, a variable of the same name
does not hide it. -/
def builtin? : Ast.Place → Option Builtin
  | .var name => Builtin.ofName? name.name
  | .field .. => none

/-- Call what stands at a place. -/
def callPlace (rules : Rules) (scope : ScopeId) (callee : Ast.Place) (args : List Value)
    (span : Span) : Eval Value :=
  match builtin? callee with
  | some f => do
    print (f.printed args)
    return .nil
  | none => do
    match ← readPlace scope callee with
    | .func f => rules.call callee.written f args span
    | other => failAt callee.span (.notCallable callee.written other.typeName)

end Eval

namespace Ast

open Eval

mutual

/-- The value of an expression. -/
def Expr.eval (rules : Rules) (scope : ScopeId) : Expr → Eval Value
  | ⟨node, span⟩ => locate span (node.eval rules scope span)

/-- The value of an expression that stands at `span`. -/
def Node.eval (rules : Rules) (scope : ScopeId) (span : Span) : Node → Eval Value
  | .literal kind lexeme => ofCause (Value.ofLiteral kind lexeme)
  | .place p => readPlace scope p
  | .struct type inits => do
    let inst ← instantiate scope type
    let fields ← Node.evalInits rules scope type.name.name inst.type.fields [] inits
    ofCause (buildStruct rules.strict type inst fields)
  | .unary op operand => do
    let v ← operand.eval rules scope
    ofCause (Value.applyUnary op v)
  | .binary op left right => do
    let a ← left.eval rules scope
    let b ← right.eval rules scope
    ofCause (Value.applyBinary op a b)
  | .call callee args => do
    let values ← Node.evalArgs rules scope args
    callPlace rules scope callee values span
  | .func f => return .func ⟨f, scope⟩

/-- The fields of a struct literal, added in turn to those given so far. Every field has to be
declared, and its value of the declared type. -/
def Node.evalInits (rules : Rules) (scope : ScopeId) (typeName : String)
    (declared : NameMap TypeName) (given : NameMap Value) : List FieldInit → Eval (NameMap Value)
  | [] => return given
  | ⟨name, value, span⟩ :: rest =>
    match declared.find? name.name with
    | none => failAt name.span (.unknownField typeName name.name)
    | some type => do
      let v ← value.eval rules scope
      if v.typeName = type.name then
        Node.evalInits rules scope typeName declared (given.insert name.name v) rest
      else failAt span (.fieldTypeMismatch name.name type.text v.typeName)

/-- The arguments of a call, from left to right. -/
def Node.evalArgs (rules : Rules) (scope : ScopeId) : List Expr → Eval (List Value)
  | [] => return []
  | arg :: rest => do
    let v ← arg.eval rules scope
    let vs ← Node.evalArgs rules scope rest
    return v :: vs

end

/-- Run a statement. A type goes by the name that is defined; parameters written behind that name
do not count. -/
def Stmt.exec (rules : Rules) (scope : ScopeId) : Stmt → Eval Outcome
  | .typeDef name definition _ => do
    defineType scope name.name.name (StructType.ofDefinition name.name.name definition)
    return .completed
  | .define target value _ => do
    let v ← value.eval rules scope
    Eval.define scope target.root.name v
    return .completed
  | .assign target value span => do
    let v ← value.eval rules scope
    locate span (assignPlace scope target v)
    return .completed
  | .ret (some value) _ => do
    let v ← value.eval rules scope
    return .returned v
  | .ret none _ => return .returned .nil
  | .expr e => do
    let _ ← e.eval rules scope
    return .completed

/-- Run statements in turn, up to a return. -/
def Stmt.execAll (rules : Rules) (scope : ScopeId) : List Stmt → Eval Outcome
  | [] => return .completed
  | stmt :: rest => do
    match ← stmt.exec rules scope with
    | .completed => Stmt.execAll rules scope rest
    | .returned v => return .returned v

end Ast

end StructScript
