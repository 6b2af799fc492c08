import StructScript.Evaluation.Expression

/-!
# Calling functions

A call checks the number of arguments and then the type of each, and runs the body of the function
in a new scope inside the scope of the function, with the arguments bound to the parameters. The
nesting of calls is bounded; a bound above the limit of the call stack is never used up.

Main definitions:

* `Closure.checkArguments`;
* `Closure.call`, with the bound given;
* `Machine.run`, running statements.
-/

namespace StructScript

namespace Closure

/-- Check the types of arguments against parameters in turn, and pair them. -/
def bindArguments (callee : String) :
    List (Ast.Param × Value) → Except EvalError.Cause (List (String × Value))
  | [] => .ok []
  | (param, arg) :: rest =>
    if arg.typeName = param.type.name.name then
      match bindArguments callee rest with
      | .ok bindings => .ok ((param.name.name, arg) :: bindings)
      | .error cause => .error cause
    else .error (.argumentType callee param.name.name param.type.text arg.typeName)

/-- The variables of a call, if the arguments suit the parameters in number and in type. -/
def checkArguments (callee : String) (f : Closure) (args : List Value) :
    Except EvalError.Cause (List (String × Value)) :=
  if args.length = f.arity then bindArguments callee (f.definition.params.zip args)
  else .error (.argumentCount callee f.arity args.length)

/-- Call a function, under a bound on the nesting of calls. -/
def call (strict : Bool) : Nat → CallRule
  | 0, _, _, _, _ => Bounded.exhausted
  | n + 1, name, f, args, span => do
    let bindings ← Eval.ofCause (f.checkArguments name args)
    let outcome ← Eval.inFrame ⟨name, some span⟩ do
      let scope ← Eval.enterScope f.scope bindings
      Ast.Stmt.execAll ⟨strict, call strict n⟩ scope f.definition.body
    return outcome.value

end Closure

namespace Machine

/-- Run statements in a scope, with at most `bound` calls inside one another. -/
def run (strict : Bool) (bound : Nat) (scope : ScopeId) (stmts : List Ast.Stmt) : Eval Outcome :=
  Ast.Stmt.execAll ⟨strict, Closure.call strict bound⟩ scope stmts

end Machine

end StructScript
