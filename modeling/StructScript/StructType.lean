import StructScript.EvalError
import StructScript.NameMap
import StructScript.TypeName

/-!
# Struct types

A struct type declares fields and parameters. It is used by *instantiation*: every field declared
with the bare name of a parameter gets the type given for that parameter. All fields are replaced at
once, by their declared types, and the arguments of a declared type are not looked into.

Main definitions:

* `StructType`, with `StructType.ofDefinition`;
* `StructType.instantiate`.
-/

namespace StructScript

/-- A struct type: its parameters and the declared types of its fields. -/
structure StructType where
  name : String
  params : List String
  fields : NameMap TypeName

/-- A struct type with its parameters replaced, and what each parameter stands for. -/
structure Instantiation where
  type : StructType
  bindings : NameMap TypeName

namespace StructType

/-- The fields that groups of fields declare, in turn. -/
def declaredFields (groups : List Ast.FieldGroup) : List (String × TypeName) :=
  groups.flatMap (fun g => g.names.map (fun field => (field.name, TypeName.ofExpr g.type)))

/-- The type that a definition declares under a name. A field declared twice has the later type. -/
def ofDefinition (name : String) (d : Ast.StructDef) : StructType :=
  ⟨name, d.params.map (·.name), NameMap.ofList (declaredFields d.groups)⟩

/-- The type of a field whose parameters are replaced: a bare parameter by its binding, any other
type by itself. -/
def substitute (bindings : NameMap TypeName) (declared : TypeName) : TypeName :=
  match bindings.find? declared.name with
  | some type => if declared.args.isEmpty then type else declared
  | none => declared

/-- Replace the parameters of a type by arguments, of which there have to be as many. Of two
parameters of one name the later counts. -/
def instantiate (template : StructType) (args : List TypeName) :
    Except EvalError.Cause Instantiation :=
  if args.length = template.params.length then
    let bindings := NameMap.ofList (template.params.zip args)
    let fields := template.fields.map (fun f => (f.1, substitute bindings f.2))
    .ok ⟨{ template with fields := fields }, bindings⟩
  else .error (.typeArgumentArity template.name template.params.length args.length)

end StructType

end StructScript
