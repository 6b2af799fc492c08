import StructScript.Ast

/-!
# Type names

The types that values are checked against: a name with the types it is applied to.

Main definitions: `TypeName`, with `TypeName.text` and `TypeName.ofExpr`.
-/

namespace StructScript

/-- A type: a name, applied to other types. -/
inductive TypeName where
  | mk (name : String) (args : List TypeName)

namespace TypeName

/-- The name that is applied. -/
def name : TypeName → String
  | mk name _ => name

/-- The types it is applied to. -/
def args : TypeName → List TypeName
  | mk _ args => args

/-- A name applied to nothing. -/
def simple (name : String) : TypeName := mk name []

/-- How many types the name is applied to. -/
def arity (t : TypeName) : Nat := t.args.length

/-- The name, with the arguments in brackets behind it if there are any. -/
def text : TypeName → String
  | mk name args =>
    if args.isEmpty then name else name ++ "[" ++ ",".intercalate (argTexts args) ++ "]"
where
  /-- The arguments in turn. -/
  argTexts : List TypeName → List String
    | [] => []
    | type :: rest => type.text :: argTexts rest

/-- The type that a program writes. -/
def ofExpr : Ast.TypeExpr → TypeName
  | .mk name args _ => mk name.name (ofExprs args)
where
  /-- The arguments in turn. -/
  ofExprs : List Ast.TypeExpr → List TypeName
    | [] => []
    | type :: rest => ofExpr type :: ofExprs rest

mutual

/-- Whether two types are written alike. -/
def beq : TypeName → TypeName → Bool
  | mk name args, mk name' args' => name == name' && beqList args args'

/-- Whether two lists of types are written alike. -/
def beqList : List TypeName → List TypeName → Bool
  | [], [] => true
  | type :: rest, type' :: rest' => beq type type' && beqList rest rest'
  | _, _ => false

end

instance : BEq TypeName := ⟨beq⟩

/-- A type goes by the name that is written. -/
@[simp] theorem name_ofExpr (type : Ast.TypeExpr) : (ofExpr type).name = type.name.name := by
  cases type; rfl

end TypeName

end StructScript
