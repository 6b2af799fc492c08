import StructScript.Ast

/-!
# Abstract syntax as text

Expressions are written as one bracketed line with the operator first; a function literal is written
by its signature alone.
-/

namespace StructScript.Ast

/-- A type as it is written in a source, without gaps. -/
def TypeExpr.text : TypeExpr → String
  | .mk name args _ =>
    if args.isEmpty then name.name
    else name.name ++ "[" ++ ",".intercalate (argTexts args) ++ "]"
where
  /-- The arguments in turn. -/
  argTexts : List TypeExpr → List String
    | [] => []
    | type :: rest => type.text :: argTexts rest

/-- A place, the outermost field first. -/
def Place.text : Place → String
  | .var name => name.name
  | .field base name _ => "(-> " ++ base.text ++ " " ++ name.name ++ ")"

/-- The signature of a function: its parameters and its result. -/
def FuncDef.signature (f : FuncDef) : String :=
  let result := match f.result with
    | some type => " " ++ type.text
    | none => ""
  "func(" ++ ", ".intercalate (f.params.map (fun p => p.name.name ++ " " ++ p.type.text)) ++ ")" ++
    result

mutual

/-- An expression. -/
def Expr.text : Expr → String
  | ⟨node, _⟩ => node.text

/-- An expression without its place. -/
def Node.text : Node → String
  | .literal _ lexeme => lexeme
  | .place p => p.text
  | .struct type inits =>
    "(" ++ type.text ++ " \x7b" ++ " ".intercalate (Node.initTexts inits) ++ "\x7d)"
  | .unary op operand => "(" ++ op.symbol ++ " " ++ operand.text ++ ")"
  | .binary op left right => "(" ++ op.symbol ++ " " ++ left.text ++ " " ++ right.text ++ ")"
  | .call callee args => "(" ++ callee.text ++ " (" ++ " ".intercalate (Node.argTexts args) ++ "))"
  | .func f => f.signature

/-- The initialisers of a struct literal in turn. -/
def Node.initTexts : List FieldInit → List String
  | [] => []
  | ⟨name, value, _⟩ :: rest =>
    ("(" ++ name.name ++ ":" ++ value.text ++ ")") :: Node.initTexts rest

/-- The arguments of a call in turn. -/
def Node.argTexts : List Expr → List String
  | [] => []
  | arg :: rest => arg.text :: Node.argTexts rest

end

end StructScript.Ast
