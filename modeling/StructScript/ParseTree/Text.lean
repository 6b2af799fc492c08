import StructScript.ParseTree

/-!
# Parse trees as text

Every tree is written as one bracketed line with the operator first: `1 + 2 * 3` as
`(+ 1 (* 2 3))`, `a->b->c` as `(-> (-> a b) c)`. A program is written one statement a line.
-/

namespace StructScript.ParseTree

/-- A type as it is written in a source, without gaps. -/
def TypeRef.text : TypeRef → String
  | .plain name => name.lexeme
  | .applied name _ args _ => name.lexeme ++ "[" ++ ",".intercalate (argTexts args) ++ "]"
where
  /-- The arguments in turn. -/
  argTexts : List (Item TypeRef) → List String
    | [] => []
    | ⟨type, _⟩ :: rest => type.text :: argTexts rest

/-- A place, the outermost field first. -/
def Place.text : Place → String
  | .var name => name.lexeme
  | .field base _ name => "(-> " ++ base.text ++ " " ++ name.lexeme ++ ")"

/-- A group of fields. -/
def FieldGroup.text (g : FieldGroup) : String :=
  "(" ++ " ".intercalate (g.names.values.map (·.lexeme)) ++ " " ++ g.type.text ++ ")"

/-- A struct definition. -/
def StructDef.text (d : StructDef) : String :=
  let params := match d.params with
    | some p => "[" ++ ",".intercalate (p.names.values.map (·.lexeme)) ++ "] "
    | none => ""
  "(struct " ++ params ++ "\x7b" ++ " ".intercalate (d.groups.map FieldGroup.text) ++ "\x7d)"

/-- A parameter. -/
def Param.text (p : Param) : String := "(" ++ p.name.lexeme ++ " " ++ p.type.text ++ ")"

mutual

/-- An expression. -/
def Expr.text : Expr → String
  | .literal _ token => token.lexeme
  | .place p => p.text
  | .struct type _ inits _ =>
    "(" ++ type.text ++ " \x7b" ++ " ".intercalate (Expr.initTexts inits) ++ "\x7d)"
  | .unary _ opToken operand => "(" ++ opToken.lexeme ++ " " ++ operand.text ++ ")"
  | .binary left _ opToken right =>
    "(" ++ opToken.lexeme ++ " " ++ left.text ++ " " ++ right.text ++ ")"
  | .group _ inner _ => "(" ++ inner.text ++ ")"
  | .call callee _ args _ =>
    "(" ++ callee.text ++ " (" ++ " ".intercalate (Expr.argTexts args) ++ "))"
  | .func _ _ params _ result _ body _ =>
    let result := match result with
      | some type => " " ++ type.text
      | none => ""
    "(func (" ++ " ".intercalate (params.values.map Param.text) ++ ")" ++ result ++ " \x7b" ++
      " ".intercalate (Stmt.texts body) ++ "\x7d)"

/-- The initialisers of a struct literal in turn. -/
def Expr.initTexts : List (Item FieldInit) → List String
  | [] => []
  | ⟨⟨name, _, value⟩, _⟩ :: rest =>
    ("(" ++ name.lexeme ++ ":" ++ value.text ++ ")") :: Expr.initTexts rest

/-- The arguments of a call in turn. -/
def Expr.argTexts : List (Item Expr) → List String
  | [] => []
  | ⟨arg, _⟩ :: rest => arg.text :: Expr.argTexts rest

/-- A statement. -/
def Stmt.text : Stmt → String
  | .typeDef _ name _ definition _ => "(type " ++ name.text ++ " = " ++ definition.text ++ " ;)"
  | .define _ target _ value _ => "(let " ++ target.text ++ " = " ++ value.text ++ " ;)"
  | .assign _ target _ value _ => "(set " ++ target.text ++ " = " ++ value.text ++ " ;)"
  | .ret _ (some value) _ => "(return " ++ value.text ++ " ;)"
  | .ret _ none _ => "(return ;)"
  | .expr e _ => "(" ++ e.text ++ " ;)"

/-- Some statements in turn. -/
def Stmt.texts : List Stmt → List String
  | [] => []
  | stmt :: rest => stmt.text :: Stmt.texts rest

end

/-- A program. -/
def Program.text (p : Program) : String := "\n".intercalate (Stmt.texts p.stmts)

end StructScript.ParseTree
