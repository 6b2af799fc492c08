import StructScript.Operator

/-!
# Abstract syntax

What a program means, without brackets, separators and groups. Every node keeps the span of the
tokens it was read from.

Main definitions:

* `Ident`, `TypeExpr`, `Place`, `StructDef`, the parts of declarations;
* `Expr`, `FuncDef`, `Stmt`, `Program`.
-/

namespace StructScript.Ast

/-- A name where it stands. -/
structure Ident where
  name : String
  span : Span
  deriving DecidableEq, Repr

/-- A type: a name with its arguments. -/
inductive TypeExpr where
  | mk (name : Ident) (args : List TypeExpr) (span : Span)

namespace TypeExpr

/-- The name that is applied. -/
def name : TypeExpr → Ident
  | mk name _ _ => name

/-- The types it is applied to. -/
def args : TypeExpr → List TypeExpr
  | mk _ args _ => args

/-- Where the type stands. -/
def span : TypeExpr → Span
  | mk _ _ span => span

end TypeExpr

/-- Something that can be assigned to: a variable, or a field of a place. -/
inductive Place where
  | var (name : Ident)
  | field (base : Place) (name : Ident) (span : Span)
  deriving DecidableEq, Repr

namespace Place

/-- The variable that a place begins with. -/
def root : Place → Ident
  | var name => name
  | field base _ _ => base.root

/-- Where the place stands. -/
def span : Place → Span
  | var name => name.span
  | field _ _ span => span

/-- The fields after the root, in the order in which they are followed. -/
def path : Place → List Ident
  | var _ => []
  | field base name _ => base.path ++ [name]

/-- The place as it is written in a source, without gaps. -/
def written : Place → String
  | var name => name.name
  | field base name _ => base.written ++ "->" ++ name.name

end Place

/-- Fields of one type. -/
structure FieldGroup where
  names : List Ident
  type : TypeExpr
  span : Span

/-- A struct definition. -/
structure StructDef where
  params : List Ident
  groups : List FieldGroup
  span : Span

/-- A parameter of a function. -/
structure Param where
  name : Ident
  type : TypeExpr

mutual

/-- An expression where it stands. -/
structure Expr where
  node : Node
  span : Span

/-- What an expression is. -/
inductive Node where
  /-- A literal, not evaluated yet. -/
  | literal (kind : LiteralKind) (lexeme : String)
  | place (place : Place)
  | struct (type : TypeExpr) (inits : List FieldInit)
  | unary (op : UnaryOp) (operand : Expr)
  | binary (op : BinaryOp) (left right : Expr)
  | call (callee : Place) (args : List Expr)
  | func (definition : FuncDef)

/-- The value given to a field. -/
structure FieldInit where
  name : Ident
  value : Expr
  span : Span

/-- A function literal. The number of the source text and the span tell it from every other function
literal that has been read. -/
structure FuncDef where
  params : List Param
  result : Option TypeExpr
  body : List Stmt
  span : Span
  source : Nat

/-- A statement where it stands. -/
inductive Stmt where
  | typeDef (name : TypeExpr) (definition : StructDef) (span : Span)
  | define (target : Place) (value : Expr) (span : Span)
  | assign (target : Place) (value : Expr) (span : Span)
  | ret (value : Option Expr) (span : Span)
  | expr (expr : Expr)

end

/-- Where a statement stands. -/
def Stmt.span : Stmt → Span
  | typeDef _ _ span => span
  | define _ _ span => span
  | assign _ _ span => span
  | ret _ span => span
  | expr e => e.span

/-- Whether two function literals are one and the same. -/
def FuncDef.sameAs (f g : FuncDef) : Bool := f.source == g.source && f.span == g.span

/-- The statements of a source text. -/
structure Program where
  stmts : List Stmt

end StructScript.Ast
