import StructScript.Operator

/-!
# Parse trees

A parse tree keeps every token that it was read from, so the source can be told from it up to gaps
and comments.

Main definitions:

* `Separated`, a list of items with their separators;
* `TypeRef`, `Place`, `StructDef`, the parts of declarations;
* `Expr`, `Stmt`, `Program`;
* `firstToken` and `lastToken`, the two ends of a tree.
-/

namespace StructScript.ParseTree

/-- An item of a list with the separator behind it, if there is one. -/
structure Item (α : Type) where
  value : α
  separator : Option Token
  deriving DecidableEq, Repr

/-- A list of items, each with the separator behind it. -/
abbrev Separated (α : Type) : Type := List (Item α)

namespace Separated

variable {α : Type}

/-- The items without the separators. -/
def values (items : Separated α) : List α := items.map (·.value)

/-- The separators without the items. -/
def separators (items : Separated α) : List Token := items.filterMap (·.separator)

end Separated

/-- A type: a name, or a name applied to arguments in brackets. -/
inductive TypeRef where
  | plain (name : Token)
  | applied (name lbracket : Token) (args : List (Item TypeRef)) (rbracket : Token)

namespace TypeRef

/-- The name that stands first. -/
def name : TypeRef → Token
  | plain name => name
  | applied name .. => name

/-- The first token. -/
def firstToken : TypeRef → Token := name

/-- The last token. -/
def lastToken : TypeRef → Token
  | plain name => name
  | applied _ _ _ rbracket => rbracket

end TypeRef

/-- Something that can be assigned to: a variable, or a field of a place. -/
inductive Place where
  | var (name : Token)
  | field (base : Place) (arrow field : Token)
  deriving DecidableEq, Repr

namespace Place

/-- The first token. -/
def firstToken : Place → Token
  | var name => name
  | field base _ _ => base.firstToken

/-- The last token. -/
def lastToken : Place → Token
  | var name => name
  | field _ _ name => name

end Place

/-- The parameters of a struct definition, in brackets. -/
structure TypeParams where
  lbracket : Token
  names : Separated Token
  rbracket : Token
  deriving DecidableEq, Repr

/-- A group of fields of one type. The last group of a definition may lack its semicolon. -/
structure FieldGroup where
  names : Separated Token
  type : TypeRef
  semicolon : Option Token

/-- A struct definition. -/
structure StructDef where
  structKw : Token
  params : Option TypeParams
  lbrace : Token
  groups : List FieldGroup
  rbrace : Token

/-- A parameter of a function literal. -/
structure Param where
  name : Token
  type : TypeRef

mutual

/-- An expression. -/
inductive Expr where
  | literal (kind : LiteralKind) (token : Token)
  | place (place : Place)
  | struct (type : TypeRef) (lbrace : Token) (inits : List (Item FieldInit)) (rbrace : Token)
  | unary (op : UnaryOp) (opToken : Token) (operand : Expr)
  | binary (left : Expr) (op : BinaryOp) (opToken : Token) (right : Expr)
  | group (lparen : Token) (inner : Expr) (rparen : Token)
  | call (callee : Place) (lparen : Token) (args : List (Item Expr)) (rparen : Token)
  | func (funcKw lparen : Token) (params : Separated Param) (rparen : Token)
      (result : Option TypeRef) (lbrace : Token) (body : List Stmt) (rbrace : Token)

/-- The value given to a field in a struct literal. -/
structure FieldInit where
  name : Token
  colon : Token
  value : Expr

/-- A statement. -/
inductive Stmt where
  | typeDef (typeKw : Token) (name : TypeRef) (eq : Token) (definition : StructDef)
      (semicolon : Token)
  | define (letKw : Token) (target : Place) (eq : Token) (value : Expr) (semicolon : Token)
  | assign (setKw : Token) (target : Place) (eq : Token) (value : Expr) (semicolon : Token)
  | ret (returnKw : Token) (value : Option Expr) (semicolon : Token)
  | expr (expr : Expr) (semicolon : Token)

end

namespace Expr

/-- The first token. -/
def firstToken : Expr → Token
  | literal _ token => token
  | place p => p.firstToken
  | struct type .. => type.firstToken
  | unary _ opToken _ => opToken
  | binary left .. => left.firstToken
  | group lparen .. => lparen
  | call callee .. => callee.firstToken
  | func funcKw .. => funcKw

/-- The last token. -/
def lastToken : Expr → Token
  | literal _ token => token
  | place p => p.lastToken
  | struct _ _ _ rbrace => rbrace
  | unary _ _ operand => operand.lastToken
  | binary _ _ _ right => right.lastToken
  | group _ _ rparen => rparen
  | call _ _ _ rparen => rparen
  | func _ _ _ _ _ _ _ rbrace => rbrace

/-- The place that an expression names, if it is nothing but a place. -/
def place? : Expr → Option Place
  | place p => some p
  | _ => none

end Expr

namespace Stmt

/-- The first token. -/
def firstToken : Stmt → Token
  | typeDef typeKw .. => typeKw
  | define letKw .. => letKw
  | assign setKw .. => setKw
  | ret returnKw .. => returnKw
  | expr e _ => e.firstToken

/-- The last token. -/
def lastToken : Stmt → Token
  | typeDef _ _ _ _ semicolon => semicolon
  | define _ _ _ _ semicolon => semicolon
  | assign _ _ _ _ semicolon => semicolon
  | ret _ _ semicolon => semicolon
  | expr _ semicolon => semicolon

end Stmt

/-- A source text. The closing token is missing if the tokens ran out without one. -/
structure Program where
  stmts : List Stmt
  eof : Option Token

end StructScript.ParseTree
