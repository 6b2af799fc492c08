import StructScript.Ast
import StructScript.ParseTree

/-!
# From parse trees to abstract syntax

Separators and brackets are dropped, and a group becomes the expression inside it. Every node keeps
the span from its first to its last token; the expression of a group keeps its own.

Main definition: `ParseTree.Program.toAst`. The number of the source text is given, and goes into
every function literal.
-/

namespace StructScript.ParseTree

/-- A token as a name. -/
def identOf (token : Token) : Ast.Ident := ⟨token.lexeme, token.span⟩

/-- A type. -/
def TypeRef.toAst : TypeRef → Ast.TypeExpr
  | .plain name => .mk (identOf name) [] name.span
  | .applied name _ args rbracket => .mk (identOf name) (argsToAst args) (name.spanTo rbracket)
where
  /-- The arguments in turn. -/
  argsToAst : List (Item TypeRef) → List Ast.TypeExpr
    | [] => []
    | ⟨type, _⟩ :: rest => type.toAst :: argsToAst rest

/-- Type arguments are read one by one, without their separators. -/
theorem TypeRef.argsToAst_eq (args : Separated TypeRef) :
    toAst.argsToAst args = args.values.map toAst := by
  induction args with
  | nil => rfl
  | cons item rest ih => exact congrArg (_ :: ·) ih

/-- A place. -/
def Place.toAst : Place → Ast.Place
  | .var name => .var (identOf name)
  | .field base _ name => .field base.toAst (identOf name) (base.firstToken.spanTo name)

/-- A group of fields. It ends with its semicolon, or with its type. -/
def FieldGroup.toAst (g : FieldGroup) : Ast.FieldGroup :=
  let names := g.names.values.map identOf
  let type := g.type.toAst
  let stop := match g.semicolon with
    | some semicolon => semicolon.span
    | none => type.span
  ⟨names, type, match names with
    | first :: _ => first.span.join stop
    | [] => type.span⟩

/-- A struct definition. -/
def StructDef.toAst (d : StructDef) : Ast.StructDef :=
  let params := match d.params with
    | some p => p.names.values.map identOf
    | none => []
  ⟨params, d.groups.map FieldGroup.toAst, d.structKw.spanTo d.rbrace⟩

/-- A parameter. -/
def Param.toAst (p : Param) : Ast.Param := ⟨identOf p.name, p.type.toAst⟩

mutual

/-- An expression. -/
def Expr.toAst (source : Nat) : Expr → Ast.Expr
  | .literal kind token => ⟨.literal kind token.lexeme, token.span⟩
  | .place p => ⟨.place p.toAst, p.firstToken.spanTo p.lastToken⟩
  | .struct type _ inits rbrace =>
    ⟨.struct type.toAst (Expr.initsToAst source inits), type.firstToken.spanTo rbrace⟩
  | .unary op opToken operand =>
    ⟨.unary op (operand.toAst source), opToken.spanTo operand.lastToken⟩
  | .binary left op _ right =>
    ⟨.binary op (left.toAst source) (right.toAst source),
      left.firstToken.spanTo right.lastToken⟩
  | .group _ inner _ => inner.toAst source
  | .call callee _ args rparen =>
    ⟨.call callee.toAst (Expr.argsToAst source args), callee.firstToken.spanTo rparen⟩
  | .func funcKw _ params _ result _ body rbrace =>
    let span := funcKw.spanTo rbrace
    ⟨.func ⟨params.values.map Param.toAst, result.map TypeRef.toAst, Stmt.listToAst source body,
      span, source⟩, span⟩

/-- The initialisers of a struct literal in turn. -/
def Expr.initsToAst (source : Nat) : List (Item FieldInit) → List Ast.FieldInit
  | [] => []
  | ⟨⟨name, _, value⟩, _⟩ :: rest =>
    let value := value.toAst source
    ⟨identOf name, value, name.span.join value.span⟩ :: Expr.initsToAst source rest

/-- The arguments of a call in turn. -/
def Expr.argsToAst (source : Nat) : List (Item Expr) → List Ast.Expr
  | [] => []
  | ⟨arg, _⟩ :: rest => arg.toAst source :: Expr.argsToAst source rest

/-- A statement. -/
def Stmt.toAst (source : Nat) : Stmt → Ast.Stmt
  | .typeDef typeKw name _ definition semicolon =>
    .typeDef name.toAst definition.toAst (typeKw.spanTo semicolon)
  | .define letKw target _ value semicolon =>
    .define target.toAst (value.toAst source) (letKw.spanTo semicolon)
  | .assign setKw target _ value semicolon =>
    .assign target.toAst (value.toAst source) (setKw.spanTo semicolon)
  | .ret returnKw (some value) semicolon =>
    .ret (some (value.toAst source)) (returnKw.spanTo semicolon)
  | .ret returnKw none semicolon => .ret none (returnKw.spanTo semicolon)
  | .expr e _ => .expr (e.toAst source)

/-- Some statements in turn. -/
def Stmt.listToAst (source : Nat) : List Stmt → List Ast.Stmt
  | [] => []
  | stmt :: rest => stmt.toAst source :: Stmt.listToAst source rest

end

/-- A program, read from the source text with this number. -/
def Program.toAst (source : Nat) (p : Program) : Ast.Program := ⟨Stmt.listToAst source p.stmts⟩

end StructScript.ParseTree
