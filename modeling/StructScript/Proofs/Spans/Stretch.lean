import StructScript.Ast.OfParseTree
import StructScript.Proofs.Grammar.Yield
import StructScript.Proofs.Spans.Outline

/-!
# The tokens behind a span

The nodes of abstract syntax are the nodes of parse trees but for groups, for which the expressions
inside them stand. The outline of a parse tree labels each of these nodes with the tokens that the
node was read from and with the mark that it has in the abstract syntax (`ParseTree.Stretch`).
Without the tokens it is the outline of the abstract syntax: `Program.outline_toAst`.
-/

namespace StructScript.ParseTree

open Outline (node)

/-- The tokens of a node and its mark. -/
structure Stretch where
  tokens : List Token
  mark : Ast.Mark

/-- A name. -/
def nameOutline (name : Token) : Outline Stretch := node ⟨[name], .ident, some name.span⟩ []

/-- A type. -/
def TypeRef.outline : TypeRef → Outline Stretch
  | plain name => node ⟨[name], .type, some name.span⟩ [nameOutline name]
  | applied name lbracket args rbracket =>
    node ⟨(applied name lbracket args rbracket).yield, .type, some (name.spanTo rbracket)⟩
      (nameOutline name :: argsOutlines args)
where
  /-- The arguments in turn. -/
  argsOutlines : List (Item TypeRef) → List (Outline Stretch)
    | [] => []
    | ⟨type, _⟩ :: rest => type.outline :: argsOutlines rest

/-- A place. -/
def Place.outline : Place → Outline Stretch
  | var name => nameOutline name
  | field base arrow name =>
    node ⟨(field base arrow name).yield, .place, some (base.firstToken.spanTo name)⟩
      [base.outline, nameOutline name]

/-- A group of fields. -/
def FieldGroup.outline (g : FieldGroup) : Outline Stretch :=
  node ⟨g.yield, .fieldGroup, some g.toAst.span⟩
    (g.names.values.map nameOutline ++ [g.type.outline])

/-- The names of parameters of a struct definition, if there are any. -/
def StructDef.paramNames (d : StructDef) : List Token :=
  match d.params with
  | some params => params.names.values
  | none => []

/-- A struct definition. -/
def StructDef.outline (d : StructDef) : Outline Stretch :=
  node ⟨d.yield, .structDef, some (d.structKw.spanTo d.rbrace)⟩
    (d.paramNames.map nameOutline ++ d.groups.map FieldGroup.outline)

/-- A parameter. -/
def Param.outline (p : Param) : Outline Stretch :=
  node ⟨p.yield, .param, none⟩ [nameOutline p.name, p.type.outline]

/-- The span of an expression. That of a group is the span of the expression inside it. -/
def Expr.span : Expr → Span
  | group _ inner _ => inner.span
  | e => e.firstToken.spanTo e.lastToken

mutual

/-- An expression. -/
def Expr.outline : Expr → Outline Stretch
  | .literal _ token => node ⟨[token], .expr, some token.span⟩ []
  | .place p => node ⟨p.yield, .expr, some (p.firstToken.spanTo p.lastToken)⟩ [p.outline]
  | .struct type lbrace inits rbrace =>
    node ⟨(Expr.struct type lbrace inits rbrace).yield, .expr,
        some (type.firstToken.spanTo rbrace)⟩
      (type.outline :: Expr.initsOutlines inits)
  | .unary op opToken operand =>
    node ⟨(Expr.unary op opToken operand).yield, .expr, some (opToken.spanTo operand.lastToken)⟩
      [operand.outline]
  | .binary left op opToken right =>
    node ⟨(Expr.binary left op opToken right).yield, .expr,
        some (left.firstToken.spanTo right.lastToken)⟩
      [left.outline, right.outline]
  | .group _ inner _ => inner.outline
  | .call callee lparen args rparen =>
    node ⟨(Expr.call callee lparen args rparen).yield, .expr,
        some (callee.firstToken.spanTo rparen)⟩
      (callee.outline :: Expr.argsOutlines args)
  | .func funcKw lparen params rparen result lbrace body rbrace =>
    node ⟨(Expr.func funcKw lparen params rparen result lbrace body rbrace).yield, .expr,
        some (funcKw.spanTo rbrace)⟩
      [node ⟨(Expr.func funcKw lparen params rparen result lbrace body rbrace).yield, .func,
          some (funcKw.spanTo rbrace)⟩
        (params.values.map Param.outline ++
          (result.toList.map TypeRef.outline ++ Stmt.outlines body))]

/-- An initialiser. -/
def FieldInit.outline : FieldInit → Outline Stretch
  | ⟨name, colon, value⟩ =>
    node ⟨name :: colon :: value.yield, .init, some (name.span.join value.span)⟩
      [nameOutline name, value.outline]

/-- Some initialisers in turn. -/
def Expr.initsOutlines : List (Item FieldInit) → List (Outline Stretch)
  | [] => []
  | ⟨init, _⟩ :: rest => init.outline :: Expr.initsOutlines rest

/-- Some arguments in turn. -/
def Expr.argsOutlines : List (Item Expr) → List (Outline Stretch)
  | [] => []
  | ⟨arg, _⟩ :: rest => arg.outline :: Expr.argsOutlines rest

/-- A statement. -/
def Stmt.outline : Stmt → Outline Stretch
  | .typeDef typeKw name eq definition semicolon =>
    node ⟨(Stmt.typeDef typeKw name eq definition semicolon).yield, .stmt,
        some (typeKw.spanTo semicolon)⟩
      [name.outline, definition.outline]
  | .define letKw target eq value semicolon =>
    node ⟨(Stmt.define letKw target eq value semicolon).yield, .stmt,
        some (letKw.spanTo semicolon)⟩
      [target.outline, value.outline]
  | .assign setKw target eq value semicolon =>
    node ⟨(Stmt.assign setKw target eq value semicolon).yield, .stmt,
        some (setKw.spanTo semicolon)⟩
      [target.outline, value.outline]
  | .ret returnKw (some value) semicolon =>
    node ⟨(Stmt.ret returnKw (some value) semicolon).yield, .stmt,
        some (returnKw.spanTo semicolon)⟩
      [value.outline]
  | .ret returnKw none semicolon =>
    node ⟨[returnKw, semicolon], .stmt, some (returnKw.spanTo semicolon)⟩ []
  | .expr e _ => e.outline

/-- Some statements in turn. -/
def Stmt.outlines : List Stmt → List (Outline Stretch)
  | [] => []
  | stmt :: rest => stmt.outline :: Stmt.outlines rest

end

/-- A program. -/
def Program.outline (p : Program) : Outline Stretch :=
  node ⟨p.yield, .program, none⟩ (Stmt.outlines p.stmts)

/-! ### The outline of the abstract syntax -/

/-- A name and the identifier that it makes. -/
@[simp] theorem outline_identOf (name : Token) :
    (identOf name).outline = (nameOutline name).map Stretch.mark := rfl

mutual

/-- A type and what it stands for. -/
theorem TypeRef.outline_toAst : (type : TypeRef) →
    type.toAst.outline = type.outline.map Stretch.mark
  | .plain name => rfl
  | .applied name lbracket args rbracket => by
      simp [TypeRef.toAst, TypeRef.outline, Ast.TypeExpr.outline, TypeRef.outlines_argsToAst args]

/-- Type arguments and what they stand for. -/
theorem TypeRef.outlines_argsToAst : (args : List (Item TypeRef)) →
    Ast.TypeExpr.outline.argsOutlines (toAst.argsToAst args) =
      (outline.argsOutlines args).map (Outline.map Stretch.mark)
  | [] => rfl
  | ⟨type, _⟩ :: rest => by
      simp [TypeRef.toAst.argsToAst, TypeRef.outline.argsOutlines,
        Ast.TypeExpr.outline.argsOutlines, type.outline_toAst, TypeRef.outlines_argsToAst rest]

end

/-- A place and what it stands for. -/
theorem Place.outline_toAst : (p : Place) → p.toAst.outline = p.outline.map Stretch.mark
  | .var name => rfl
  | .field base arrow name => by
      simp [Place.toAst, Place.outline, Ast.Place.outline, base.outline_toAst]

/-- A field group and what it stands for. -/
theorem FieldGroup.outline_toAst (g : FieldGroup) :
    g.toAst.outline = g.outline.map Stretch.mark := by
  simp [FieldGroup.outline, Ast.FieldGroup.outline, FieldGroup.toAst, g.type.outline_toAst]

/-- A struct definition and what it stands for. -/
theorem StructDef.outline_toAst (d : StructDef) :
    d.toAst.outline = d.outline.map Stretch.mark := by
  have hparams : d.toAst.params = d.paramNames.map identOf := by
    unfold StructDef.toAst StructDef.paramNames
    cases d.params <;> rfl
  have hgroups : d.toAst.groups = d.groups.map FieldGroup.toAst := rfl
  unfold StructDef.outline Ast.StructDef.outline
  simp only [hparams, hgroups, Outline.map_node, List.map_append, List.map_map,
    Function.comp_def, outline_identOf, FieldGroup.outline_toAst]
  rfl

/-- A parameter and what it stands for. -/
theorem Param.outline_toAst (p : Param) : p.toAst.outline = p.outline.map Stretch.mark := by
  simp [Param.outline, Ast.Param.outline, Param.toAst, p.type.outline_toAst]

/-- The span of an expression is that of its tokens, without the parentheses of groups. -/
theorem Expr.span_toAst (source : Nat) : (e : Expr) → (e.toAst source).span = e.span
  | .literal .. | .place .. | .struct .. | .unary .. | .binary .. | .call .. | .func .. => rfl
  | .group _ inner _ => by
      rw [Expr.toAst, Expr.span]
      exact inner.span_toAst source

section

variable (source : Nat)

mutual

/-- An expression and what it stands for. -/
theorem Expr.outline_toAst : (e : Expr) →
    (e.toAst source).outline = e.outline.map Stretch.mark
  | .literal kind token => rfl
  | .place p => by
      simp [Expr.toAst, Expr.outline, Ast.Expr.outline, Ast.Node.outlines, p.outline_toAst]
  | .struct type lbrace inits rbrace => by
      simp [Expr.toAst, Expr.outline, Ast.Expr.outline, Ast.Node.outlines, type.outline_toAst,
        Expr.outlines_initsToAst inits]
  | .unary op opToken operand => by
      simp [Expr.toAst, Expr.outline, Ast.Expr.outline, Ast.Node.outlines, operand.outline_toAst]
  | .binary left op opToken right => by
      simp [Expr.toAst, Expr.outline, Ast.Expr.outline, Ast.Node.outlines, left.outline_toAst,
        right.outline_toAst]
  | .group lparen inner rparen => by
      simp [Expr.toAst, Expr.outline, inner.outline_toAst]
  | .call callee lparen args rparen => by
      simp [Expr.toAst, Expr.outline, Ast.Expr.outline, Ast.Node.outlines, callee.outline_toAst,
        Expr.outlines_argsToAst args]
  | .func funcKw lparen params rparen result lbrace body rbrace => by
      simp [Expr.toAst, Expr.outline, Ast.Expr.outline, Ast.Node.outlines, Ast.FuncDef.outline,
        Function.comp_def, Param.outline_toAst, Stmt.outlines_listToAst body]
      cases result with
      | none => rfl
      | some type => simp [type.outline_toAst]

/-- Initialisers and what they stand for. -/
theorem Expr.outlines_initsToAst : (inits : List (Item FieldInit)) →
    Ast.Node.initsOutlines (Expr.initsToAst source inits) =
      (Expr.initsOutlines inits).map (Outline.map Stretch.mark)
  | [] => rfl
  | ⟨⟨name, colon, value⟩, _⟩ :: rest => by
      simp [Expr.initsToAst, Expr.initsOutlines, Ast.Node.initsOutlines, Ast.FieldInit.outline,
        FieldInit.outline, value.outline_toAst, value.span_toAst, Expr.outlines_initsToAst rest]

/-- The arguments of a call and what they stand for. -/
theorem Expr.outlines_argsToAst : (args : List (Item Expr)) →
    Ast.Node.argsOutlines (Expr.argsToAst source args) =
      (Expr.argsOutlines args).map (Outline.map Stretch.mark)
  | [] => rfl
  | ⟨arg, _⟩ :: rest => by
      simp [Expr.argsToAst, Expr.argsOutlines, Ast.Node.argsOutlines, arg.outline_toAst,
        Expr.outlines_argsToAst rest]

/-- A statement and what it stands for. -/
theorem Stmt.outline_toAst : (s : Stmt) →
    (s.toAst source).outline = s.outline.map Stretch.mark
  | .typeDef typeKw name eq definition semicolon => by
      simp [Stmt.toAst, Stmt.outline, Ast.Stmt.outline, name.outline_toAst,
        definition.outline_toAst]
  | .define letKw target eq value semicolon => by
      simp [Stmt.toAst, Stmt.outline, Ast.Stmt.outline, target.outline_toAst, value.outline_toAst]
  | .assign setKw target eq value semicolon => by
      simp [Stmt.toAst, Stmt.outline, Ast.Stmt.outline, target.outline_toAst, value.outline_toAst]
  | .ret returnKw (some value) semicolon => by
      simp [Stmt.toAst, Stmt.outline, Ast.Stmt.outline, value.outline_toAst]
  | .ret returnKw none semicolon => rfl
  | .expr e semicolon => by
      simp [Stmt.toAst, Stmt.outline, Ast.Stmt.outline, e.outline_toAst]

/-- Statements and what they stand for. -/
theorem Stmt.outlines_listToAst : (stmts : List Stmt) →
    Ast.Stmt.outlines (Stmt.listToAst source stmts) =
      (Stmt.outlines stmts).map (Outline.map Stretch.mark)
  | [] => rfl
  | stmt :: rest => by
      simp [Stmt.listToAst, Stmt.outlines, Ast.Stmt.outlines, stmt.outline_toAst,
        Stmt.outlines_listToAst rest]

end

/-- The outline of a program in the abstract syntax is that of its parse tree without the tokens. -/
theorem Program.outline_toAst (p : Program) :
    (p.toAst source).outline = p.outline.map Stretch.mark := by
  simp [Program.toAst, Program.outline, Ast.Program.outline, Stmt.outlines_listToAst]

end

end StructScript.ParseTree
