import StructScript.Ast.OfParseTree
import StructScript.Proofs.Layout.ParseTree

/-!
# Relocating abstract syntax

The spans of an abstract syntax tree are those of tokens, and its function literals have the number
that it is read under. So going from parse trees to abstract syntax commutes with relocation: what is
read under the new number is the tree relocated.

Main result: `ParseTree.Program.toAst_relocate`.
-/

namespace StructScript

namespace Ast

variable (g : Relocation)

instance : Relocatable Ident := ⟨fun g i => ⟨i.name, relocate g i.span⟩⟩

/-- A type with its spans relocated. -/
def TypeExpr.relocateSpans : TypeExpr → TypeExpr
  | .mk name args span => .mk (relocate g name) (argsRelocated args) (relocate g span)
where
  /-- The arguments in turn. -/
  argsRelocated : List TypeExpr → List TypeExpr
    | [] => []
    | type :: rest => type.relocateSpans :: argsRelocated rest

instance : Relocatable TypeExpr := ⟨TypeExpr.relocateSpans⟩

/-- A place with its spans relocated. -/
def Place.relocateSpans : Place → Place
  | var name => var (relocate g name)
  | field base name span => field base.relocateSpans (relocate g name) (relocate g span)

instance : Relocatable Place := ⟨Place.relocateSpans⟩

instance : Relocatable FieldGroup :=
  ⟨fun g f => ⟨relocate g f.names, relocate g f.type, relocate g f.span⟩⟩

instance : Relocatable StructDef :=
  ⟨fun g d => ⟨relocate g d.params, relocate g d.groups, relocate g d.span⟩⟩

instance : Relocatable Param := ⟨fun g p => ⟨relocate g p.name, relocate g p.type⟩⟩

mutual

/-- An expression with its spans relocated. -/
def Expr.relocateSpans : Expr → Expr
  | ⟨node, span⟩ => ⟨node.relocateSpans, relocate g span⟩

/-- What an expression is, with the spans of its parts relocated. -/
def Node.relocateSpans : Node → Node
  | .literal kind lexeme => .literal kind lexeme
  | .place p => .place (relocate g p)
  | .struct type inits => .struct (relocate g type) (Node.initsRelocated inits)
  | .unary op operand => .unary op operand.relocateSpans
  | .binary op left right => .binary op left.relocateSpans right.relocateSpans
  | .call callee args => .call (relocate g callee) (Node.argsRelocated args)
  | .func f => .func f.relocateSpans

/-- An initialiser with its spans relocated. -/
def FieldInit.relocateSpans : FieldInit → FieldInit
  | ⟨name, value, span⟩ => ⟨relocate g name, value.relocateSpans, relocate g span⟩

/-- A function literal with its spans relocated. -/
def FuncDef.relocateSpans : FuncDef → FuncDef
  | ⟨params, result, body, span, source⟩ =>
    ⟨relocate g params, relocate g result, Stmt.listRelocated body, relocate g span,
      g.number source⟩

/-- A statement with its spans relocated. -/
def Stmt.relocateSpans : Stmt → Stmt
  | .typeDef name definition span =>
    .typeDef (relocate g name) (relocate g definition) (relocate g span)
  | .define target value span =>
    .define (relocate g target) value.relocateSpans (relocate g span)
  | .assign target value span =>
    .assign (relocate g target) value.relocateSpans (relocate g span)
  | .ret (some value) span => .ret (some value.relocateSpans) (relocate g span)
  | .ret none span => .ret none (relocate g span)
  | .expr e => .expr e.relocateSpans

/-- The initialisers of a struct literal in turn. -/
def Node.initsRelocated : List FieldInit → List FieldInit
  | [] => []
  | init :: rest => init.relocateSpans :: Node.initsRelocated rest

/-- The arguments of a call in turn. -/
def Node.argsRelocated : List Expr → List Expr
  | [] => []
  | arg :: rest => arg.relocateSpans :: Node.argsRelocated rest

/-- Some statements in turn. -/
def Stmt.listRelocated : List Stmt → List Stmt
  | [] => []
  | stmt :: rest => stmt.relocateSpans :: Stmt.listRelocated rest

end

instance : Relocatable Expr := ⟨Expr.relocateSpans⟩

instance : Relocatable Node := ⟨Node.relocateSpans⟩

instance : Relocatable FieldInit := ⟨FieldInit.relocateSpans⟩

instance : Relocatable FuncDef := ⟨FuncDef.relocateSpans⟩

instance : Relocatable Stmt := ⟨Stmt.relocateSpans⟩

instance : Relocatable Program := ⟨fun g p => ⟨relocate g p.stmts⟩⟩

/-! ### Relocation follows the syntax -/

/-- Type arguments are relocated as any list is. -/
theorem TypeExpr.argsRelocated_eq (args : List TypeExpr) :
    relocateSpans.argsRelocated g args = relocate g args := by
  induction args with
  | nil => rfl
  | cons arg rest ih => exact congrArg (_ :: ·) ih

/-- Initialisers are relocated as any list is. -/
theorem Node.initsRelocated_eq (inits : List FieldInit) :
    initsRelocated g inits = relocate g inits := by
  induction inits with
  | nil => rfl
  | cons init rest ih => exact congrArg (_ :: ·) ih

/-- The arguments of a call are relocated as any list is. -/
theorem Node.argsRelocated_eq (args : List Expr) : argsRelocated g args = relocate g args := by
  induction args with
  | nil => rfl
  | cons arg rest ih => exact congrArg (_ :: ·) ih

/-- Statements are relocated as any list is. -/
theorem Stmt.listRelocated_eq (stmts : List Stmt) : listRelocated g stmts = relocate g stmts := by
  induction stmts with
  | nil => rfl
  | cons stmt rest ih => exact congrArg (_ :: ·) ih

/-- An identifier keeps its name in another place. -/
@[simp] theorem Ident.name_relocate (i : Ident) : (relocate g i).name = i.name := rfl

/-- The span of an identifier is relocated. -/
@[simp] theorem Ident.span_relocate (i : Ident) : (relocate g i).span = relocate g i.span := rfl

/-- A type is relocated in its name, its arguments and its span. -/
@[simp] theorem TypeExpr.relocate_mk (name : Ident) (args : List TypeExpr) (span : Span) :
    relocate g (mk name args span) = mk (relocate g name) (relocate g args) (relocate g span) := by
  rw [← argsRelocated_eq]
  rfl

/-- The name of a type moves with it. -/
@[simp] theorem TypeExpr.name_relocate (type : TypeExpr) :
    (relocate g type).name = relocate g type.name := by
  cases type
  rfl

/-- The span of a type is relocated. -/
@[simp] theorem TypeExpr.span_relocate (type : TypeExpr) :
    (relocate g type).span = relocate g type.span := by
  cases type
  rfl

/-- A variable is relocated in its name. -/
@[simp] theorem Place.relocate_var (name : Ident) : relocate g (var name) = var (relocate g name) :=
  rfl

/-- A field access is relocated in its base, its name and its span. -/
@[simp] theorem Place.relocate_field (base : Place) (name : Ident) (span : Span) :
    relocate g (field base name span) =
      field (relocate g base) (relocate g name) (relocate g span) := rfl

/-- The variable that a place starts from moves with it. -/
@[simp] theorem Place.root_relocate (p : Place) : (relocate g p).root = relocate g p.root := by
  induction p with
  | var name => rfl
  | field base name span ih => exact ih

/-- The span of a place is relocated. -/
@[simp] theorem Place.span_relocate (p : Place) : (relocate g p).span = relocate g p.span := by
  cases p <;> rfl

/-- The names of the fields on the way to a place move with it. -/
@[simp] theorem Place.path_relocate (p : Place) : (relocate g p).path = relocate g p.path := by
  induction p with
  | var name => rfl
  | field base name span ih => simp [path, ih]

/-- A place is written the same wherever it stands. -/
@[simp] theorem Place.written_relocate (p : Place) : (relocate g p).written = p.written := by
  induction p with
  | var name => rfl
  | field base name span ih => simp [written, ih]

/-- A field group is relocated in its names, its type and its span. -/
@[simp] theorem FieldGroup.relocate_mk (names : List Ident) (type : TypeExpr) (span : Span) :
    relocate g (⟨names, type, span⟩ : FieldGroup) =
      ⟨relocate g names, relocate g type, relocate g span⟩ := rfl

/-- A struct definition is relocated in its parameters, its field groups and its span. -/
@[simp] theorem StructDef.relocate_mk (params : List Ident) (groups : List FieldGroup)
    (span : Span) : relocate g (⟨params, groups, span⟩ : StructDef) =
      ⟨relocate g params, relocate g groups, relocate g span⟩ := rfl

/-- A parameter is relocated in its name and its type. -/
@[simp] theorem Param.relocate_mk (name : Ident) (type : TypeExpr) :
    relocate g (⟨name, type⟩ : Param) = ⟨relocate g name, relocate g type⟩ := rfl

/-- An expression is relocated in what it is and in its span. -/
@[simp] theorem Expr.relocate_mk (node : Node) (span : Span) :
    relocate g (⟨node, span⟩ : Expr) = ⟨relocate g node, relocate g span⟩ := rfl

/-- The span of an expression is relocated. -/
@[simp] theorem Expr.span_relocate (e : Expr) : (relocate g e).span = relocate g e.span := by
  cases e
  rfl

/-- A literal holds no position beside the span of its expression. -/
@[simp] theorem Node.relocate_literal (kind : LiteralKind) (lexeme : String) :
    relocate g (literal kind lexeme) = literal kind lexeme := rfl

/-- A place that is read is relocated as a place. -/
@[simp] theorem Node.relocate_place (p : Place) : relocate g (place p) = place (relocate g p) := rfl

/-- A struct literal is relocated in its type and its initialisers. -/
@[simp] theorem Node.relocate_struct (type : TypeExpr) (inits : List FieldInit) :
    relocate g (struct type inits) = struct (relocate g type) (relocate g inits) := by
  rw [← initsRelocated_eq]
  rfl

/-- A prefix expression is relocated in its operand. -/
@[simp] theorem Node.relocate_unary (op : UnaryOp) (operand : Expr) :
    relocate g (unary op operand) = unary op (relocate g operand) := rfl

/-- An infix expression is relocated in both operands. -/
@[simp] theorem Node.relocate_binary (op : BinaryOp) (left right : Expr) :
    relocate g (binary op left right) = binary op (relocate g left) (relocate g right) := rfl

/-- A call is relocated in its callee and its arguments. -/
@[simp] theorem Node.relocate_call (callee : Place) (args : List Expr) :
    relocate g (call callee args) = call (relocate g callee) (relocate g args) := by
  rw [← argsRelocated_eq]
  rfl

/-- A function literal is relocated as a function definition. -/
@[simp] theorem Node.relocate_func (f : FuncDef) : relocate g (func f) = func (relocate g f) := rfl

/-- An initialiser is relocated in its name, its value and its span. -/
@[simp] theorem FieldInit.relocate_mk (name : Ident) (value : Expr) (span : Span) :
    relocate g (⟨name, value, span⟩ : FieldInit) =
      ⟨relocate g name, relocate g value, relocate g span⟩ := rfl

/-- A function definition is relocated in all its parts, and gets the new number of its source text.
-/
@[simp] theorem FuncDef.relocate_mk (params : List Param) (result : Option TypeExpr)
    (body : List Stmt) (span : Span) (source : Nat) :
    relocate g (⟨params, result, body, span, source⟩ : FuncDef) =
      ⟨relocate g params, relocate g result, relocate g body, relocate g span,
        g.number source⟩ := by
  rw [← Stmt.listRelocated_eq]
  rfl

/-- The parameters of a function move with it. -/
@[simp] theorem FuncDef.params_relocate (f : FuncDef) :
    (relocate g f).params = relocate g f.params := by
  cases f
  rfl

/-- The result type of a function moves with it. -/
@[simp] theorem FuncDef.result_relocate (f : FuncDef) :
    (relocate g f).result = relocate g f.result := by
  cases f
  rfl

/-- The body of a function moves with it. -/
@[simp] theorem FuncDef.body_relocate (f : FuncDef) : (relocate g f).body = relocate g f.body := by
  cases f
  simp

/-- A type definition is relocated in its name, its struct definition and its span. -/
@[simp] theorem Stmt.relocate_typeDef (name : TypeExpr) (definition : StructDef) (span : Span) :
    relocate g (typeDef name definition span) =
      typeDef (relocate g name) (relocate g definition) (relocate g span) := rfl

/-- A definition is relocated in its target, its value and its span. -/
@[simp] theorem Stmt.relocate_define (target : Place) (value : Expr) (span : Span) :
    relocate g (define target value span) =
      define (relocate g target) (relocate g value) (relocate g span) := rfl

/-- An assignment is relocated in its target, its value and its span. -/
@[simp] theorem Stmt.relocate_assign (target : Place) (value : Expr) (span : Span) :
    relocate g (assign target value span) =
      assign (relocate g target) (relocate g value) (relocate g span) := rfl

/-- A return is relocated in its span and in its value, if it has one. -/
@[simp] theorem Stmt.relocate_ret (value : Option Expr) (span : Span) :
    relocate g (ret value span) = ret (relocate g value) (relocate g span) := by
  cases value <;> rfl

/-- An expression statement is relocated in its expression. -/
@[simp] theorem Stmt.relocate_expr (e : Expr) : relocate g (expr e) = expr (relocate g e) := rfl

end Ast

/-! ### From parse trees to abstract syntax -/

namespace ParseTree

variable (g : Relocation)

/-- The identifier that a token makes moves with the token. -/
@[simp] theorem identOf_relocate (token : Token) :
    identOf (relocate g token) = relocate g (identOf token) := rfl

mutual

/-- What a relocated type stands for is what the type stands for, relocated. -/
@[simp] theorem TypeRef.toAst_relocate : (type : TypeRef) →
    (relocate g type).toAst = relocate g type.toAst
  | .plain name => rfl
  | .applied name lbracket args rbracket => by
      have hargs := TypeRef.argsToAst_relocate args
      simp [toAst, hargs]

/-- So it is for type arguments. -/
theorem TypeRef.argsToAst_relocate : (args : List (Item TypeRef)) →
    toAst.argsToAst (relocate g args) = relocate g (toAst.argsToAst args)
  | [] => rfl
  | ⟨type, separator⟩ :: rest => by
      have htype := TypeRef.toAst_relocate type
      have hrest := TypeRef.argsToAst_relocate rest
      simp [toAst.argsToAst, htype, hrest]

end

/-- What a relocated place stands for is what the place stands for, relocated. -/
@[simp] theorem Place.toAst_relocate (p : Place) : (relocate g p).toAst = relocate g p.toAst := by
  induction p with
  | var name => rfl
  | field base arrow name ih => simp [toAst, ih]

/-- The identifiers that some tokens make move with the tokens. -/
@[simp] theorem map_identOf_relocate (tokens : List Token) :
    (relocate g tokens).map identOf = relocate g (tokens.map identOf) :=
  map_relocate g (identOf_relocate g) tokens

/-- What a relocated field group stands for is what the group stands for, relocated; its span ends
with its semicolon if it has one. -/
@[simp] theorem FieldGroup.toAst_relocate (f : FieldGroup) :
    (relocate g f).toAst = relocate g f.toAst := by
  obtain ⟨names, type, semicolon⟩ := f
  rcases h : names.values.map identOf with _ | ⟨first, rest⟩
  · simp [toAst, h]
  · cases semicolon <;> simp [toAst, h]

/-- So it is for all groups of a struct definition. -/
@[simp] theorem map_fieldGroup_relocate (groups : List FieldGroup) :
    (relocate g groups).map FieldGroup.toAst = relocate g (groups.map FieldGroup.toAst) :=
  map_relocate g (FieldGroup.toAst_relocate g) groups

/-- What a relocated struct definition stands for is what the definition stands for, relocated. -/
@[simp] theorem StructDef.toAst_relocate (d : StructDef) :
    (relocate g d).toAst = relocate g d.toAst := by
  obtain ⟨structKw, _ | ⟨lbracket, names, rbracket⟩, lbrace, groups, rbrace⟩ := d
  · simp [toAst]
  · simp [toAst]

/-- What a relocated parameter stands for is what the parameter stands for, relocated. -/
@[simp] theorem Param.toAst_relocate (p : Param) : (relocate g p).toAst = relocate g p.toAst := by
  obtain ⟨name, type⟩ := p
  simp [toAst]

/-- So it is for all parameters of a function. -/
@[simp] theorem map_param_relocate (params : List Param) :
    (relocate g params).map Param.toAst = relocate g (params.map Param.toAst) :=
  map_relocate g (Param.toAst_relocate g) params

variable (source : Nat)

mutual

/-- What a relocated expression stands for, read under the new number, is what the expression stands
for under the old one, relocated. -/
theorem Expr.toAst_relocate : (e : Expr) →
    (relocate g e).toAst (g.number source) = relocate g (e.toAst source)
  | .literal .. => rfl
  | .place p => by simp [Expr.toAst]
  | .struct type lbrace inits rbrace => by
      have hinits := Expr.initsToAst_relocate inits
      simp [Expr.toAst, hinits]
  | .unary op opToken operand => by
      have hoperand := Expr.toAst_relocate operand
      simp [Expr.toAst, hoperand]
  | .binary left op opToken right => by
      have hleft := Expr.toAst_relocate left
      have hright := Expr.toAst_relocate right
      simp [Expr.toAst, hleft, hright]
  | .group lparen inner rparen => by
      have hinner := Expr.toAst_relocate inner
      simp [Expr.toAst, hinner]
  | .call callee lparen args rparen => by
      have hargs := Expr.argsToAst_relocate args
      simp [Expr.toAst, hargs]
  | .func funcKw lparen params rparen result lbrace body rbrace => by
      have hbody := Stmt.listToAst_relocate body
      cases result <;> simp [Expr.toAst, hbody]

/-- So it is for the initialisers of a struct literal. -/
theorem Expr.initsToAst_relocate : (inits : List (Item FieldInit)) →
    Expr.initsToAst (g.number source) (relocate g inits) = relocate g (Expr.initsToAst source inits)
  | [] => rfl
  | ⟨⟨name, colon, value⟩, separator⟩ :: rest => by
      have hvalue := Expr.toAst_relocate value
      have hrest := Expr.initsToAst_relocate rest
      simp [Expr.initsToAst, hvalue, hrest]

/-- So it is for the arguments of a call. -/
theorem Expr.argsToAst_relocate : (args : List (Item Expr)) →
    Expr.argsToAst (g.number source) (relocate g args) = relocate g (Expr.argsToAst source args)
  | [] => rfl
  | ⟨arg, separator⟩ :: rest => by
      have harg := Expr.toAst_relocate arg
      have hrest := Expr.argsToAst_relocate rest
      simp [Expr.argsToAst, harg, hrest]

/-- What a relocated statement stands for, read under the new number, is what the statement stands
for under the old one, relocated. -/
theorem Stmt.toAst_relocate : (stmt : Stmt) →
    (relocate g stmt).toAst (g.number source) = relocate g (stmt.toAst source)
  | .typeDef typeKw name eq definition semicolon => by simp [Stmt.toAst]
  | .define letKw target eq value semicolon => by
      have hvalue := Expr.toAst_relocate value
      simp [Stmt.toAst, hvalue]
  | .assign setKw target eq value semicolon => by
      have hvalue := Expr.toAst_relocate value
      simp [Stmt.toAst, hvalue]
  | .ret returnKw none semicolon => rfl
  | .ret returnKw (some value) semicolon => by
      have hvalue := Expr.toAst_relocate value
      simp [Stmt.toAst, hvalue]
  | .expr e semicolon => by
      have he := Expr.toAst_relocate e
      simp [Stmt.toAst, he]

/-- So it is for a list of statements. -/
theorem Stmt.listToAst_relocate : (stmts : List Stmt) →
    Stmt.listToAst (g.number source) (relocate g stmts) = relocate g (Stmt.listToAst source stmts)
  | [] => rfl
  | stmt :: rest => by
      have hstmt := Stmt.toAst_relocate stmt
      have hrest := Stmt.listToAst_relocate rest
      simp [Stmt.listToAst, hstmt, hrest]

end

/-- Going from parse trees to abstract syntax commutes with relocation. -/
theorem Program.toAst_relocate (p : Program) :
    (relocate g p).toAst (g.number source) = relocate g (p.toAst source) :=
  congrArg Ast.Program.mk (Stmt.listToAst_relocate g source p.stmts)

end ParseTree

end StructScript
