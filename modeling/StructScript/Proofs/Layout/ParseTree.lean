import StructScript.ParseTree
import StructScript.Proofs.Layout.Relocation

/-!
# Relocating parse trees

A parse tree is relocated by relocating its tokens; its ends are relocated with it.
-/

namespace StructScript.ParseTree

variable (g : Relocation)

instance {α : Type} [Relocatable α] : Relocatable (Item α) :=
  ⟨fun g i => ⟨relocate g i.value, relocate g i.separator⟩⟩

/-- An item of a separated list is relocated with its separator. -/
@[simp] theorem relocate_item {α : Type} [Relocatable α] (value : α) (separator : Option Token) :
    relocate g (⟨value, separator⟩ : Item α) = ⟨relocate g value, relocate g separator⟩ := rfl

/-- The values of a relocated list, without the separators, are those of the list relocated. -/
@[simp] theorem Separated.values_relocate {α : Type} [Relocatable α] (items : Separated α) :
    (relocate g items).values = relocate g items.values := by
  simp [values, Function.comp_def, relocate, Relocatable.relocate]

/-! ### Types and places -/

/-- A type with its tokens relocated. -/
def TypeRef.relocateTokens : TypeRef → TypeRef
  | plain name => plain (relocate g name)
  | applied name lbracket args rbracket =>
    applied (relocate g name) (relocate g lbracket) (argsRelocated args) (relocate g rbracket)
where
  /-- The arguments in turn. -/
  argsRelocated : List (Item TypeRef) → List (Item TypeRef)
    | [] => []
    | ⟨type, separator⟩ :: rest =>
      ⟨type.relocateTokens, relocate g separator⟩ :: argsRelocated rest

instance : Relocatable TypeRef := ⟨TypeRef.relocateTokens⟩

/-- A place with its tokens relocated. -/
def Place.relocateTokens : Place → Place
  | var name => var (relocate g name)
  | field base arrow name => field base.relocateTokens (relocate g arrow) (relocate g name)

instance : Relocatable Place := ⟨Place.relocateTokens⟩

instance : Relocatable TypeParams :=
  ⟨fun g p => ⟨relocate g p.lbracket, relocate g p.names, relocate g p.rbracket⟩⟩

instance : Relocatable FieldGroup :=
  ⟨fun g f => ⟨relocate g f.names, relocate g f.type, relocate g f.semicolon⟩⟩

instance : Relocatable StructDef :=
  ⟨fun g d => ⟨relocate g d.structKw, relocate g d.params, relocate g d.lbrace,
    relocate g d.groups, relocate g d.rbrace⟩⟩

instance : Relocatable Param := ⟨fun g p => ⟨relocate g p.name, relocate g p.type⟩⟩

/-! ### Expressions and statements -/

mutual

/-- An expression with its tokens relocated. -/
def Expr.relocateTokens : Expr → Expr
  | .literal kind token => .literal kind (relocate g token)
  | .place p => .place (relocate g p)
  | .struct type lbrace inits rbrace =>
    .struct (relocate g type) (relocate g lbrace) (Expr.initsRelocated inits) (relocate g rbrace)
  | .unary op opToken operand => .unary op (relocate g opToken) operand.relocateTokens
  | .binary left op opToken right =>
    .binary left.relocateTokens op (relocate g opToken) right.relocateTokens
  | .group lparen inner rparen =>
    .group (relocate g lparen) inner.relocateTokens (relocate g rparen)
  | .call callee lparen args rparen =>
    .call (relocate g callee) (relocate g lparen) (Expr.argsRelocated args) (relocate g rparen)
  | .func funcKw lparen params rparen result lbrace body rbrace =>
    .func (relocate g funcKw) (relocate g lparen) (relocate g params) (relocate g rparen)
      (relocate g result) (relocate g lbrace) (Stmt.listRelocated body) (relocate g rbrace)

/-- An initialiser with its tokens relocated. -/
def FieldInit.relocateTokens : FieldInit → FieldInit
  | ⟨name, colon, value⟩ => ⟨relocate g name, relocate g colon, value.relocateTokens⟩

/-- The initialisers of a struct literal in turn. -/
def Expr.initsRelocated : List (Item FieldInit) → List (Item FieldInit)
  | [] => []
  | ⟨init, separator⟩ :: rest =>
    ⟨init.relocateTokens, relocate g separator⟩ :: Expr.initsRelocated rest

/-- The arguments of a call in turn. -/
def Expr.argsRelocated : List (Item Expr) → List (Item Expr)
  | [] => []
  | ⟨arg, separator⟩ :: rest =>
    ⟨arg.relocateTokens, relocate g separator⟩ :: Expr.argsRelocated rest

/-- A statement with its tokens relocated. -/
def Stmt.relocateTokens : Stmt → Stmt
  | .typeDef typeKw name eq definition semicolon =>
    .typeDef (relocate g typeKw) (relocate g name) (relocate g eq) (relocate g definition)
      (relocate g semicolon)
  | .define letKw target eq value semicolon =>
    .define (relocate g letKw) (relocate g target) (relocate g eq) value.relocateTokens
      (relocate g semicolon)
  | .assign setKw target eq value semicolon =>
    .assign (relocate g setKw) (relocate g target) (relocate g eq) value.relocateTokens
      (relocate g semicolon)
  | .ret returnKw (some value) semicolon =>
    .ret (relocate g returnKw) (some value.relocateTokens) (relocate g semicolon)
  | .ret returnKw none semicolon => .ret (relocate g returnKw) none (relocate g semicolon)
  | .expr e semicolon => .expr e.relocateTokens (relocate g semicolon)

/-- Some statements in turn. -/
def Stmt.listRelocated : List Stmt → List Stmt
  | [] => []
  | stmt :: rest => stmt.relocateTokens :: Stmt.listRelocated rest

end

instance : Relocatable Expr := ⟨Expr.relocateTokens⟩

instance : Relocatable FieldInit := ⟨FieldInit.relocateTokens⟩

instance : Relocatable Stmt := ⟨Stmt.relocateTokens⟩

instance : Relocatable Program := ⟨fun g p => ⟨relocate g p.stmts, relocate g p.eof⟩⟩

/-- Type arguments are relocated as any list is. -/
@[simp] theorem TypeRef.argsRelocated_eq (args : List (Item TypeRef)) :
    relocateTokens.argsRelocated g args = relocate g args := by
  induction args with
  | nil => rfl
  | cons arg rest ih => exact congrArg (_ :: ·) ih

/-- Initialisers are relocated as any list is. -/
@[simp] theorem Expr.initsRelocated_eq (inits : List (Item FieldInit)) :
    initsRelocated g inits = relocate g inits := by
  induction inits with
  | nil => rfl
  | cons init rest ih => exact congrArg (_ :: ·) ih

/-- The arguments of a call are relocated as any list is. -/
@[simp] theorem Expr.argsRelocated_eq (args : List (Item Expr)) :
    argsRelocated g args = relocate g args := by
  induction args with
  | nil => rfl
  | cons arg rest ih => exact congrArg (_ :: ·) ih

/-- Statements are relocated as any list is. -/
@[simp] theorem Stmt.listRelocated_eq (stmts : List Stmt) :
    listRelocated g stmts = relocate g stmts := by
  induction stmts with
  | nil => rfl
  | cons stmt rest ih => exact congrArg (_ :: ·) ih

/-! ### Relocation follows the syntax -/

/-- A type without arguments is relocated in its name. -/
@[simp] theorem TypeRef.relocate_plain (name : Token) :
    relocate g (plain name) = plain (relocate g name) := rfl

/-- A type with arguments is relocated in its name, its brackets and its arguments. -/
@[simp] theorem TypeRef.relocate_applied (name lbracket : Token) (args : List (Item TypeRef))
    (rbracket : Token) : relocate g (applied name lbracket args rbracket) =
      applied (relocate g name) (relocate g lbracket) (relocate g args) (relocate g rbracket) := by
  rw [← argsRelocated_eq]
  rfl

/-- A variable is relocated in its name. -/
@[simp] theorem Place.relocate_var (name : Token) : relocate g (var name) = var (relocate g name) :=
  rfl

/-- A field access is relocated in its base, its arrow and its name. -/
@[simp] theorem Place.relocate_field (base : Place) (arrow name : Token) :
    relocate g (field base arrow name) =
      field (relocate g base) (relocate g arrow) (relocate g name) := rfl

/-- Type parameters are relocated in their brackets and their names. -/
@[simp] theorem TypeParams.relocate_mk (lbracket : Token) (names : Separated Token)
    (rbracket : Token) : relocate g (⟨lbracket, names, rbracket⟩ : TypeParams) =
      ⟨relocate g lbracket, relocate g names, relocate g rbracket⟩ := rfl

/-- A field group is relocated in its names, its type and its semicolon. -/
@[simp] theorem FieldGroup.relocate_mk (names : Separated Token) (type : TypeRef)
    (semicolon : Option Token) : relocate g (⟨names, type, semicolon⟩ : FieldGroup) =
      ⟨relocate g names, relocate g type, relocate g semicolon⟩ := rfl

/-- A struct definition is relocated in its tokens, its parameters and its field groups. -/
@[simp] theorem StructDef.relocate_mk (structKw : Token) (params : Option TypeParams)
    (lbrace : Token) (groups : List FieldGroup) (rbrace : Token) :
    relocate g (⟨structKw, params, lbrace, groups, rbrace⟩ : StructDef) =
      ⟨relocate g structKw, relocate g params, relocate g lbrace, relocate g groups,
        relocate g rbrace⟩ := rfl

/-- A parameter is relocated in its name and its type. -/
@[simp] theorem Param.relocate_mk (name : Token) (type : TypeRef) :
    relocate g (⟨name, type⟩ : Param) = ⟨relocate g name, relocate g type⟩ := rfl

/-- A literal is relocated in its token. -/
@[simp] theorem Expr.relocate_literal (kind : LiteralKind) (token : Token) :
    relocate g (literal kind token) = literal kind (relocate g token) := rfl

/-- A place that is read is relocated as a place. -/
@[simp] theorem Expr.relocate_place (p : Place) : relocate g (place p) = place (relocate g p) := rfl

/-- A struct literal is relocated in its type, its braces and its initialisers. -/
@[simp] theorem Expr.relocate_struct (type : TypeRef) (lbrace : Token)
    (inits : List (Item FieldInit)) (rbrace : Token) :
    relocate g (struct type lbrace inits rbrace) =
      struct (relocate g type) (relocate g lbrace) (relocate g inits) (relocate g rbrace) := by
  rw [← initsRelocated_eq]
  rfl

/-- A prefix expression is relocated in its operator and its operand. -/
@[simp] theorem Expr.relocate_unary (op : UnaryOp) (opToken : Token) (operand : Expr) :
    relocate g (unary op opToken operand) = unary op (relocate g opToken) (relocate g operand) :=
  rfl

/-- An infix expression is relocated in both operands and its operator. -/
@[simp] theorem Expr.relocate_binary (left : Expr) (op : BinaryOp) (opToken : Token)
    (right : Expr) : relocate g (binary left op opToken right) =
      binary (relocate g left) op (relocate g opToken) (relocate g right) := rfl

/-- An expression in parentheses is relocated together with them. -/
@[simp] theorem Expr.relocate_group (lparen : Token) (inner : Expr) (rparen : Token) :
    relocate g (group lparen inner rparen) =
      group (relocate g lparen) (relocate g inner) (relocate g rparen) := rfl

/-- A call is relocated in its callee, its parentheses and its arguments. -/
@[simp] theorem Expr.relocate_call (callee : Place) (lparen : Token) (args : List (Item Expr))
    (rparen : Token) : relocate g (call callee lparen args rparen) =
      call (relocate g callee) (relocate g lparen) (relocate g args) (relocate g rparen) := by
  rw [← argsRelocated_eq]
  rfl

/-- A function literal is relocated in its tokens, its parameters, its result and its body. -/
@[simp] theorem Expr.relocate_func (funcKw lparen : Token) (params : Separated Param)
    (rparen : Token) (result : Option TypeRef) (lbrace : Token) (body : List Stmt)
    (rbrace : Token) : relocate g (func funcKw lparen params rparen result lbrace body rbrace) =
      func (relocate g funcKw) (relocate g lparen) (relocate g params) (relocate g rparen)
        (relocate g result) (relocate g lbrace) (relocate g body) (relocate g rbrace) := by
  rw [← Stmt.listRelocated_eq]
  rfl

/-- An initialiser is relocated in its name, its colon and its value. -/
@[simp] theorem FieldInit.relocate_mk (name colon : Token) (value : Expr) :
    relocate g (⟨name, colon, value⟩ : FieldInit) =
      ⟨relocate g name, relocate g colon, relocate g value⟩ := rfl

/-- A type definition is relocated in its tokens, its name and its struct definition. -/
@[simp] theorem Stmt.relocate_typeDef (typeKw : Token) (name : TypeRef) (eq : Token)
    (definition : StructDef) (semicolon : Token) :
    relocate g (typeDef typeKw name eq definition semicolon) =
      typeDef (relocate g typeKw) (relocate g name) (relocate g eq) (relocate g definition)
        (relocate g semicolon) := rfl

/-- A definition is relocated in its tokens, its target and its value. -/
@[simp] theorem Stmt.relocate_define (letKw : Token) (target : Place) (eq : Token) (value : Expr)
    (semicolon : Token) : relocate g (define letKw target eq value semicolon) =
      define (relocate g letKw) (relocate g target) (relocate g eq) (relocate g value)
        (relocate g semicolon) := rfl

/-- An assignment is relocated in its tokens, its target and its value. -/
@[simp] theorem Stmt.relocate_assign (setKw : Token) (target : Place) (eq : Token) (value : Expr)
    (semicolon : Token) : relocate g (assign setKw target eq value semicolon) =
      assign (relocate g setKw) (relocate g target) (relocate g eq) (relocate g value)
        (relocate g semicolon) := rfl

/-- A return is relocated in its tokens and in its value, if it has one. -/
@[simp] theorem Stmt.relocate_ret (returnKw : Token) (value : Option Expr) (semicolon : Token) :
    relocate g (ret returnKw value semicolon) =
      ret (relocate g returnKw) (relocate g value) (relocate g semicolon) := by
  cases value <;> rfl

/-- An expression statement is relocated in its expression and its semicolon. -/
@[simp] theorem Stmt.relocate_expr (e : Expr) (semicolon : Token) :
    relocate g (expr e semicolon) = expr (relocate g e) (relocate g semicolon) := rfl

/-! ### The ends of a tree -/

/-- The name of a type moves with it. -/
@[simp] theorem TypeRef.name_relocate (type : TypeRef) :
    (relocate g type).name = relocate g type.name := by
  cases type <;> rfl

/-- The first token of a type moves with it. -/
@[simp] theorem TypeRef.firstToken_relocate (type : TypeRef) :
    (relocate g type).firstToken = relocate g type.firstToken := name_relocate g type

/-- The first token of a place moves with it. -/
@[simp] theorem Place.firstToken_relocate (p : Place) :
    (relocate g p).firstToken = relocate g p.firstToken := by
  induction p with
  | var name => rfl
  | field base arrow name ih => exact ih

/-- The last token of a place moves with it. -/
@[simp] theorem Place.lastToken_relocate (p : Place) :
    (relocate g p).lastToken = relocate g p.lastToken := by
  cases p <;> rfl

/-- The first token of an expression moves with it. -/
@[simp] theorem Expr.firstToken_relocate : (e : Expr) →
    (relocate g e).firstToken = relocate g e.firstToken
  | literal .. => rfl
  | place p => p.firstToken_relocate g
  | struct type .. => type.firstToken_relocate g
  | unary .. => rfl
  | binary left .. => firstToken_relocate left
  | group .. => rfl
  | call callee .. => callee.firstToken_relocate g
  | func .. => rfl

/-- The last token of an expression moves with it. -/
@[simp] theorem Expr.lastToken_relocate : (e : Expr) →
    (relocate g e).lastToken = relocate g e.lastToken
  | literal .. => rfl
  | place p => p.lastToken_relocate g
  | struct .. => rfl
  | unary _ _ operand => lastToken_relocate operand
  | binary _ _ _ right => lastToken_relocate right
  | group .. => rfl
  | call .. => rfl
  | func .. => rfl

end StructScript.ParseTree
