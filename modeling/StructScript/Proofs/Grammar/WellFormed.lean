import StructScript.OperatorTable
import StructScript.Proofs.Grammar.Yield

/-!
# The grammar

Which parse trees the language has, for the expressions that an operator table allows. Every token
of a tree has the kind that its production asks for, and every operator and literal is the one that
its token writes. Lists are punctuated (`Separated.Punctuated`): a separator stands between any two
items, and behind the last one only where that is said. An operator that is an operand binds as
tightly as the operator around it asks (`Expr.infixPrecedence?`, `Expr.rightPrecedence?`).

Main definitions: `Expr.WellFormed` and `Stmt.WellFormed`, by one rule a production, and
`Program.WellFormed`.
-/

namespace StructScript

namespace OperatorTable

/-- The strength at which the right operand of an operator is read. -/
def rightPrecedence? (table : OperatorTable) (kind : TokenKind) : Option Precedence :=
  match table.trailing kind with
  | some (.binary p groupsRight) => some (TrailingRule.operandPrecedence p groupsRight)
  | _ => none

end OperatorTable

namespace ParseTree

/-- Every item but the last has a separator of this kind behind it, and the last one only where a
trailing separator is allowed. -/
def Separated.Punctuated {α : Type} (kind : TokenKind) (trailing : Bool) : Separated α → Prop
  | [] => True
  | ⟨_, none⟩ :: rest => rest = []
  | ⟨_, some token⟩ :: rest =>
    token.kind = kind ∧ (rest = [] → trailing = true) ∧ Separated.Punctuated kind trailing rest

/-! ### Types, places and struct definitions -/

/-- A token that may name a type. -/
def IsTypeName (token : Token) : Prop := token.kind = .ident ∨ token.kind = .nilKw

/-- The types of the language. -/
inductive TypeRef.WellFormed : TypeRef → Prop where
  | plain {name : Token} (hname : IsTypeName name) : WellFormed (.plain name)
  | applied {name lbracket rbracket : Token} {args : List (Item TypeRef)} (hname : IsTypeName name)
      (hlbracket : lbracket.kind = .lbracket) (hargs : Separated.Punctuated .comma false args)
      (hnonempty : args ≠ []) (hvalues : ∀ type ∈ Separated.values args, type.WellFormed)
      (hrbracket : rbracket.kind = .rbracket) : WellFormed (.applied name lbracket args rbracket)

/-- The name of a well-formed type is a token that may name types. -/
theorem TypeRef.WellFormed.name {type : TypeRef} (h : type.WellFormed) : IsTypeName type.name := by
  cases h with
  | plain hname => exact hname
  | applied hname => exact hname

/-- The places of the language: a variable, and fields behind it. -/
inductive Place.WellFormed : Place → Prop where
  | var {name : Token} (hname : name.kind = .ident) : WellFormed (.var name)
  | field {base : Place} {arrow name : Token} (hbase : base.WellFormed)
      (harrow : arrow.kind = .arrow) (hname : name.kind = .ident) :
      WellFormed (.field base arrow name)

/-- A well-formed place begins with a name. -/
theorem Place.WellFormed.firstToken {p : Place} (h : p.WellFormed) :
    p.firstToken.kind = .ident := by
  induction h with
  | var hname => exact hname
  | field _ _ _ ih => exact ih

/-- Behind the variable of a place stands an arrow, if anything does. -/
theorem Place.WellFormed.yield_tail {p : Place} (h : p.WellFormed) :
    (∃ name, p = .var name) ∨ ∃ arrow us, p.yield.tail = arrow :: us ∧ arrow.kind = .arrow := by
  induction h with
  | @var name _ => exact .inl ⟨name, rfl⟩
  | @field base arrow name _ harrow _ ih =>
      refine .inr ?_
      rcases ih with ⟨x, rfl⟩ | ⟨first, us, hus, hfirst⟩
      · exact ⟨arrow, [name], rfl, harrow⟩
      · refine ⟨first, us ++ [arrow, name], ?_, hfirst⟩
        rw [Place.yield, base.yield_eq_cons, hus]
        rfl

/-- A list of names, one at least, with commas between them. -/
structure NameList (names : Separated Token) : Prop where
  punctuated : Separated.Punctuated .comma false names
  nonempty : names ≠ []
  isIdent : ∀ name ∈ Separated.values names, name.kind = .ident

/-- The parameter lists of struct definitions. -/
structure TypeParams.WellFormed (p : TypeParams) : Prop where
  lbracket : p.lbracket.kind = .lbracket
  names : NameList p.names
  rbracket : p.rbracket.kind = .rbracket

/-- The struct definitions of the language. The last group of fields may lack its semicolon. -/
structure StructDef.WellFormed (d : StructDef) : Prop where
  structKw : d.structKw.kind = .structKw
  params : ∀ p ∈ d.params, p.WellFormed
  lbrace : d.lbrace.kind = .lbrace
  punctuated : Separated.Punctuated .semicolon true (d.groups.map FieldGroup.toItem)
  groups : ∀ g ∈ d.groups, NameList g.names ∧ g.type.WellFormed
  rbrace : d.rbrace.kind = .rbrace

/-- The parameters of function literals. -/
structure Param.WellFormed (p : Param) : Prop where
  name : p.name.kind = .ident
  type : p.type.WellFormed

/-! ### Expressions and statements -/

namespace Expr

/-- How tightly the operator of an expression binds, if a binary operator is its outermost part. -/
def infixPrecedence? (table : OperatorTable) : Expr → Option Precedence
  | binary _ _ opToken _ => some (table.trailingPrecedence opToken.kind)
  | _ => none

/-- The strength at which the right operand of an expression is read, if a binary operator is its
outermost part. -/
def rightPrecedence? (table : OperatorTable) : Expr → Option Precedence
  | binary _ _ opToken _ => table.rightPrecedence? opToken.kind
  | _ => none

end Expr

mutual

/-- The expressions of the language, with the operators of a table. A struct literal begins with a
name, since `nil` begins a literal. -/
inductive Expr.WellFormed (table : OperatorTable) : Expr → Prop where
  | literal {kind : LiteralKind} {token : Token} (hrule : table.leading token.kind = some .literal)
      (hkind : LiteralKind.ofToken? token.kind = some kind) :
      Expr.WellFormed table (.literal kind token)
  | place {p : Place} (hrule : table.leading .ident = some .ident) (hp : p.WellFormed) :
      Expr.WellFormed table (.place p)
  | struct {type : TypeRef} {lbrace rbrace : Token} {inits : List (Item FieldInit)}
      (hrule : table.leading .ident = some .ident) (hname : type.name.kind = .ident)
      (htype : type.WellFormed) (hlbrace : lbrace.kind = .lbrace)
      (hinits : Separated.Punctuated .comma true inits)
      (hvalues : ∀ init ∈ Separated.values inits, FieldInit.WellFormed table init)
      (hrbrace : rbrace.kind = .rbrace) : Expr.WellFormed table (.struct type lbrace inits rbrace)
  | unary {p : Precedence} {op : UnaryOp} {opToken : Token} {operand : Expr}
      (hrule : table.leading opToken.kind = some (.operator p))
      (hop : UnaryOp.ofToken? opToken.kind = some op) (hoperand : Expr.WellFormed table operand)
      (hbinds : ∀ q ∈ operand.infixPrecedence? table, p < q) :
      Expr.WellFormed table (.unary op opToken operand)
  | binary {p : Precedence} {groupsRight : Bool} {left right : Expr} {op : BinaryOp}
      {opToken : Token} (hrule : table.trailing opToken.kind = some (.binary p groupsRight))
      (hop : BinaryOp.ofToken? opToken.kind = some op) (hleft : Expr.WellFormed table left)
      (hright : Expr.WellFormed table right) (hleftBinds : ∀ q ∈ left.rightPrecedence? table, p ≤ q)
      (hrightBinds : ∀ q ∈ right.infixPrecedence? table,
        TrailingRule.operandPrecedence p groupsRight < q) :
      Expr.WellFormed table (.binary left op opToken right)
  | group {lparen rparen : Token} {inner : Expr} (hrule : table.leading lparen.kind = some .group)
      (hinner : Expr.WellFormed table inner) (hrparen : rparen.kind = .rparen) :
      Expr.WellFormed table (.group lparen inner rparen)
  | call {callee : Place} {lparen rparen : Token} {args : List (Item Expr)}
      (hleading : table.leading .ident = some .ident) (hcallee : callee.WellFormed)
      (hrule : table.trailing lparen.kind = some .call)
      (hargs : Separated.Punctuated .comma false args)
      (hvalues : ∀ arg ∈ Separated.values args, Expr.WellFormed table arg)
      (hrparen : rparen.kind = .rparen) : Expr.WellFormed table (.call callee lparen args rparen)
  | func {funcKw lparen rparen lbrace rbrace : Token} {params : Separated Param}
      {result : Option TypeRef} {body : List Stmt}
      (hrule : table.leading funcKw.kind = some .func) (hlparen : lparen.kind = .lparen)
      (hparams : Separated.Punctuated .comma false params)
      (hvalues : ∀ param ∈ Separated.values params, param.WellFormed)
      (hrparen : rparen.kind = .rparen) (hresult : ∀ type ∈ result, type.WellFormed)
      (hlbrace : lbrace.kind = .lbrace) (hbody : ∀ stmt ∈ body, Stmt.WellFormed table stmt)
      (hrbrace : rbrace.kind = .rbrace) :
      Expr.WellFormed table (.func funcKw lparen params rparen result lbrace body rbrace)

/-- The initialisers of struct literals. -/
inductive FieldInit.WellFormed (table : OperatorTable) : FieldInit → Prop where
  | mk {name colon : Token} {value : Expr} (hname : name.kind = .ident)
      (hcolon : colon.kind = .colon) (hvalue : Expr.WellFormed table value) :
      FieldInit.WellFormed table ⟨name, colon, value⟩

/-- The statements of the language. -/
inductive Stmt.WellFormed (table : OperatorTable) : Stmt → Prop where
  | typeDef {typeKw eq semicolon : Token} {name : TypeRef} {definition : StructDef}
      (htypeKw : typeKw.kind = .typeKw) (hname : name.WellFormed) (heq : eq.kind = .eq)
      (hdefinition : definition.WellFormed) (hsemicolon : semicolon.kind = .semicolon) :
      Stmt.WellFormed table (.typeDef typeKw name eq definition semicolon)
  | define {letKw eq semicolon : Token} {target : Place} {value : Expr}
      (hletKw : letKw.kind = .letKw) (htarget : target.WellFormed) (heq : eq.kind = .eq)
      (hvalue : Expr.WellFormed table value) (hsemicolon : semicolon.kind = .semicolon) :
      Stmt.WellFormed table (.define letKw target eq value semicolon)
  | assign {setKw eq semicolon : Token} {target : Place} {value : Expr}
      (hsetKw : setKw.kind = .setKw) (htarget : target.WellFormed) (heq : eq.kind = .eq)
      (hvalue : Expr.WellFormed table value) (hsemicolon : semicolon.kind = .semicolon) :
      Stmt.WellFormed table (.assign setKw target eq value semicolon)
  | ret {returnKw semicolon : Token} {value : Option Expr} (hreturnKw : returnKw.kind = .returnKw)
      (hvalue : ∀ e ∈ value, Expr.WellFormed table e) (hsemicolon : semicolon.kind = .semicolon) :
      Stmt.WellFormed table (.ret returnKw value semicolon)
  | expr {e : Expr} {semicolon : Token} (he : Expr.WellFormed table e)
      (hsemicolon : semicolon.kind = .semicolon) : Stmt.WellFormed table (.expr e semicolon)

end

/-- The programs of the language: statements, and the token that ends the text. -/
structure Program.WellFormed (table : OperatorTable) (p : Program) : Prop where
  stmts : ∀ stmt ∈ p.stmts, stmt.WellFormed table
  eof : ∀ token ∈ p.eof, token.kind = .eof

end ParseTree

end StructScript
