import StructScript.OperatorTable
import StructScript.Reading.Declaration

/-!
# Reading expressions and statements

Each construct is read by a function of the readers of its parts: `expr` reads an expression whose
operators bind tighter than a given strength, `stmt` a statement. The functions themselves are not
recursive; `StructScript.Reading.Program` ties them together.

Main definitions:

* `Parse.leading`, what an expression begins with;
* `Parse.extend`, the operators and calls behind an expression, by precedence climbing;
* `Parse.statement`, `Parse.block`.
-/

namespace StructScript.Parse

open ParseTree

/-- An initialiser of a struct literal. -/
def fieldInit (expr : Precedence → Parse Expr) : Parse FieldInit := do
  let name ← expect .ident
  let colon ← expect .colon
  let value ← expr .bottom
  return ⟨name, colon, value⟩

/-- The struct literal whose type begins with a name. -/
def structLiteral (n : Nat) (expr : Precedence → Parse Expr) (name : Token) : Parse Expr :=
  within .structLiteral do
    let type ← within .type (typeArgs (typeRef n) n name)
    let lbrace ← expect .lbrace
    let inits ← within .structLiteralFields (openList .comma .rbrace (fieldInit expr) n)
    let rbrace ← expect .rbrace
    return .struct type lbrace inits rbrace

/-- The expression that begins with a name: a brace or a bracket behind the name makes it a struct
literal. -/
def named (n : Nat) (expr : Precedence → Parse Expr) (name : Token) : Parse Expr := do
  if name.kind = .ident then
    if ← checkAny [.lbrace, .lbracket] then structLiteral n expr name
    else .place <$> placeFrom n name
  else Bounded.fail (.unexpected [.ident] name)

/-- An expression in parentheses, the first of which is taken. -/
def group (expr : Precedence → Parse Expr) (lparen : Token) : Parse Expr := within .group do
  let inner ← expr .bottom
  let rparen ← expect .rparen
  return .group lparen inner rparen

/-- The operand of a unary operator. -/
def operand (expr : Precedence → Parse Expr) (p : Precedence) (op : UnaryOp) (opToken : Token) :
    Parse Expr := within .unaryOperator do
  let inner ← expr p
  return .unary op opToken inner

/-- A parameter of a function literal. -/
def param (n : Nat) : Parse Param := do
  let name ← expect .ident
  let type ← typeRef n
  return ⟨name, type⟩

/-- Statements up to a closing brace, which is not taken. -/
def block (stmt : Parse Stmt) : Nat → Parse (List Stmt)
  | 0 => Bounded.exhausted
  | n + 1 => do
    if ← check .rbrace then return []
    else if ← check .eof then
      let token ← peek
      Bounded.fail (.unexpected [.rbrace] token)
    else
      let first ← stmt
      let rest ← block stmt n
      return first :: rest

/-- A function literal, the keyword of which is taken. -/
def func (n : Nat) (stmt : Parse Stmt) (funcKw : Token) : Parse Expr := within .func do
  let lparen ← expect .lparen
  let params ← within .funcParams (closedList .comma .rparen (param n) n)
  let rparen ← expect .rparen
  let result ← if ← check .lbrace then pure none else some <$> typeRef n
  let lbrace ← expect .lbrace
  let body ← within .funcBody (block stmt n)
  let rbrace ← expect .rbrace
  return .func funcKw lparen params rparen result lbrace body rbrace

/-- The expression that a token begins by a rule, without operators behind it. -/
def leading (n : Nat) (expr : Precedence → Parse Expr) (stmt : Parse Stmt) (rule : LeadingRule)
    (token : Token) : Parse Expr :=
  match rule with
  | .literal =>
    match LiteralKind.ofToken? token.kind with
    | some kind => return .literal kind token
    | none => Bounded.fail (.noLeadingRule token)
  | .ident => named n expr token
  | .group => group expr token
  | .operator p =>
    match UnaryOp.ofToken? token.kind with
    | some op => operand expr p op token
    | none => Bounded.fail (.noLeadingRule token)
  | .func => func n stmt token

/-- The arguments of a call, the opening parenthesis of which is taken. -/
def call (n : Nat) (expr : Precedence → Parse Expr) (callee : Expr) (lparen : Token) : Parse Expr :=
  within .call do
    match callee.place? with
    | none => Bounded.fail (.atToken lparen .calleeNotPlace)
    | some p =>
      let args ← closedList .comma .rparen (expr .bottom) n
      let rparen ← expect .rparen
      return .call p lparen args rparen

/-- The expression `left` continued by a token and what follows it, by a rule. -/
def trailing (n : Nat) (expr : Precedence → Parse Expr) (rule : TrailingRule) (left : Expr)
    (token : Token) : Parse Expr :=
  match rule with
  | .binary p groupsRight =>
    match BinaryOp.ofToken? token.kind with
    | none => Bounded.fail (.noTrailingRule token)
    | some op => within .binaryOperator do
      let right ← expr (TrailingRule.operandPrecedence p groupsRight)
      return .binary left op token right
  | .call => call n expr left token

/-- The expression `left` continued by all operators and calls that bind tighter than `min`. The
bound `n` is on what follows an operator and the number of operators alike. -/
def extend (table : OperatorTable) (expr : Precedence → Parse Expr) (min : Precedence) :
    Nat → Expr → Parse Expr
  | 0, _ => Bounded.exhausted
  | n + 1, left => do
    let next ← peek
    match table.trailing next.kind with
    | none => return left
    | some rule =>
      if rule.precedence ≤ min then return left
      else
        let token ← advance
        let longer ← trailing n expr rule left token
        extend table expr min n longer

/-- A type definition. -/
def typeDefinition (n : Nat) : Parse Stmt := within .typeDef do
  let typeKw ← expect .typeKw
  let name ← typeRef n
  let eq ← expect .eq
  let definition ← structDef n
  let semicolon ← expect .semicolon
  return .typeDef typeKw name eq definition semicolon

/-- The definition of a variable. -/
def definition (n : Nat) (expr : Precedence → Parse Expr) : Parse Stmt := within .define do
  let letKw ← expect .letKw
  let target ← place n
  let eq ← expect .eq
  let value ← expr .bottom
  let semicolon ← expect .semicolon
  return .define letKw target eq value semicolon

/-- An assignment. -/
def assignment (n : Nat) (expr : Precedence → Parse Expr) : Parse Stmt := within .assign do
  let setKw ← expect .setKw
  let target ← place n
  let eq ← expect .eq
  let value ← expr .bottom
  let semicolon ← expect .semicolon
  return .assign setKw target eq value semicolon

/-- A return. -/
def returnStatement (expr : Precedence → Parse Expr) : Parse Stmt := within .returnStmt do
  let returnKw ← expect .returnKw
  let value ← if ← check .semicolon then pure none else some <$> expr .bottom
  let semicolon ← expect .semicolon
  return .ret returnKw value semicolon

/-- An expression as a statement. -/
def exprStatement (expr : Precedence → Parse Expr) : Parse Stmt := within .exprStmt do
  let inner ← expr .bottom
  let semicolon ← expect .semicolon
  return .expr inner semicolon

/-- A statement, told by its first token. -/
def statement (n : Nat) (expr : Precedence → Parse Expr) : Parse Stmt := within .stmt do
  let first ← peek
  match first.kind with
  | .typeKw => typeDefinition n
  | .letKw => definition n expr
  | .setKw => assignment n expr
  | .returnKw => returnStatement expr
  | _ => exprStatement expr

end StructScript.Parse
