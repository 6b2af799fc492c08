import StructScript.Precedence
import StructScript.Token

/-!
# Operator tables

Which tokens begin an expression, which continue one, and how tightly. The standard table is that of
the language; others are made by replacing rules.

Main definitions:

* `LeadingRule`, `TrailingRule`;
* `OperatorTable`, with `OperatorTable.standard` and `OperatorTable.empty`.
-/

namespace StructScript

/-- What a token at the beginning of an expression begins. -/
inductive LeadingRule where
  | literal
  /-- A name, a place, or a struct literal. -/
  | ident
  /-- An expression in parentheses. -/
  | group
  /-- A unary operator, which reads its operand at a strength. -/
  | operator (precedence : Precedence)
  /-- A function literal. -/
  | func
  deriving DecidableEq, Repr

/-- How a token continues the expression before it. -/
inductive TrailingRule where
  /-- A binary operator. -/
  | binary (precedence : Precedence) (groupsRight : Bool)
  /-- The arguments of a call. -/
  | call
  deriving DecidableEq, Repr

namespace TrailingRule

/-- How tightly the rule binds. -/
def precedence : TrailingRule → Precedence
  | binary p _ => p
  | call => .call

/-- The strength at which the right operand is read. -/
def operandPrecedence (p : Precedence) (groupsRight : Bool) : Precedence :=
  if groupsRight then p.weaker else p

end TrailingRule

/-- The rules by which expressions are read. -/
structure OperatorTable where
  leading : TokenKind → Option LeadingRule
  trailing : TokenKind → Option TrailingRule

namespace OperatorTable

/-- The table without rules. -/
def empty : OperatorTable := ⟨fun _ => none, fun _ => none⟩

/-- The table of the language. -/
def standard : OperatorTable where
  leading
    | .plus | .minus | .notKw => some (.operator .unary)
    | .int | .float | .string | .trueKw | .falseKw | .nilKw => some .literal
    | .ident => some .ident
    | .lparen => some .group
    | .funcKw => some .func
    | _ => none
  trailing
    | .plus | .minus => some (.binary .sum false)
    | .star | .slash => some (.binary .product false)
    | .gt | .gtEq | .lt | .ltEq | .eqEq => some (.binary .comparison false)
    | .andKw | .orKw => some (.binary .logical false)
    | .lparen => some .call
    | _ => none

/-- Let tokens of a kind begin an expression by `rule`. -/
def setLeading (kind : TokenKind) (rule : LeadingRule) (t : OperatorTable) : OperatorTable :=
  { t with leading := fun k => if k = kind then some rule else t.leading k }

/-- Let tokens of a kind continue an expression by `rule`. -/
def setTrailing (kind : TokenKind) (rule : TrailingRule) (t : OperatorTable) : OperatorTable :=
  { t with trailing := fun k => if k = kind then some rule else t.trailing k }

/-- How tightly tokens of a kind continue an expression; those without a rule bind weakest. -/
def trailingPrecedence (t : OperatorTable) (kind : TokenKind) : Precedence :=
  match t.trailing kind with
  | some rule => rule.precedence
  | none => .bottom

end OperatorTable

end StructScript
