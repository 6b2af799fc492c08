import StructScript.Token

/-!
# Operators and literal kinds

The unary and binary operators of the language with their symbols, and the kinds of literals, each
with the tokens that write them.
-/

namespace StructScript

/-- An operator before its operand. -/
inductive UnaryOp where
  | pos | neg | not
  deriving DecidableEq, Repr, Inhabited

namespace UnaryOp

/-- The operator that a token of this kind writes, if it writes one. -/
def ofToken? : TokenKind → Option UnaryOp
  | .plus => some pos
  | .minus => some neg
  | .notKw => some not
  | _ => none

/-- How the operator is written. -/
def symbol : UnaryOp → String
  | pos => "+"
  | neg => "-"
  | not => "not"

end UnaryOp

/-- An operator between two operands. -/
inductive BinaryOp where
  | add | sub | mul | div | gt | gtEq | lt | ltEq | eq | and | or
  deriving DecidableEq, Repr, Inhabited

namespace BinaryOp

/-- The operator that a token of this kind writes, if it writes one. -/
def ofToken? : TokenKind → Option BinaryOp
  | .plus => some add
  | .minus => some sub
  | .star => some mul
  | .slash => some div
  | .gt => some gt
  | .gtEq => some gtEq
  | .lt => some lt
  | .ltEq => some ltEq
  | .eqEq => some eq
  | .andKw => some and
  | .orKw => some or
  | _ => none

/-- How the operator is written. -/
def symbol : BinaryOp → String
  | add => "+"
  | sub => "-"
  | mul => "*"
  | div => "/"
  | gt => ">"
  | gtEq => ">="
  | lt => "<"
  | ltEq => "<="
  | eq => "=="
  | and => "and"
  | or => "or"

end BinaryOp

/-- Which kind of literal a token writes. -/
inductive LiteralKind where
  | int | float | string | true | false | nil
  deriving DecidableEq, Repr, Inhabited

/-- The kind of literal that a token of this kind writes, if it writes one. -/
def LiteralKind.ofToken? : TokenKind → Option LiteralKind
  | .int => some .int
  | .float => some .float
  | .string => some .string
  | .trueKw => some .true
  | .falseKw => some .false
  | .nilKw => some .nil
  | _ => none

end StructScript
