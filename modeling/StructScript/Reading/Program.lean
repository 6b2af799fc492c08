import StructScript.Reading.Expression

/-!
# Reading programs

Ties the readers of expressions and statements together under a bound on their nesting, and reads
whole programs. The bound is taken from the number of tokens left and is never used up.

Main definitions:

* `Parse.expr` and `Parse.stmt`, with the bound given;
* `Parse.readExpr`, `Parse.readStmt`, `Parse.readProgram`, with the bound taken from the cursor;
* `ParseTree.Program.ofTokens`.
-/

namespace StructScript

namespace Parse

open ParseTree

mutual

/-- An expression all of whose operators bind tighter than `min`. -/
def expr (table : OperatorTable) : Nat → Precedence → Parse Expr
  | 0, _ => Bounded.exhausted
  | n + 1, min => do
    let token ← advance
    match table.leading token.kind with
    | none => Bounded.fail (.noLeadingRule token)
    | some rule =>
      let left ← leading n (expr table n) (stmt table n) rule token
      extend table (expr table n) min n left

/-- A statement. -/
def stmt (table : OperatorTable) : Nat → Parse Stmt
  | 0 => Bounded.exhausted
  | n + 1 => statement n (expr table n)

end

/-- Statements up to the token that ends the text, or up to the end of the buffer. -/
def program (stmt : Parse Stmt) : Nat → Parse Program
  | 0 => Bounded.exhausted
  | n + 1 => do
    let cursor ← Bounded.state
    if cursor.hasMore then
      let next ← peek
      match next.kind with
      | .eof =>
        let token ← advance
        return ⟨[], some token⟩
      | .rbrace => Bounded.fail (.unexpectedDescribed "a statement" next)
      | _ =>
        let first ← stmt
        let rest ← program stmt n
        return { rest with stmts := first :: rest.stmts }
    else return ⟨[], none⟩

/-- A bound on the nesting of what can be read at a cursor. Each expression or statement inside
another has fewer tokens before it than the one around it has, or is the expression that begins a
statement, so twice the number of tokens is enough but for a constant. -/
def nestingBound (c : Cursor) : Nat := 2 * c.remaining.length + 4

/-- What a reader gives at a cursor under the bound for that cursor. Should the bound be used up,
the reader fails for want of tokens. -/
def atCursor {α : Type} (p : Nat → Parse α) (c : Cursor) : Except ParseError α × Cursor :=
  match p (nestingBound c) c with
  | some result => result
  | none => (.error c.outOfTokens, c)

/-- Read an expression all of whose operators bind tighter than `min`. -/
def readExpr (table : OperatorTable) (min : Precedence) :
    Cursor → Except ParseError Expr × Cursor :=
  atCursor (expr table · min)

/-- Read a statement. -/
def readStmt (table : OperatorTable) : Cursor → Except ParseError Stmt × Cursor :=
  atCursor (stmt table)

/-- Read a program. -/
def readProgram (table : OperatorTable) : Cursor → Except ParseError Program × Cursor :=
  atCursor (fun n => program (stmt table n) n)

end Parse

/-- The program that a buffer of tokens without comments holds. -/
def ParseTree.Program.ofTokens (tokens : List Token) (table : OperatorTable) :
    Except ParseError ParseTree.Program :=
  (Parse.readProgram table (Cursor.ofTokens tokens)).1

end StructScript
