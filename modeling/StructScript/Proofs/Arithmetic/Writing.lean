import Mathlib.Data.Nat.Digits.Defs
import StructScript.Proofs.Printing.Spelling

/-!
# Arithmetic expressions in writing

Expression trees of integers, and the text that writes one. An operand stands in parentheses exactly
where it binds weaker than its place asks: behind a sign every sum and product does, to the left of
an operator what binds weaker than the operator, and to the right of it also what binds as tightly,
since operators group to the left.

Main definitions:

* `Arith`, the trees, with `Arith.words`, the kinds and lexemes of the tokens that write one, and
  `Arith.text`;
* `Arith.tree`, the parse tree, given the places of the tokens.

Main results: the parse tree has the written tokens (`Arith.yield_tree`), belongs to the grammar
(`Arith.wellFormed_tree`), and the text is split into them (`Arith.spelled_text`).
-/

namespace StructScript

/-! ### Literals and operators -/

/-- A decimal literal, of any length. -/
structure Numeral where
  text : String
  isNumber : Pattern.digits.Matches text.toList

namespace Numeral

/-- The number that the numeral stands for: its last digit counts ones. -/
def value (n : Numeral) : Nat :=
  Nat.ofDigits 10 (n.text.toList.reverse.map fun c => c.toNat - '0'.toNat)

/-- A numeral is read as the number that it stands for. -/
theorem readNat?_text (n : Numeral) : Decimal.readNat? n.text.toList = some n.value := by
  rw [Decimal.readNat?_of_digits n.isNumber, Nat.ofDigitChars_eq_foldl, value,
    Nat.ofDigits_eq_foldr, List.foldr_map, List.foldr_reverse]
  simp only [Nat.cast_id, Nat.add_comm]

end Numeral

/-- A sign before an operand. -/
inductive Sign where
  | plus | minus
  deriving DecidableEq, Repr

namespace Sign

/-- The kind of the token that writes the sign. -/
def kind : Sign → TokenKind
  | plus => .plus
  | minus => .minus

/-- The operator of the language. -/
def op : Sign → UnaryOp
  | plus => .pos
  | minus => .neg

/-- The token of a sign is that of its operator. -/
theorem ofToken?_kind (sign : Sign) : UnaryOp.ofToken? sign.kind = some sign.op := by
  cases sign <;> rfl

/-- A sign is written with one character, which begins neither an arrow nor a comment. -/
theorem exists_char (sign : Sign) :
    ∃ c, sign.op.symbol = String.ofList [c] ∧ (sign.kind, c) ∈ Rule.arithmetic ∧
      c ≠ '>' ∧ c ≠ '/' := by
  cases sign with
  | plus => exact ⟨'+', rfl, by decide⟩
  | minus => exact ⟨'-', rfl, by decide⟩

end Sign

/-- An operator of arithmetic between two operands. -/
inductive ArithOp where
  | add | sub | mul | div
  deriving DecidableEq, Repr

namespace ArithOp

/-- The kind of the token that writes the operator. -/
def kind : ArithOp → TokenKind
  | add => .plus
  | sub => .minus
  | mul => .star
  | div => .slash

/-- The operator of the language. -/
def op : ArithOp → BinaryOp
  | add => .add
  | sub => .sub
  | mul => .mul
  | div => .div

/-- How tightly the operator binds. -/
def precedence : ArithOp → Precedence
  | add | sub => .sum
  | mul | div => .product

/-- How tightly a right operand binds at least. Operators group to the left, so one of the same
precedence does not bind tightly enough. -/
def rightPrecedence : ArithOp → Precedence
  | add | sub => .product
  | mul | div => .unary

/-- The token of an operator is that of the operator of the language. -/
theorem ofToken?_kind (op : ArithOp) : BinaryOp.ofToken? op.kind = some op.op := by
  cases op <;> rfl

/-- An operator is written with one character. -/
theorem exists_char (op : ArithOp) :
    ∃ c, op.op.symbol = String.ofList [c] ∧ (op.kind, c) ∈ Rule.arithmetic := by
  cases op with
  | add => exact ⟨'+', rfl, by decide⟩
  | sub => exact ⟨'-', rfl, by decide⟩
  | mul => exact ⟨'*', rfl, by decide⟩
  | div => exact ⟨'/', rfl, by decide⟩

/-- The standard table gives operators the precedence that they have here. -/
theorem trailingPrecedence_kind (op : ArithOp) :
    OperatorTable.standard.trailingPrecedence op.kind = op.precedence := by
  cases op <;> rfl

/-- What may stand to the right of an operator binds tighter than it. -/
theorem rightPrecedence_le_iff {op : ArithOp} {q : Precedence} :
    op.rightPrecedence ≤ q ↔ op.precedence < q := by
  cases op <;> exact Iff.rfl

/-- Signs may stand to the right of any operator. -/
theorem rightPrecedence_le_unary (op : ArithOp) : op.rightPrecedence ≤ .unary := by
  cases op <;> decide

/-- No operator binds tighter than a sign. -/
theorem precedence_le_unary (op : ArithOp) : op.precedence ≤ .unary := by
  cases op <;> decide

end ArithOp

/-! ### Words and tokens -/

/-- Words as tokens in their places, the first one in the `i`-th. -/
def Token.placed (place : Nat → Position) (i : Nat) (words : List (TokenKind × String)) :
    List Token :=
  (words.zipIdx i).map fun w => ⟨w.1.1, w.1.2, place w.2⟩

namespace Token

variable (place : Nat → Position) (i : Nat)

/-- No words make no tokens. -/
@[simp] theorem placed_nil : placed place i [] = [] := rfl

/-- The first word stands in the first place, and the others behind it. -/
@[simp] theorem placed_cons (w : TokenKind × String) (words : List (TokenKind × String)) :
    placed place i (w :: words) = ⟨w.1, w.2, place i⟩ :: placed place (i + 1) words := by
  simp [placed, List.zipIdx_cons]

/-- Words behind others stand as many places further on. -/
@[simp] theorem placed_append (words others : List (TokenKind × String)) :
    placed place i (words ++ others) =
      placed place i words ++ placed place (i + words.length) others := by
  simp [placed, List.zipIdx_append]

/-- The first token is the first word. -/
theorem head?_placed (words : List (TokenKind × String)) :
    (placed place i words).head? = words.head?.map fun w => ⟨w.1, w.2, place i⟩ := by
  cases words with
  | nil => rfl
  | cons w words => rw [placed_cons]; rfl

/-- The last token is the last word. -/
theorem getLast?_placed (words : List (TokenKind × String)) :
    (placed place i words).getLast? =
      words.getLast?.map fun w => ⟨w.1, w.2, place (i + words.length - 1)⟩ := by
  rcases words.eq_nil_or_concat with rfl | ⟨words, w, rfl⟩
  · rfl
  · simp

/-- Tokens are their words in their places. -/
theorem placed_words (tokens : List Token) :
    placed (fun k => (tokens.getD k default).position) 0
      (tokens.map fun t => (t.kind, t.lexeme)) = tokens := by
  apply List.ext_getElem
  · simp [placed]
  · intro k hk hlength
    simp [placed, hlength]

end Token

/-! ### Trees and their words -/

/-- An expression tree of integers. -/
inductive Arith where
  | literal (n : Numeral)
  | signed (sign : Sign) (operand : Arith)
  | binary (left : Arith) (op : ArithOp) (right : Arith)

namespace Arith

/-- How tightly the outermost operator binds. A literal is never taken apart. -/
def precedence : Arith → Precedence
  | literal _ => .call
  | signed _ _ => .unary
  | binary _ op _ => op.precedence

/-- Words in parentheses, where these are needed. -/
def enclose (needed : Bool) (words : List (TokenKind × String)) : List (TokenKind × String) :=
  if needed then (.lparen, "(") :: (words ++ [(.rparen, ")")]) else words

/-- Whether the tree needs parentheses where an operand binds as tightly as `p` at least. -/
def enclosed (p : Precedence) (e : Arith) : Bool := e.precedence < p

/-- The kinds and lexemes of the tokens that write the tree. -/
def words : Arith → List (TokenKind × String)
  | literal n => [(.int, n.text)]
  | signed sign operand =>
    (sign.kind, sign.op.symbol) :: enclose (operand.enclosed .unary) operand.words
  | binary left op right =>
    enclose (left.enclosed op.precedence) left.words ++ (op.kind, op.op.symbol) ::
      enclose (right.enclosed op.rightPrecedence) right.words

/-- The words of an operand that binds as tightly as `p` at least. -/
def operandWords (p : Precedence) (e : Arith) : List (TokenKind × String) :=
  enclose (e.enclosed p) e.words

/-- The text that writes the tree, without gaps. -/
def text (e : Arith) : String := String.join (e.words.map (·.2))

/-! ### The parse tree -/

variable (place : Nat → Position)

/-- A parse tree of `length` tokens from the `i`-th place on, in parentheses where these are
needed. -/
def encloseTree (needed : Bool) (length : Nat) (tree : Nat → ParseTree.Expr) (i : Nat) :
    ParseTree.Expr :=
  if needed then
    .group ⟨.lparen, "(", place i⟩ (tree (i + 1)) ⟨.rparen, ")", place (i + 1 + length)⟩
  else tree i

/-- The parse tree whose first token is in the `i`-th place. -/
def tree : Arith → Nat → ParseTree.Expr
  | literal n, i => .literal .int ⟨.int, n.text, place i⟩
  | signed sign operand, i =>
    .unary sign.op ⟨sign.kind, sign.op.symbol, place i⟩
      (encloseTree place (operand.enclosed .unary) operand.words.length operand.tree (i + 1))
  | binary left op right, i =>
    let middle := i + (left.operandWords op.precedence).length
    .binary (encloseTree place (left.enclosed op.precedence) left.words.length left.tree i) op.op
      ⟨op.kind, op.op.symbol, place middle⟩
      (encloseTree place (right.enclosed op.rightPrecedence) right.words.length right.tree
        (middle + 1))

/-- The parse tree of an operand that binds as tightly as `p` at least. -/
def operandTree (p : Precedence) (e : Arith) (i : Nat) : ParseTree.Expr :=
  encloseTree place (e.enclosed p) e.words.length (e.tree place) i

/-- The place of the first token of an operand inside its parentheses, if it has some. -/
def inner (p : Precedence) (e : Arith) (i : Nat) : Nat := if e.enclosed p then i + 1 else i

/-- An operand has the tokens of its words, with those of its parentheses if it needs any. -/
theorem yield_operandTree {e : Arith}
    (h : ∀ i, (e.tree place i).yield = Token.placed place i e.words) (p : Precedence) (i : Nat) :
    (e.operandTree place p i).yield = Token.placed place i (e.operandWords p) := by
  unfold operandTree operandWords encloseTree enclose
  split
  · simp [ParseTree.Expr.yield, h]
  · exact h i

/-- The parse tree has the written tokens. -/
theorem yield_tree (e : Arith) (i : Nat) : (e.tree place i).yield = Token.placed place i e.words := by
  induction e generalizing i with
  | literal n => rfl
  | signed sign operand ih =>
      have hoperand := yield_operandTree place ih .unary (i + 1)
      rw [tree, ParseTree.Expr.yield, words, Token.placed_cons]
      exact congrArg (_ :: ·) hoperand
  | binary left op right ihLeft ihRight =>
      have hleft := yield_operandTree place ihLeft op.precedence i
      have hright := yield_operandTree place ihRight op.rightPrecedence
        (i + (left.operandWords op.precedence).length + 1)
      let middle := i + (left.operandWords op.precedence).length
      calc ((binary left op right).tree place i).yield
          = (left.operandTree place op.precedence i).yield ++
              ⟨op.kind, op.op.symbol, place middle⟩ ::
                (right.operandTree place op.rightPrecedence (middle + 1)).yield := rfl
        _ = Token.placed place i (left.operandWords op.precedence) ++
              ⟨op.kind, op.op.symbol, place middle⟩ ::
                Token.placed place (middle + 1) (right.operandWords op.rightPrecedence) := by
            rw [hleft, hright]
        _ = Token.placed place i (binary left op right).words := by
            rw [words, Token.placed_append, Token.placed_cons]
            rfl

/-! ### The grammar -/

/-- An operand binds as tightly as its place asks exactly if it needs no parentheses there. -/
theorem binds_tree_iff {p : Precedence} (hp : p ≤ .unary) (e : Arith) (i : Nat) :
    (∀ q ∈ (e.tree place i).infixPrecedence? .standard, p ≤ q) ↔ e.enclosed p = false := by
  rw [enclosed, decide_eq_false_iff_not]
  cases e with
  | literal n =>
      have htight : ¬ Precedence.call < p := Nat.not_lt_of_le (Nat.le_trans hp (by decide))
      exact iff_of_true nofun htight
  | signed sign operand =>
      have htight : ¬ Precedence.unary < p := Nat.not_lt_of_le hp
      exact iff_of_true nofun htight
  | binary left op right =>
      have houtermost : (tree place (left.binary op right) i).infixPrecedence? .standard =
          some op.precedence := congrArg some op.trailingPrecedence_kind
      rw [houtermost]
      constructor
      · intro h
        exact Nat.not_lt_of_le (h _ rfl)
      · rintro h q ⟨⟩
        exact Nat.le_of_not_lt h

/-- An operator that stands outermost in an operand, not in parentheses, binds as tightly as its
place asks. -/
theorem binds_operandTree {p : Precedence} (hp : p ≤ .unary) (e : Arith) (i : Nat) :
    ∀ q ∈ (e.operandTree place p i).infixPrecedence? .standard, p ≤ q := by
  unfold operandTree encloseTree
  split
  · exact nofun
  · rename_i henclosed
    exact (binds_tree_iff place hp e i).mpr (Bool.eq_false_iff.mpr henclosed)

/-- An operand belongs to the grammar, in parentheses or without. -/
theorem wellFormed_operandTree {e : Arith} (h : ∀ i, (e.tree place i).WellFormed .standard)
    (p : Precedence) (i : Nat) : (e.operandTree place p i).WellFormed .standard := by
  unfold operandTree encloseTree
  split
  · exact .group rfl (h _) rfl
  · exact h i

/-- The parse tree belongs to the grammar. -/
theorem wellFormed_tree (e : Arith) (i : Nat) : (e.tree place i).WellFormed .standard := by
  induction e generalizing i with
  | literal n => exact .literal rfl rfl
  | signed sign operand ih =>
      have hoperand := wellFormed_operandTree place ih .unary (i + 1)
      have hbinds := binds_operandTree place (Nat.le_refl _) operand (i + 1)
      exact ParseTree.Expr.wellFormed_unary_iff.mpr
        ⟨sign.ofToken?_kind, hoperand, hoperand.infixPrecedence?_eq_none_iff.mpr hbinds⟩
  | binary left op right ihLeft ihRight =>
      have hleft := wellFormed_operandTree place ihLeft op.precedence
      have hright := wellFormed_operandTree place ihRight op.rightPrecedence
      have hleftBinds := binds_operandTree place op.precedence_le_unary left
      have hrightBinds := binds_operandTree place op.rightPrecedence_le_unary right
      refine ParseTree.Expr.wellFormed_binary_iff.mpr ⟨op.ofToken?_kind, hleft _, hright _, ?_, ?_⟩
      · rw [op.trailingPrecedence_kind]
        exact hleftBinds i
      · rw [op.trailingPrecedence_kind]
        exact fun q hq => ArithOp.rightPrecedence_le_iff.mp (hrightBinds _ q hq)

/-- The parentheses are those that the grammar requires. Where an operand would stand in them, it does
not belong to the grammar without. -/
theorem wellFormed_bare_iff (i j : Nat) :
    (∀ (sign : Sign) (token : Token) (e : Arith), token.kind = sign.kind →
      ((ParseTree.Expr.unary sign.op token (e.tree place i)).WellFormed .standard ↔
        e.enclosed .unary = false)) ∧
    ∀ (op : ArithOp) (token : Token) (left right : Arith), token.kind = op.kind →
      ((ParseTree.Expr.binary (left.tree place i) op.op token (right.tree place j)).WellFormed
          .standard ↔
        left.enclosed op.precedence = false ∧ right.enclosed op.rightPrecedence = false) := by
  constructor
  · intro sign token e hkind
    rw [ParseTree.Expr.wellFormed_unary_iff, hkind,
      (e.wellFormed_tree place i).infixPrecedence?_eq_none_iff, binds_tree_iff place (Nat.le_refl _)]
    constructor
    · exact fun h => h.2.2
    · exact fun h => ⟨sign.ofToken?_kind, e.wellFormed_tree place i, h⟩
  · intro op token left right hkind
    rw [ParseTree.Expr.wellFormed_binary_iff, hkind, op.trailingPrecedence_kind,
      ← binds_tree_iff place op.precedence_le_unary left i,
      ← binds_tree_iff place op.rightPrecedence_le_unary right j]
    simp only [ArithOp.rightPrecedence_le_iff]
    constructor
    · exact fun h => h.2.2.2
    · exact fun h => ⟨op.ofToken?_kind, left.wellFormed_tree place i, right.wellFormed_tree place j, h⟩

/-! ### The text -/

/-- Words one behind the other. -/
def joined (words : List (TokenKind × String)) : List Char := words.flatMap (·.2.toList)

/-- The text of words is that of the first and then that of the others. -/
@[simp] theorem joined_cons (w : TokenKind × String) (words : List (TokenKind × String)) :
    joined (w :: words) = w.2.toList ++ joined words := List.flatMap_cons

/-- The text of words behind others stands behind theirs. -/
@[simp] theorem joined_append (words others : List (TokenKind × String)) :
    joined (words ++ others) = joined words ++ joined others := List.flatMap_append

/-- An expression is written as its words one after another. -/
theorem toList_text (e : Arith) : e.text.toList = joined e.words := by
  rw [text, String.toList_join, List.flatMap_map, joined]

/-- Words as tokens that no text holds. -/
def samples (words : List (TokenKind × String)) : List Token := words.map fun w => .sample w.1 w.2

/-- Sample tokens have the kinds and lexemes that they are made of. -/
theorem map_samples (words : List (TokenKind × String)) :
    (samples words).map (fun t => (t.kind, t.lexeme)) = words := by
  rw [samples, List.map_map]
  exact List.map_id _

/-- A literal is written as its numeral. -/
theorem joined_literal (n : Numeral) : joined (literal n).words = n.text.toList := by
  simp [words, joined]

section Enclose

variable {words : List (TokenKind × String)} (needed : Bool)

/-- What begins an operand still does so in parentheses. -/
theorem opensOperand_enclose (h : OpensOperand (joined words)) :
    OpensOperand (joined (enclose needed words)) := by
  cases needed with
  | true => exact ⟨'(', joined (words ++ [(.rparen, ")")]), rfl, by decide, by decide⟩
  | false => exact h

/-- Words that are spelled by their text are so in parentheses. -/
theorem spelled_enclose (h : Spelled (joined words) (samples words)) :
    Spelled (joined (enclose needed words)) (samples (enclose needed words)) := by
  cases needed with
  | true =>
      have hjoined : joined (enclose true words) = '(' :: (joined words ++ [')']) := by
        simp [enclose, joined]
      have hsamples : samples (enclose true words) =
          .symbol .lparen '(' :: (samples words ++ [.symbol .rparen ')']) := by
        simp [enclose, samples, Token.symbol]
      rw [hjoined, hsamples]
      exact h.parenthesized
  | false => exact h

end Enclose

/-- No tree is written with a first character that goes on the symbol before it. -/
theorem opensOperand_words (e : Arith) : OpensOperand (joined e.words) := by
  induction e with
  | literal n =>
      rw [joined_literal]
      exact .of_digits n.isNumber
  | signed sign operand _ =>
      obtain ⟨c, hsymbol, -, hc⟩ := sign.exists_char
      rw [words, joined_cons, hsymbol, String.toList_ofList]
      exact ⟨c, _, rfl, hc⟩
  | binary left op right ihLeft _ =>
      obtain ⟨c, rest, hleft, hc⟩ := opensOperand_enclose (left.enclosed op.precedence) ihLeft
      rw [words, joined_append, hleft]
      exact ⟨c, _, List.cons_append, hc⟩

/-- The words of a tree are split where one ends and the next begins. -/
theorem spelled_words (e : Arith) : Spelled (joined e.words) (samples e.words) := by
  induction e with
  | literal n =>
      rw [joined_literal]
      exact .digits n.isNumber
  | signed sign operand ih =>
      obtain ⟨c, hsymbol, hc, -⟩ := sign.exists_char
      have hoperand := spelled_enclose (operand.enclosed .unary) ih
      have hopens := opensOperand_enclose (operand.enclosed .unary) operand.opensOperand_words
      rw [words, hsymbol, joined_cons, String.toList_ofList]
      exact hoperand.operator sign.kind c hc hopens
  | binary left op right ihLeft ihRight =>
      obtain ⟨c, hsymbol, hc⟩ := op.exists_char
      have hleft := spelled_enclose (left.enclosed op.precedence) ihLeft
      have hright := spelled_enclose (right.enclosed op.rightPrecedence) ihRight
      have hopens := opensOperand_enclose (right.enclosed op.rightPrecedence)
        right.opensOperand_words
      have hoperator := hright.operator op.kind c hc hopens
      rw [words, hsymbol, joined_append, joined_cons, String.toList_ofList, samples,
        List.map_append]
      exact hleft.append hoperator fun cs => Rule.delimited_of_arithmetic hc _

/-- The text of a tree spells the tokens that write it. -/
theorem spelled_text (e : Arith) : Spelled e.text.toList (samples e.words) := by
  rw [e.toList_text]
  exact e.spelled_words

end Arith

end StructScript
