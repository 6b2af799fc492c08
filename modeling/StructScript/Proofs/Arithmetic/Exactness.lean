import StructScript.Proofs.Arithmetic.Writing
import StructScript.Proofs.Evaluation.Conformity

/-!
# Arithmetic is exact or reports an overflow

What an expression tree of integers stands for (`Arith.value`) is a number without bounds. A program
that returns the tree returns that number if 64 bits hold the numbers of all its nodes. Otherwise it
fails at the first node, operands before their operator and left before right, whose number they do
not hold (`Arith.occurrences`): a literal is invalid, an operator overflows (`Arith.fault`).

Main result: `Session.run_return_arith`.
-/

namespace StructScript

/-! ### Numbers -/

/-- 64 bits with a sign hold the number. -/
def FitsInt64 (n : Int) : Prop := -2 ^ 63 ≤ n ∧ n ≤ 2 ^ 63 - 1

instance : DecidablePred FitsInt64 := fun _ => inferInstanceAs (Decidable (_ ∧ _))

/-- A number that fits is represented exactly. -/
theorem FitsInt64.toInt_ofInt {n : Int} (h : FitsInt64 n) : (Int64.ofInt n).toInt = n :=
  Int64.toInt_ofInt_of_le h.1 (Int.lt_of_le_sub_one h.2)

/-- The result of an operator is represented if it fits, and is an overflow otherwise. -/
theorem Value.ofInt_eq (op : String) (n : Int) : ofInt op n =
    if FitsInt64 n then .ok (int (Int64.ofInt n)) else .error (.integerOverflow op) := rfl

/-- Errors are placed one computation after the other. -/
theorem Eval.locate_bind {α β : Type} (span : Span) (m : Eval α) (f : α → Eval β) :
    locate span (m >>= f) = locate span m >>= fun a => locate span (f a) := by
  funext s
  simp only [locate, Bounded.mapError, Bounded.bind_apply]
  rcases m s with _ | ⟨_ | a, s'⟩ <;> rfl

/-- What the sign makes of a number. -/
def Sign.apply : Sign → Int → Int
  | plus, a => a
  | minus, a => -a

/-- What the operator makes of two numbers. A quotient is rounded toward zero, and is zero if the
divisor is. -/
def ArithOp.apply : ArithOp → Int → Int → Int
  | add, a, b => a + b
  | sub, a, b => a - b
  | mul, a, b => a * b
  | div, a, b => if b = 0 then 0 else a.tdiv b

namespace Arith

/-- The number that the tree stands for. -/
def value : Arith → Int
  | literal n => n.value
  | signed sign operand => sign.apply operand.value
  | binary left op right => op.apply left.value right.value

/-- What is wrong with a tree whose number does not fit. -/
def fault : Arith → EvalError.Cause
  | literal n => .invalidLiteral n.text
  | signed sign _ => .integerOverflow sign.op.symbol
  | binary _ op _ => .integerOverflow op.op.symbol

/-- What the outermost part of the tree gives, if the parts inside it fit. -/
def outcome (e : Arith) : Except EvalError.Cause Value :=
  if FitsInt64 e.value then .ok (.int (Int64.ofInt e.value)) else .error e.fault

/-- The value of a numeral in the language is its outcome here. -/
theorem ofLiteral_eq (n : Numeral) : Value.ofLiteral .int n.text = (literal n).outcome := by
  have hlow : -2 ^ 63 ≤ (n.value : Int) := by omega
  have hfits : FitsInt64 (literal n).value ↔ (n.value : Int) ≤ Int64.maxValue.toInt :=
    and_iff_right hlow
  simp only [Value.ofLiteral, n.readNat?_text, outcome, hfits]
  rfl

/-- A sign applied to a represented number gives the outcome of the signed operand. -/
theorem applyUnary_eq (sign : Sign) {operand : Arith} (h : FitsInt64 operand.value) :
    Value.applyUnary sign.op (.int (Int64.ofInt operand.value)) =
      (signed sign operand).outcome := by
  cases sign with
  | plus => exact (if_pos h).symm
  | minus =>
      rw [Sign.op, Value.applyUnary, Value.ofInt_eq, h.toInt_ofInt]
      rfl

/-- The operators of arithmetic apply to integers as integers. -/
theorem applyBinary_int (op : ArithOp) (a b : Int64) :
    Value.applyBinary op.op (.int a) (.int b) = Value.applyInt op.op a.toInt b.toInt := by
  cases op <;> rfl

/-- An operator applied to represented numbers gives the outcome of the two operands. -/
theorem applyBinary_eq (op : ArithOp) {left right : Arith} (hleft : FitsInt64 left.value)
    (hright : FitsInt64 right.value) :
    Value.applyBinary op.op (.int (Int64.ofInt left.value)) (.int (Int64.ofInt right.value)) =
      (binary left op right).outcome := by
  rw [applyBinary_int, hleft.toInt_ofInt, hright.toInt_ofInt]
  cases op with
  | add => rfl
  | sub => rfl
  | mul => rfl
  | div =>
      by_cases hzero : right.value = 0
      · have hvalue : (binary left .div right).value = 0 := if_pos hzero
        have hfits : FitsInt64 0 := by decide
        rw [outcome, hvalue, if_pos hfits]
        exact if_pos hzero
      · have hvalue : (binary left .div right).value = left.value.tdiv right.value := if_neg hzero
        rw [outcome, hvalue]
        exact if_neg hzero

/-! ### Nodes in the order of evaluation -/

/-- A node of a tree: the tree below it, and the place of its first token. -/
structure Occurrence where
  node : Arith
  first : Nat

namespace Occurrence

variable (o : Occurrence)

/-- The place of the last token. -/
def last : Nat := o.first + o.node.words.length - 1

/-- 64 bits hold the number of the node. -/
def Fits : Prop := FitsInt64 o.node.value

instance : DecidablePred Fits := fun o => inferInstanceAs (Decidable (FitsInt64 o.node.value))

/-- The words of the node stand among these, in the place of the node if the first of these is in
the `i`-th. -/
def StandsIn (words : List (TokenKind × String)) (i : Nat) : Prop :=
  ∃ before after, words = before ++ (o.node.words ++ after) ∧ o.first = i + before.length

/-- The error at the node. -/
def error (place : Nat → Position) : EvalError :=
  .atSpan ⟨place o.first, place o.last⟩ o.node.fault

namespace StandsIn

variable {o} {words : List (TokenKind × String)} {i : Nat}

/-- A tree stands in its own words. -/
theorem root (e : Arith) (i : Nat) : StandsIn ⟨e, i⟩ e.words i := ⟨[], [], by simp, rfl⟩

/-- Other words stand behind. -/
theorem append (h : o.StandsIn words i) (others : List (TokenKind × String)) :
    o.StandsIn (words ++ others) i := by
  obtain ⟨before, after, rfl, hfirst⟩ := h
  exact ⟨before, after ++ others, by simp, hfirst⟩

/-- Other words stand before. -/
theorem behind (others : List (TokenKind × String)) (h : o.StandsIn words (i + others.length)) :
    o.StandsIn (others ++ words) i := by
  obtain ⟨before, after, rfl, hfirst⟩ := h
  refine ⟨others ++ before, after, by simp, ?_⟩
  rw [hfirst, List.length_append, Nat.add_assoc]

end StandsIn

end Occurrence

/-- The nodes of a tree whose first token is in the `i`-th place: first those of the operands, from
left to right, and then the tree itself. -/
def occurrences : Arith → Nat → List Occurrence
  | literal n, i => [⟨literal n, i⟩]
  | signed sign operand, i =>
    operand.occurrences (operand.inner .unary (i + 1)) ++ [⟨signed sign operand, i⟩]
  | binary left op right, i =>
    let middle := i + (left.operandWords op.precedence).length
    left.occurrences (left.inner op.precedence i) ++
      right.occurrences (right.inner op.rightPrecedence (middle + 1)) ++ [⟨binary left op right, i⟩]

/-- The first node that does not fit. -/
def firstFault? (e : Arith) (i : Nat) : Option Occurrence :=
  (e.occurrences i).find? fun o => ¬ o.Fits

/-- A tree is one of its own nodes. -/
theorem mem_occurrences (e : Arith) (i : Nat) : ⟨e, i⟩ ∈ e.occurrences i := by
  cases e <;> simp [occurrences]

/-- Where no node is at fault, the number fits. -/
theorem fits_of_firstFault? {e : Arith} {i : Nat} (h : e.firstFault? i = none) :
    FitsInt64 e.value := by
  have hnode := List.find?_eq_none.mp h _ (e.mem_occurrences i)
  by_contra hnot
  exact hnode (decide_eq_true hnot)

/-- Every tree is written with a word at least. -/
theorem words_ne_nil (e : Arith) : e.words ≠ [] := by
  cases e <;> simp [words]

/-- What stands in the words of a tree stands in those of the operand that the tree is. -/
theorem Occurrence.StandsIn.operand {e : Arith} {p : Precedence} {i : Nat} {o : Occurrence}
    (h : o.StandsIn e.words (e.inner p i)) : o.StandsIn (e.operandWords p) i := by
  unfold operandWords enclose
  unfold inner at h
  split
  · rename_i henclosed
    rw [if_pos henclosed] at h
    have hclosed := h.append [(.rparen, ")")]
    exact hclosed.behind [(.lparen, "(")]
  · rename_i henclosed
    rwa [if_neg henclosed] at h

/-- The words of a node stand in the words of the tree. -/
theorem standsIn_of_mem_occurrences {e : Arith} {i : Nat} {o : Occurrence}
    (h : o ∈ e.occurrences i) : o.StandsIn e.words i := by
  have hroot {e : Arith} {i : Nat} (h : o ∈ [(⟨e, i⟩ : Occurrence)]) : o.StandsIn e.words i := by
    obtain rfl := List.mem_singleton.mp h
    exact .root e i
  induction e generalizing i with
  | literal n => exact hroot h
  | signed sign operand ih =>
      rcases List.mem_append.mp h with h | h
      · have hoperand := (ih h).operand
        exact hoperand.behind [(sign.kind, sign.op.symbol)]
      · exact hroot h
  | binary left op right ihLeft ihRight =>
      rcases List.mem_append.mp h with h | h
      · rcases List.mem_append.mp h with h | h
        · have hleft := (ihLeft h).operand
          exact hleft.append _
        · have hright := (ihRight h).operand
          have hoperator := hright.behind [(op.kind, op.op.symbol)]
          exact hoperator.behind (left.operandWords op.precedence)
      · exact hroot h

/-- The places of a node are among those of the tree. -/
theorem places_of_mem_occurrences {e : Arith} {i : Nat} {o : Occurrence}
    (h : o ∈ e.occurrences i) : o.first ≤ o.last ∧ o.last < i + e.words.length := by
  obtain ⟨before, after, hwords, hfirst⟩ := standsIn_of_mem_occurrences h
  have hnode : 0 < o.node.words.length := List.length_pos_iff.mpr o.node.words_ne_nil
  rw [hwords, Occurrence.last, List.length_append, List.length_append]
  omega

/-! ### Evaluation -/

section Reports

variable {α β : Type} (place : Nat → Position) {s : Machine}

/-- The error of a node, if there is one, and else a value. -/
def report (fault : Option Occurrence) (a : α) : Except EvalError α :=
  match fault with
  | some o => .error (o.error place)
  | none => .ok a

variable {place}

/-- Of two computations, the second of which runs if the first has no fault, the first fault is
reported. -/
theorem report_bind {m : Eval α} {f : α → Eval β} {x y : Option Occurrence} {a : α} {b : β}
    (hm : m s = some (report place x a, s))
    (hf : x = none → f a s = some (report place y b, s)) :
    (m >>= f) s = some (report place (x.or y) b, s) := by
  rw [Bounded.bind_apply, hm]
  cases x with
  | none => exact hf rfl
  | some o => rfl

/-- What follows does not fail. -/
theorem report_bind_ok {m : Eval α} {f : α → Eval β} {x : Option Occurrence} {a : α} {b : β}
    (hm : m s = some (report place x a, s)) (hf : f a s = some (.ok b, s)) :
    (m >>= f) s = some (report place x b, s) := by
  have hbind := report_bind (y := none) hm fun _ => hf
  rwa [Option.or_none] at hbind

/-- The error of a node is placed already. -/
theorem report_locate {m : Eval α} {x : Option Occurrence} {a : α}
    (hm : m s = some (report place x a, s)) (span : Span) :
    Eval.locate span m s = some (report place x a, s) := by
  cases x with
  | none => exact Bounded.mapError_eq_ok_iff.mpr hm
  | some o => exact Bounded.mapError_eq_error_iff.mpr ⟨_, hm, EvalError.locate_of_span rfl⟩

/-- The outermost part of a tree, placed at the tree. -/
theorem report_outcome (e : Arith) (i : Nat) :
    Eval.locate ⟨place i, place (Occurrence.last ⟨e, i⟩)⟩ (Eval.ofCause e.outcome) s =
      some (report place ([⟨e, i⟩].find? fun o => ¬ o.Fits) (.int (Int64.ofInt e.value)), s) := by
  by_cases hfits : FitsInt64 e.value
  · have hnone : [⟨e, i⟩].find? (fun o : Occurrence => ¬ o.Fits) = none := by
      simp [Occurrence.Fits, hfits]
    rw [outcome, if_pos hfits, hnone]
    rfl
  · have hsome : [⟨e, i⟩].find? (fun o : Occurrence => ¬ o.Fits) = some ⟨e, i⟩ := by
      simp [Occurrence.Fits, hfits]
    rw [outcome, if_neg hfits, hsome]
    rfl

end Reports

/-! ### Evaluating the parse tree -/

section Evaluation

variable (place : Nat → Position) (n : Nat)

/-- The parentheses around an operand leave nothing in the abstract syntax. -/
theorem toAst_operandTree (p : Precedence) (e : Arith) (i : Nat) :
    (e.operandTree place p i).toAst n = (e.tree place (e.inner p i)).toAst n := by
  unfold operandTree encloseTree inner
  split
  · rfl
  · rfl

/-- The expression of a tree stands where the tree does. -/
theorem span_tree (e : Arith) (i : Nat) :
    (e.tree place i).firstToken.spanTo (e.tree place i).lastToken =
      ⟨place i, place (Occurrence.last ⟨e, i⟩)⟩ := by
  have hfirst := (e.tree place i).head?_yield
  have hlast := (e.tree place i).getLast?_yield
  rw [yield_tree, Token.head?_placed] at hfirst
  rw [yield_tree, Token.getLast?_placed] at hlast
  obtain ⟨w, -, hw⟩ := Option.map_eq_some_iff.mp hfirst
  obtain ⟨w', -, hw'⟩ := Option.map_eq_some_iff.mp hlast
  rw [← hw, ← hw']
  rfl

/-- The outermost part of a tree, placed at the expression of the tree. -/
theorem report_outcome_tree (s : Machine) (e : Arith) (i : Nat) :
    Eval.locate ((e.tree place i).firstToken.spanTo (e.tree place i).lastToken)
        (Eval.ofCause e.outcome) s =
      some (report place ([⟨e, i⟩].find? fun o => ¬ o.Fits) (.int (Int64.ofInt e.value)), s) := by
  rw [span_tree]
  exact report_outcome e i

/-- Evaluating a tree changes nothing and gives its number, or fails at the first node that does not
fit. -/
theorem eval_tree (rules : Rules) (scope : ScopeId) (s : Machine) (e : Arith) (i : Nat) :
    ((e.tree place i).toAst n).eval rules scope s =
      some (report place (e.firstFault? i) (.int (Int64.ofInt e.value)), s) := by
  induction e generalizing i with
  | literal numeral =>
      rw [tree, ParseTree.Expr.toAst, Ast.Expr.eval, Ast.Node.eval, ofLiteral_eq]
      exact report_outcome_tree place s (literal numeral) i
  | signed sign operand ih =>
      have hoperand := ih (operand.inner .unary (i + 1))
      rw [← toAst_operandTree] at hoperand
      have hfault : (signed sign operand).firstFault? i =
          (operand.firstFault? (operand.inner .unary (i + 1))).or
            ([⟨signed sign operand, i⟩].find? fun o => ¬ o.Fits) := List.find?_append
      rw [tree, ParseTree.Expr.toAst, Ast.Expr.eval, Ast.Node.eval, Eval.locate_bind, hfault]
      apply report_bind (report_locate hoperand _)
      intro hnone
      rw [applyUnary_eq sign (fits_of_firstFault? hnone)]
      exact report_outcome_tree place s (signed sign operand) i
  | binary left op right ihLeft ihRight =>
      -- the right operand begins behind the left one and the operator
      let middle := i + (left.operandWords op.precedence).length
      have hleft := ihLeft (left.inner op.precedence i)
      have hright := ihRight (right.inner op.rightPrecedence (middle + 1))
      rw [← toAst_operandTree] at hleft hright
      have hfault : (binary left op right).firstFault? i =
          (left.firstFault? (left.inner op.precedence i)).or
            ((right.firstFault? (right.inner op.rightPrecedence (middle + 1))).or
              ([⟨binary left op right, i⟩].find? fun o => ¬ o.Fits)) := by
        rw [firstFault?, occurrences, List.find?_append, List.find?_append, Option.or_assoc]
        rfl
      rw [tree, ParseTree.Expr.toAst, Ast.Expr.eval, Ast.Node.eval, Eval.locate_bind, hfault]
      apply report_bind (report_locate hleft _)
      intro hleftNone
      rw [Eval.locate_bind]
      apply report_bind (report_locate hright _)
      intro hrightNone
      rw [applyBinary_eq op (fits_of_firstFault? hleftNone) (fits_of_firstFault? hrightNone)]
      exact report_outcome_tree place s (binary left op right) i

end Evaluation

/-! ### The program -/

/-- The words of the program that returns a tree. -/
def returnWords (e : Arith) : List (TokenKind × String) :=
  (.returnKw, "return") :: (e.words ++ [(.semicolon, ";"), (.eof, "")])

/-- The program that returns a tree. -/
def returning (place : Nat → Position) (e : Arith) : ParseTree.Program :=
  ⟨[.ret ⟨.returnKw, "return", place 0⟩ (some (e.tree place 1))
    ⟨.semicolon, ";", place (1 + e.words.length)⟩],
    some ⟨.eof, "", place (1 + e.words.length + 1)⟩⟩

/-- The statement that returns an expression has the tokens of its words. -/
theorem yield_returning (place : Nat → Position) (e : Arith) :
    (e.returning place).yield = Token.placed place 0 e.returnWords := by
  simp [returning, returnWords, ParseTree.Program.yield, ParseTree.Stmt.listYield,
    ParseTree.Stmt.yield, yield_tree]

/-- It belongs to the grammar. -/
theorem wellFormed_returning (place : Nat → Position) (e : Arith) :
    (e.returning place).WellFormed .standard := by
  refine ⟨List.forall_mem_singleton.mpr (.ret rfl ?_ rfl), ?_⟩
  · rintro _ ⟨⟩
    exact e.wellFormed_tree place 1
  · rintro _ ⟨⟩
    rfl

/-- Running the program changes nothing. It returns the number of the tree, or fails at the first
node that does not fit. -/
theorem run_returning (strict : Bool) (bound : Nat) (scope : ScopeId) (place : Nat → Position)
    (n : Nat) (e : Arith) (s : Machine) :
    Machine.run strict bound scope ((e.returning place).toAst n).stmts s =
      some (report place (e.firstFault? 1) (.returned (.int (Int64.ofInt e.value))), s) := by
  have heval := eval_tree place n ⟨strict, Closure.call strict bound⟩ scope s e 1
  have hreturn : (((ParseTree.Stmt.ret ⟨.returnKw, "return", place 0⟩ (some (e.tree place 1))
      ⟨.semicolon, ";", place (1 + e.words.length)⟩)).toAst n).exec
        ⟨strict, Closure.call strict bound⟩ scope s =
      some (report place (e.firstFault? 1) (.returned (.int (Int64.ofInt e.value))), s) :=
    report_bind_ok heval rfl
  exact report_bind_ok hreturn rfl

/-- The text that returns a tree is split into the words of the program. -/
theorem exists_scan (e : Arith) (file : String) :
    ∃ tokens, Token.scan ("return " ++ e.text ++ ";") file = .ok tokens ∧
      Token.words tokens = e.returnWords := by
  have hspells := e.spelled_text.returning
  obtain ⟨tokens, hscan, htokens⟩ := Token.scan_of_spells hspells file
  refine ⟨tokens, hscan, ?_⟩
  rw [Token.words_of_eqUpToPlaces htokens, List.map_append, List.map_cons, List.map_append,
    map_samples, returnWords, List.cons_append, List.append_assoc]
  rfl

end Arith

namespace Session

open Arith

/-- Running a text with the words of the program that returns a tree. -/
theorem run_of_words {s : Session} {e : Arith} {text : String} {tokens : List Token}
    (hscan : Token.scan text s.config.file = .ok tokens)
    (hwords : Token.words tokens = e.returnWords) (bound : Nat) :
    s.run bound text =
      some ((report (fun k => ((Token.dropComments tokens).getD k default).position)
          (e.firstFault? 1) (some (.int (Int64.ofInt e.value)))).mapError .eval,
        { s with sources := s.sources + 1 }) := by
  let place : Nat → Position := fun k => ((Token.dropComments tokens).getD k default).position
  have hyield : (e.returning place).yield = Token.dropComments tokens := by
    rw [e.yield_returning, ← hwords]
    exact Token.placed_words _
  have htree : ParseTree.Program.ofTokens (Token.dropComments tokens) .standard =
      .ok (e.returning place) := by
    rw [← hyield]
    exact ParseTree.Program.ofTokens_yield (e.wellFormed_returning place)
  have hread : Ast.Program.ofSource (s.sources + 1) s.config.file text =
      .ok ((e.returning place).toAst (s.sources + 1)) := by
    simp only [Ast.Program.ofSource, hscan, htree]
  rw [run, runIn_of_read hread, e.run_returning, Option.map_some]
  change some (ended s (report place _ _, s.machine)) = some ((report place _ _).mapError _, _)
  cases e.firstFault? 1 with
  | none => rfl
  | some o => rfl

/-- **Arithmetic is exact or reports an overflow.** The text that returns a tree, in whatever layout it
is written, returns the number of the tree if all nodes fit. Otherwise it fails at the first node
that does not, in the order of evaluation, and the error is placed at the tokens of that node. The
machine stays as it was. -/
theorem run_return_arith (s : Session) (e : Arith) (bound : Nat) :
    (∃ tokens, Token.scan ("return " ++ e.text ++ ";") s.config.file = .ok tokens ∧
      Token.words tokens = e.returnWords) ∧
    ∀ text tokens, Token.scan text s.config.file = .ok tokens →
      Token.words tokens = e.returnWords →
      ((∀ o ∈ e.occurrences 1, o.Fits) ∧ (Int64.ofInt e.value).toInt = e.value ∧
        s.run bound text =
          some (.ok (some (.int (Int64.ofInt e.value))), { s with sources := s.sources + 1 })) ∨
      ∃ before o after first last, e.occurrences 1 = before ++ o :: after ∧
        (∀ o' ∈ before, o'.Fits) ∧ ¬ o.Fits ∧
        (Token.dropComments tokens)[o.first]? = some first ∧
        (Token.dropComments tokens)[o.last]? = some last ∧
        s.run bound text = some (.error (.eval (.atSpan (first.spanTo last) o.node.fault)),
          { s with sources := s.sources + 1 }) := by
  refine ⟨e.exists_scan s.config.file, ?_⟩
  intro text tokens hscan hwords
  have hrun := run_of_words hscan hwords bound
  rcases hfault : e.firstFault? 1 with _ | o
  · -- every node fits
    refine .inl ⟨fun o ho => ?_, (fits_of_firstFault? hfault).toInt_ofInt, ?_⟩
    · have hnode := List.find?_eq_none.mp hfault o ho
      by_contra hnot
      exact hnode (decide_eq_true hnot)
    · rw [hrun, hfault]
      rfl
  · -- evaluation stops at the first node that does not fit
    obtain ⟨hnot, before, after, hsplit, hbefore⟩ := List.find?_eq_some_iff_append.mp hfault
    have hmem : o ∈ e.occurrences 1 := by
      rw [hsplit]
      simp
    have hlength : (Token.dropComments tokens).length = e.words.length + 3 := by
      have hmap := congrArg List.length hwords
      simpa [Token.words, returnWords] using hmap
    obtain ⟨hle, hlt⟩ := places_of_mem_occurrences hmem
    have hfirst := List.getElem?_eq_getElem (l := Token.dropComments tokens) (i := o.first) (by omega)
    have hlast := List.getElem?_eq_getElem (l := Token.dropComments tokens) (i := o.last) (by omega)
    refine .inr ⟨before, o, after, _, _, hsplit, fun o' ho' => ?_, of_decide_eq_true hnot, hfirst,
      hlast, ?_⟩
    · have hfits := hbefore o' ho'
      simpa using hfits
    · rw [hrun, hfault]
      simp only [report, Occurrence.error, List.getD_eq_getElem?_getD, hfirst, hlast]
      rfl

/-- A difference that has to be read from the left, and a sum that is one too great. -/
theorem run_return_arith_difference :
    let s := Session.new ⟨"", some 8, false⟩ (.buffer "")
    let literal := fun n : Nat => Arith.literal ⟨n.repr, Spelled.matches_repr n⟩
    let e := Arith.binary (literal 1) .sub
      (.binary (.binary (literal 2) .sub (literal 3)) .mul (.signed .minus (literal 4)))
    let great := Arith.binary (literal 9223372036854775807) .add (literal 1)
    e.text = "1-(2-3)*-4" ∧ e.value = -3 ∧
      s.run 9 ("return " ++ e.text ++ ";") =
        some (.ok (some (.int (-3))), { s with sources := 1 }) ∧
      great.text = "9223372036854775807+1" ∧
      ∃ span, s.run 9 ("return " ++ great.text ++ ";") =
        some (.error (.eval (.atSpan span (.integerOverflow "+"))), { s with sources := 1 }) := by
  intro s literal e great
  have hfits : ∀ o ∈ e.occurrences 1, o.Fits := by decide +kernel
  have hoverflows : ∃ o ∈ great.occurrences 1, ¬ o.Fits := by decide +kernel
  have hfault : ∀ o ∈ great.occurrences 1, ¬ o.Fits → o.node.fault = .integerOverflow "+" := by
    decide +kernel
  refine ⟨by decide +kernel, by decide +kernel, ?_, by decide +kernel, ?_⟩
  · obtain ⟨⟨tokens, hscan, hwords⟩, hrun⟩ := run_return_arith s e 9
    rcases hrun _ tokens hscan hwords with ⟨-, -, hvalue⟩ | ⟨before, o, after, -, -, hsplit, -, hnot, -⟩
    · rw [hvalue]
      rfl
    · exact absurd (hfits o (by simp [hsplit])) hnot
  · obtain ⟨⟨tokens, hscan, hwords⟩, hrun⟩ := run_return_arith s great 9
    rcases hrun _ tokens hscan hwords with
      ⟨hall, -⟩ | ⟨before, o, after, first, last, hsplit, -, hnot, -, -, herror⟩
    · obtain ⟨o, ho, hnot⟩ := hoverflows
      exact absurd (hall o ho) hnot
    · refine ⟨first.spanTo last, ?_⟩
      rw [herror, hfault o (by simp [hsplit]) hnot]
      rfl

end Session

end StructScript
