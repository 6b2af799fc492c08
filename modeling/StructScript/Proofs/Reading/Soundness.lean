import StructScript.Proofs.Reading.Declaration
import StructScript.Reading.Program

/-!
# Soundness of the readers

Whatever a reader gives is a tree of the grammar, and the tokens taken are its yield. This holds for
every operator table and every bound.

What precedence climbing keeps is stated for the whole loop: the operators of the expression read so
far bind tighter than `min`, and the token behind it does not belong to its last operand
(`Extensible`).

Main results: `takes_expr`, `takes_stmt`, `took_of_program`.
-/

namespace StructScript.Parse

open ParseTree

/-! ### What an expression begins with -/

/-- What is asked of the reader of expressions: whatever it gives is an expression of the grammar
whose operators bind tighter than `min`, and what follows does not bind tighter. -/
structure ExprSound (table : OperatorTable) (expr : Precedence → Parse Expr) : Prop where
  takes : ∀ min, Sound (expr min) Expr.yield fun e =>
    e.WellFormed table ∧ ∀ q ∈ e.infixPrecedence? table, min < q
  ends : ∀ {min c e d}, expr min c = some (.ok e, d) →
    ∀ token ∈ d.remaining.head?, table.trailingPrecedence token.kind ≤ min

/-- The expression `e` is one of the grammar without an operator between operands at its root, and
its tokens are `token` and then `ts`. -/
structure Alone (table : OperatorTable) (token : Token) (ts : List Token) (e : Expr) : Prop where
  yield : token :: ts = e.yield
  wellFormed : e.WellFormed table
  noInfix : e.infixPrecedence? table = none

section Expressions

variable {table : OperatorTable} {expr : Precedence → Parse Expr} {stmt : Parse Stmt}

/-- What is taken for an expression is the yield of a well-formed one. -/
theorem ExprSound.value (hexpr : ExprSound table expr) (min : Precedence) :
    Sound (expr min) Expr.yield (Expr.WellFormed table) :=
  (hexpr.takes min).mono fun _ _ h => ⟨h.1, h.2.1⟩

/-- What is taken for an initialiser is the yield of a well-formed one. -/
theorem takes_fieldInit (hexpr : ExprSound table expr) :
    Sound (fieldInit expr) FieldInit.yield (FieldInit.WellFormed table) := by
  refine Takes.expect fun name hname => Takes.expect fun colon hcolon => ?_
  refine (hexpr.value .bottom).bind ?_
  rintro _ value ⟨rfl, hvalue⟩
  exact Takes.pure ⟨by rw [FieldInit.yield, List.append_nil], .mk hname hcolon hvalue⟩

/-- Behind its name, what is taken for a struct literal makes one with the name. -/
theorem takes_structLiteral (hexpr : ExprSound table expr) (n : Nat) {name : Token}
    (hrule : table.leading .ident = some .ident) (hname : name.kind = .ident) :
    Takes (structLiteral n expr name) (Alone table name) := by
  have hargs := takes_typeArgs (takes_typeRef n) n (.inl hname)
  refine Takes.within ((Takes.within hargs).bind ?_)
  rintro ts type ⟨hts, rfl, htype⟩
  refine Takes.expect fun lbrace hlbrace => ?_
  refine (Takes.within (takes_openList (takes_fieldInit hexpr) n)).bind ?_
  rintro _ inits ⟨rfl, hinits, hvalues⟩
  refine Takes.expect fun rbrace hrbrace => Takes.pure ⟨?_, ?_, rfl⟩
  · rw [Expr.yield, ← hts, Expr.initsYield_eq, List.cons_append]
  · exact .struct hrule hname htype hlbrace hinits hvalues hrbrace

/-- Behind a name, what is taken makes a struct literal or a place with the name. -/
theorem takes_named (hexpr : ExprSound table expr) (n : Nat) {name : Token}
    (hrule : table.leading name.kind = some .ident) :
    Takes (named n expr name) (Alone table name) := by
  unfold named
  split
  · rename_i hname
    rw [hname] at hrule
    refine Takes.checkAny fun b => ?_
    split
    · exact takes_structLiteral hexpr n hrule hname
    · exact Takes.map ((takes_placeFrom n hname).mono fun _ _ h => ⟨h.1, .place hrule h.2, rfl⟩)
  · exact Takes.fail _

/-- Behind a parenthesis, what is taken makes a group with it. -/
theorem takes_group (hexpr : ExprSound table expr) {lparen : Token}
    (hrule : table.leading lparen.kind = some .group) :
    Takes (group expr lparen) (Alone table lparen) := by
  refine Takes.within ((hexpr.value .bottom).bind ?_)
  rintro _ inner ⟨rfl, hinner⟩
  refine Takes.expect fun rparen hrparen => Takes.pure ⟨?_, .group hrule hinner hrparen, rfl⟩
  rw [Expr.yield]

/-- Behind a prefix operator, what is taken makes an expression with it: its operand has no weaker
operator outermost. -/
theorem takes_operand (hexpr : ExprSound table expr) {p : Precedence} {op : UnaryOp}
    {opToken : Token} (hrule : table.leading opToken.kind = some (.operator p))
    (hop : UnaryOp.ofToken? opToken.kind = some op) :
    Takes (operand expr p op opToken) (Alone table opToken) := by
  refine Takes.within ((hexpr.takes p).bind ?_)
  rintro _ inner ⟨rfl, hinner, hbinds⟩
  refine Takes.pure ⟨?_, .unary hrule hop hinner hbinds, rfl⟩
  rw [Expr.yield, List.append_nil]

/-- What is taken for a parameter is the yield of a well-formed one. -/
theorem takes_param (n : Nat) : Sound (param n) Param.yield Param.WellFormed := by
  refine Takes.expect fun name hname => (takes_typeRef n).bind ?_
  rintro _ type ⟨rfl, htype⟩
  exact Takes.pure ⟨by rw [List.append_nil, Param.yield], hname, htype⟩

/-- What is taken for a function body is the yield of well-formed statements. -/
theorem takes_block (hstmt : Sound stmt Stmt.yield (Stmt.WellFormed table)) : ∀ n,
    Sound (block stmt n) Stmt.listYield fun stmts => ∀ s ∈ stmts, s.WellFormed table
  | 0 => Takes.exhausted
  | n + 1 => by
      unfold block
      refine Takes.check (Takes.pure ⟨rfl, List.forall_mem_nil _⟩) (Takes.check ?_ (hstmt.bind ?_))
      · exact Takes.peek fun _ => Takes.fail _
      · rintro _ first ⟨rfl, hfirst⟩
        refine (takes_block hstmt n).bind ?_
        rintro _ rest ⟨rfl, hrest⟩
        refine Takes.pure ⟨?_, List.forall_mem_cons.mpr ⟨hfirst, hrest⟩⟩
        rw [Stmt.listYield, List.append_nil]

/-- Behind its keyword, what is taken for a function literal makes one with it. -/
theorem takes_func (hstmt : Sound stmt Stmt.yield (Stmt.WellFormed table)) (n : Nat)
    {funcKw : Token} (hrule : table.leading funcKw.kind = some .func) :
    Takes (func n stmt funcKw) (Alone table funcKw) := by
  refine Takes.within (Takes.expect fun lparen hlparen => ?_)
  refine (Takes.within (takes_closedList (takes_param n) n)).bind ?_
  rintro _ params ⟨rfl, hparams, hvalues⟩
  refine Takes.expect fun rparen hrparen => ?_
  refine Takes.check (takes_none.bind ?body) ((takes_some (takes_typeRef n)).bind ?body)
  rintro _ result ⟨rfl, hresult⟩
  refine Takes.expect fun lbrace hlbrace => (Takes.within (takes_block hstmt n)).bind ?_
  rintro _ body ⟨rfl, hbody⟩
  refine Takes.expect fun rbrace hrbrace => Takes.pure ⟨?_, ?_, rfl⟩
  · rw [Expr.yield]
  · exact .func hrule hlparen hparams hvalues hrparen hresult hlbrace hbody hrbrace

/-- What an expression begins with is never an operator between operands. -/
theorem takes_leading (hexpr : ExprSound table expr)
    (hstmt : Sound stmt Stmt.yield (Stmt.WellFormed table)) (n : Nat) {rule : LeadingRule}
    {token : Token} (hrule : table.leading token.kind = some rule) :
    Takes (leading n expr stmt rule token) (Alone table token) := by
  cases rule with
  | literal =>
      unfold leading
      dsimp only
      split
      · rename_i kind hkind
        exact Takes.pure ⟨by rw [Expr.yield], .literal hrule hkind, rfl⟩
      · exact Takes.fail _
  | ident => exact takes_named hexpr n hrule
  | group => exact takes_group hexpr hrule
  | operator p =>
      unfold leading
      dsimp only
      split
      · rename_i op hop
        exact takes_operand hexpr hrule hop
      · exact Takes.fail _
  | func => exact takes_func hstmt n hrule

/-! ### Precedence climbing -/

/-- What precedence climbing keeps of the expression `left` that is read before the cursor `c`: its
operators bind tighter than `min`, and the next token does not belong to its last operand. -/
structure Extensible (table : OperatorTable) (min : Precedence) (left : Expr) (c : Cursor) :
    Prop where
  wellFormed : left.WellFormed table
  binds : ∀ q ∈ left.infixPrecedence? table, min < q
  ends : ∀ token ∈ c.remaining.head?, ∀ q ∈ left.rightPrecedence? table,
    table.trailingPrecedence token.kind ≤ q

/-- An expression that is no operator between operands has no last operand. -/
theorem Extensible.of_noInfix {min : Precedence} {e : Expr} {c : Cursor}
    (he : e.WellFormed table) (hnone : e.infixPrecedence? table = none) :
    Extensible table min e c where
  wellFormed := he
  binds := fun q hq => by rw [hnone] at hq; cases hq
  ends := fun token _ q hq => by
    cases e <;> first | cases hq | cases hnone

/-- Behind a callee and a parenthesis, what is taken makes a call with them. -/
theorem takes_call (hexpr : ExprSound table expr) (n : Nat) {callee : Expr} {lparen : Token}
    (hcallee : callee.WellFormed table) (hrule : table.trailing lparen.kind = some .call) :
    Takes (call n expr callee lparen) fun ts e =>
      callee.yield ++ lparen :: ts = e.yield ∧ e.WellFormed table ∧
        e.infixPrecedence? table = none := by
  refine Takes.within ?_
  cases callee with
  | place p =>
      obtain ⟨hleading, hp⟩ : table.leading .ident = some .ident ∧ p.WellFormed := by
        cases hcallee with
        | place hleading hp => exact ⟨hleading, hp⟩
      refine (takes_closedList (hexpr.value .bottom) n).bind ?_
      rintro _ args ⟨rfl, hargs, hvalues⟩
      refine Takes.expect fun rparen hrparen => Takes.pure ⟨?_, ?_, rfl⟩
      · rw [Expr.yield, Expr.yield, Expr.argsYield_eq]
      · exact .call hleading hp hrule hargs hvalues hrparen
  | _ => exact Takes.fail _

/-- One round of precedence climbing. -/
theorem extensible_of_trailing (hexpr : ExprSound table expr) {n : Nat} {min : Precedence}
    {rule : TrailingRule} {left longer : Expr} {token : Token} {c c' d : Cursor}
    (hleft : Extensible table min left c) (hhead : c.remaining.head? = some token)
    (hrule : table.trailing token.kind = some rule) (hmin : min < rule.precedence)
    (h : trailing n expr rule left token c' = some (.ok longer, d)) :
    ∃ ts, Cursor.Took ts c' d ∧ left.yield ++ token :: ts = longer.yield ∧
      Extensible table min longer d := by
  have hprecedence : table.trailingPrecedence token.kind = rule.precedence := by
    rw [OperatorTable.trailingPrecedence, hrule]
  cases rule with
  | binary p groupsRight =>
      rcases hop : BinaryOp.ofToken? token.kind with _ | op
      · simp only [trailing, hop] at h
        cases h
      · simp only [trailing, hop] at h
        obtain ⟨right, d', hright, hlonger⟩ :=
          Bounded.bind_eq_ok_iff.mp (Bounded.mapError_eq_ok_iff.mp h)
        cases hlonger
        obtain ⟨_, htook, rfl, hwellFormed, hbinds⟩ := hexpr.takes _ hright
        refine ⟨right.yield, htook, by rw [Expr.yield], ?_, ?_, ?_⟩
        · refine .binary hrule hop hleft.wellFormed hwellFormed (fun q hq => ?_) hbinds
          have hends := hleft.ends token hhead q hq
          rwa [hprecedence] at hends
        · rintro q ⟨⟩
          rwa [hprecedence]
        · intro next hnext q hq
          simp only [Expr.rightPrecedence?, OperatorTable.rightPrecedence?, hrule, Option.mem_def,
            Option.some.injEq] at hq
          exact hq ▸ hexpr.ends hright next hnext
  | call =>
      obtain ⟨ts, htook, hyield, hwellFormed, hnone⟩ := takes_call hexpr n hleft.wellFormed hrule h
      exact ⟨ts, htook, hyield, .of_noInfix hwellFormed hnone⟩

/-- All rounds of precedence climbing. -/
theorem takes_extend (hexpr : ExprSound table expr) {min : Precedence} : ∀ {n : Nat} {left e : Expr}
    {c d : Cursor}, Extensible table min left c →
      extend table expr min n left c = some (.ok e, d) →
      (∃ ts, Cursor.Took ts c d ∧ left.yield ++ ts = e.yield) ∧ Extensible table min e d ∧
        ∀ token ∈ d.remaining.head?, table.trailingPrecedence token.kind ≤ min
  | 0, _, _, _, _, _, h => nomatch h
  | n + 1, left, e, c, d, hleft, h => by
      obtain ⟨next, c₁, hpeek, hnext⟩ := Bounded.bind_eq_ok_iff.mp h
      obtain ⟨rfl, hhead⟩ := peek_eq_ok_iff.mp hpeek
      -- where the rounds end nothing more is taken, and the next token binds too weakly
      have stop : table.trailingPrecedence next.kind ≤ min →
          (pure left : Parse Expr) c₁ = some (.ok e, d) →
          (∃ ts, Cursor.Took ts c₁ d ∧ left.yield ++ ts = e.yield) ∧ Extensible table min e d ∧
            ∀ token ∈ d.remaining.head?, table.trailingPrecedence token.kind ≤ min := by
        intro hle hpure
        cases hpure
        refine ⟨⟨[], .nil _, List.append_nil _⟩, hleft, fun token htoken => ?_⟩
        rw [hhead] at htoken
        cases htoken
        exact hle
      rcases hrule : table.trailing next.kind with _ | rule
      · simp only [hrule] at hnext
        refine stop ?_ hnext
        rw [OperatorTable.trailingPrecedence, hrule]
        exact Nat.zero_le _
      · simp only [hrule] at hnext
        split at hnext
        · rename_i hle
          refine stop ?_ hnext
          rwa [OperatorTable.trailingPrecedence, hrule]
        · rename_i hlt
          -- one more round: its token, what the rule takes, and the rounds behind it
          obtain ⟨token, c₂, hadvance, hrest⟩ := Bounded.bind_eq_ok_iff.mp hnext
          obtain ⟨longer, c₃, hlonger, hrest⟩ := Bounded.bind_eq_ok_iff.mp hrest
          have htaken := took_of_advance hadvance
          obtain rfl : token = next := by
            rw [htaken.remaining] at hhead
            exact Option.some.inj hhead
          obtain ⟨ts, htook, hyield, hextensible⟩ := extensible_of_trailing hexpr hleft hhead hrule
            (Nat.lt_of_not_le hlt) hlonger
          obtain ⟨⟨us, htook', hyield'⟩, hends⟩ := takes_extend hexpr hextensible hrest
          refine ⟨⟨token :: (ts ++ us), htaken.append (htook.append htook'), ?_⟩, hends⟩
          rw [← hyield', ← hyield, List.append_assoc, List.cons_append]

/-! ### Statements -/

/-- What is taken for a type definition is the yield of a well-formed one. -/
theorem takes_typeDefinition (n : Nat) :
    Sound (typeDefinition n) Stmt.yield (Stmt.WellFormed table) := by
  refine Takes.within (Takes.expect fun typeKw htypeKw => (takes_typeRef n).bind ?_)
  rintro _ name ⟨rfl, hname⟩
  refine Takes.expect fun eq heq => (takes_structDef n).bind ?_
  rintro _ definition ⟨rfl, hdefinition⟩
  refine Takes.expect fun semicolon hsemicolon => Takes.pure ⟨?_, ?_⟩
  · rw [Stmt.yield]
  · exact .typeDef htypeKw hname heq hdefinition hsemicolon

/-- What is taken for a definition is the yield of a well-formed one. -/
theorem takes_definition (hexpr : ExprSound table expr) (n : Nat) :
    Sound (definition n expr) Stmt.yield (Stmt.WellFormed table) := by
  refine Takes.within (Takes.expect fun letKw hletKw => (takes_place n).bind ?_)
  rintro _ target ⟨rfl, htarget⟩
  refine Takes.expect fun eq heq => (hexpr.value .bottom).bind ?_
  rintro _ value ⟨rfl, hvalue⟩
  refine Takes.expect fun semicolon hsemicolon => Takes.pure ⟨?_, ?_⟩
  · rw [Stmt.yield]
  · exact .define hletKw htarget heq hvalue hsemicolon

/-- What is taken for an assignment is the yield of a well-formed one. -/
theorem takes_assignment (hexpr : ExprSound table expr) (n : Nat) :
    Sound (assignment n expr) Stmt.yield (Stmt.WellFormed table) := by
  refine Takes.within (Takes.expect fun setKw hsetKw => (takes_place n).bind ?_)
  rintro _ target ⟨rfl, htarget⟩
  refine Takes.expect fun eq heq => (hexpr.value .bottom).bind ?_
  rintro _ value ⟨rfl, hvalue⟩
  refine Takes.expect fun semicolon hsemicolon => Takes.pure ⟨?_, ?_⟩
  · rw [Stmt.yield]
  · exact .assign hsetKw htarget heq hvalue hsemicolon

/-- What is taken for a return is the yield of a well-formed one. -/
theorem takes_returnStatement (hexpr : ExprSound table expr) :
    Sound (returnStatement expr) Stmt.yield (Stmt.WellFormed table) := by
  refine Takes.within (Takes.expect fun returnKw hreturnKw => ?_)
  refine Takes.check (takes_none.bind ?body) ((takes_some (hexpr.value .bottom)).bind ?body)
  rintro _ value ⟨rfl, hvalue⟩
  refine Takes.expect fun semicolon hsemicolon => Takes.pure ⟨?_, .ret hreturnKw hvalue hsemicolon⟩
  cases value <;> rw [Stmt.yield] <;> rfl

/-- What is taken for an expression statement is the yield of a well-formed one. -/
theorem takes_exprStatement (hexpr : ExprSound table expr) :
    Sound (exprStatement expr) Stmt.yield (Stmt.WellFormed table) := by
  refine Takes.within ((hexpr.value .bottom).bind ?_)
  rintro _ inner ⟨rfl, hinner⟩
  refine Takes.expect fun semicolon hsemicolon => Takes.pure ⟨?_, .expr hinner hsemicolon⟩
  rw [Stmt.yield]

/-- What is taken for a statement of any sort is the yield of a well-formed one. -/
theorem takes_statement (hexpr : ExprSound table expr) (n : Nat) :
    Sound (statement n expr) Stmt.yield (Stmt.WellFormed table) := by
  refine Takes.within (Takes.peek fun first => ?_)
  split
  · exact takes_typeDefinition n
  · exact takes_definition hexpr n
  · exact takes_assignment hexpr n
  · exact takes_returnStatement hexpr
  · exact takes_exprStatement hexpr

end Expressions

/-! ### Whole readers -/

/-- Without a bound left no expression is given. -/
theorem exprSound_zero (table : OperatorTable) : ExprSound table (expr table 0) where
  takes := fun _ => Takes.exhausted
  ends := fun h => nomatch h

/-- One step of the bound: a token that begins an expression, what it begins, and the loop behind
it. -/
theorem exprSound_succ {table : OperatorTable} {n : Nat} (hexpr : ExprSound table (expr table n))
    (hstmt : Sound (stmt table n) Stmt.yield (Stmt.WellFormed table)) :
    ExprSound table (expr table (n + 1)) := by
  have sound : ∀ {min c e d}, expr table (n + 1) min c = some (.ok e, d) →
      Cursor.Took e.yield c d ∧ Extensible table min e d ∧
        ∀ token ∈ d.remaining.head?, table.trailingPrecedence token.kind ≤ min := by
    intro min c e d h
    obtain ⟨token, c₁, hadvance, hleading⟩ := Bounded.bind_eq_ok_iff.mp h
    rcases hrule : table.leading token.kind with _ | rule
    · simp only [hrule] at hleading
      cases hleading
    · simp only [hrule] at hleading
      obtain ⟨left, c₂, hleft, hextend⟩ := Bounded.bind_eq_ok_iff.mp hleading
      obtain ⟨ts, htook, halone⟩ := takes_leading hexpr hstmt n hrule hleft
      obtain ⟨⟨us, htook', hyield'⟩, hrest⟩ :=
        takes_extend hexpr (.of_noInfix halone.wellFormed halone.noInfix) hextend
      refine ⟨?_, hrest⟩
      rw [← hyield', ← halone.yield]
      exact (took_of_advance hadvance).append htook |>.append htook'
  exact {
    takes := fun min c e d h =>
      have ⟨htook, hextensible, _⟩ := sound h
      ⟨e.yield, htook, rfl, hextensible.wellFormed, hextensible.binds⟩
    ends := fun h => (sound h).2.2 }

/-- The readers of expressions and statements are sound, whatever their bound. -/
theorem exprSound_and_takes_stmt (table : OperatorTable) : ∀ n,
    ExprSound table (expr table n) ∧ Sound (stmt table n) Stmt.yield (Stmt.WellFormed table)
  | 0 => ⟨exprSound_zero table, Takes.exhausted⟩
  | n + 1 =>
      have ⟨hexpr, hstmt⟩ := exprSound_and_takes_stmt table n
      ⟨exprSound_succ hexpr hstmt, takes_statement hexpr n⟩

/-- The reader of expressions under any bound: its operators bind tighter than the strength that it
is given. -/
theorem takes_expr (table : OperatorTable) (n : Nat) (min : Precedence) :
    Sound (expr table n min) Expr.yield fun e =>
      e.WellFormed table ∧ ∀ q ∈ e.infixPrecedence? table, min < q :=
  (exprSound_and_takes_stmt table n).1.takes min

/-- The reader of statements under any bound. -/
theorem takes_stmt (table : OperatorTable) (n : Nat) :
    Sound (stmt table n) Stmt.yield (Stmt.WellFormed table) :=
  (exprSound_and_takes_stmt table n).2

/-- A program is read up to its closing token, or up to the end of the buffer. -/
theorem took_of_program {table : OperatorTable} {stmt : Parse Stmt}
    (hstmt : Sound stmt Stmt.yield (Stmt.WellFormed table)) {n : Nat} {p : Program} {c d : Cursor}
    (h : program stmt n c = some (.ok p, d)) :
    Cursor.Took p.yield c d ∧ p.WellFormed table ∧ (p.eof = none → d.remaining = []) := by
  induction n generalizing p c with
  | zero => cases h
  | succ n ih =>
      obtain ⟨cursor, c₁, hstate, hread⟩ := Bounded.bind_eq_ok_iff.mp h
      cases hstate
      split at hread
      · obtain ⟨next, c₁, hpeek, hnext⟩ := Bounded.bind_eq_ok_iff.mp hread
        obtain ⟨rfl, hhead⟩ := peek_eq_ok_iff.mp hpeek
        generalize hkind : next.kind = kind at hnext
        split at hnext
        · -- the closing token
          obtain ⟨token, c₂, hadvance, hp⟩ := Bounded.bind_eq_ok_iff.mp hnext
          cases hp
          have htook := took_of_advance hadvance
          obtain rfl : token = next := by
            rw [htook.remaining] at hhead
            exact Option.some.inj hhead
          refine ⟨htook, ⟨List.forall_mem_nil _, fun t ht => ?_⟩, fun hnone => ?_⟩
          · cases ht
            exact hkind
          · cases hnone
        · cases hnext
        · -- a statement, and the program behind it
          obtain ⟨first, c₂, hfirst, hrest⟩ := Bounded.bind_eq_ok_iff.mp hnext
          obtain ⟨rest, c₃, hrest, hp⟩ := Bounded.bind_eq_ok_iff.mp hrest
          cases hp
          obtain ⟨_, htook, rfl, hwellFormed⟩ := hstmt hfirst
          obtain ⟨htook', hrestWellFormed, hend⟩ := ih hrest
          refine ⟨?_, ⟨List.forall_mem_cons.mpr ⟨hwellFormed, hrestWellFormed.stmts⟩,
            hrestWellFormed.eof⟩, hend⟩
          rw [Program.yield, Stmt.listYield, List.append_assoc]
          exact htook.append htook'
      · rename_i hmore
        cases hread
        refine ⟨.nil _, ⟨List.forall_mem_nil _, fun _ h => absurd h (Option.not_mem_none _)⟩,
          fun _ => ?_⟩
        simpa [Cursor.hasMore] using hmore

end StructScript.Parse
