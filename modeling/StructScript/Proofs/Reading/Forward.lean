import StructScript.Proofs.Grammar.Exactness

/-!
# Readers go forward

A reader takes tokens and gives none back. So however it ends, its cursor stands in the same buffer
as before, and at no earlier place (`Parse.Forward`). The rules of this judgement follow the ways in
which readers are put together, as those of `Takes` do, but they ask nothing of the trees that are
given, nor of the operator table.

Main result: `readers_take_yield`, with what the readers of programs, statements and expressions do to
the cursor. If they give a tree, it holds the tokens that they have gone over, each of them once.
-/

namespace StructScript

namespace Cursor

/-- How many tokens stand before the cursor. -/
def index (c : Cursor) : Nat := c.consumed.length

/-- The tokens of the buffer from one place to another. -/
def between (c d : Cursor) : List Token := (c.tokens.drop c.index).take (d.index - c.index)

namespace Took

variable {ts : List Token} {c d : Cursor}

/-- The buffer stays the same. -/
theorem tokens_eq (h : Took ts c d) : d.tokens = c.tokens := by
  rw [tokens, tokens, h.remaining, h.consumed, List.reverse_append, List.reverse_reverse,
    List.append_assoc]

/-- The cursor has gone on by as many tokens as were taken. -/
theorem index_eq (h : Took ts c d) : d.index = c.index + ts.length := by
  rw [index, index, h.consumed, List.length_append, List.length_reverse, Nat.add_comm]

/-- It stays within the buffer. -/
theorem index_le_length (h : Took ts c d) : d.index ≤ c.tokens.length := by
  rw [← h.tokens_eq, tokens, List.length_append, List.length_reverse]
  exact Nat.le_add_right _ _

/-- The tokens that were taken are those between the two places. -/
theorem eq_between (h : Took ts c d) : ts = c.between d := by
  have hbehind : c.tokens.drop c.index = ts ++ d.remaining := by
    rw [tokens, index, ← List.length_reverse, List.drop_left, h.remaining]
  rw [between, hbehind, h.index_eq, Nat.add_sub_cancel_left, List.take_left]

end Took

end Cursor

namespace Parse

open ParseTree

variable {α β : Type}

/-- However `p` ends, it has taken some tokens. -/
def Forward (p : Parse α) : Prop := ∀ ⦃c r d⦄, p c = some (r, d) → ∃ ts, Cursor.Took ts c d

/-! ### Putting readers together -/

namespace Forward

variable {p : Parse α} {f : α → Parse β}

/-- A reader that ends where it begins. -/
theorem of_stays (h : ∀ ⦃c r d⦄, p c = some (r, d) → d = c) : Forward p := by
  intro c r d hp
  obtain rfl := h hp
  exact ⟨[], .nil _⟩

/-- Giving a value takes nothing. -/
theorem pure (a : α) : Forward (Pure.pure a : Parse α) :=
  of_stays fun _ _ _ h => by cases h; rfl

/-- Failing takes nothing. -/
theorem fail (e : ParseError) : Forward (Bounded.fail e : Parse α) :=
  of_stays fun _ _ _ h => by cases h; rfl

/-- Without a bound left there is no end to speak of. -/
theorem exhausted : Forward (Bounded.exhausted : Parse α) := nofun

/-- Looking at the cursor takes nothing. -/
theorem state : Forward (Bounded.state : Parse Cursor) :=
  of_stays fun _ _ _ h => by cases h; rfl

/-- One reader after another takes the tokens of both, or those of the first if that fails. -/
theorem bind (hp : Forward p) (hf : ∀ a, Forward (f a)) : Forward (p >>= f) := by
  intro c r d h
  rcases Bounded.cases_of_bind h with ⟨e, he, -⟩ | ⟨a, c', ha, hr⟩
  · exact hp he
  · obtain ⟨ts, htook⟩ := hp ha
    obtain ⟨us, htook'⟩ := hf a hr
    exact ⟨ts ++ us, htook.append htook'⟩

/-- A function of the value takes nothing. -/
theorem map (hp : Forward p) (g : α → β) : Forward (g <$> p) := by
  rw [map_eq_pure_bind]
  exact hp.bind fun a => pure (g a)

/-- Naming a construct takes nothing. -/
theorem within (hp : Forward p) (construct : Construct) : Forward (Parse.within construct p) := by
  intro c r d h
  obtain ⟨r', hr', -⟩ := Bounded.exists_of_mapError h
  exact hp hr'

/-- A choice goes forward if both sides do. -/
theorem ite {condition : Prop} [Decidable condition] {q : Parse α} (hp : Forward p)
    (hq : Forward q) : Forward (if condition then p else q) := by
  split
  · exact hp
  · exact hq

/-- Looking at the next token takes nothing, even if there is none. -/
theorem peek : Forward Parse.peek := by
  refine of_stays fun c r d h => ?_
  unfold Parse.peek at h
  split at h <;> cases h <;> rfl

/-- Taking a token takes it, and at the end of the buffer nothing. -/
theorem advance : Forward Parse.advance := by
  intro c r d h
  cases r with
  | ok token => exact ⟨[token], took_of_advance h⟩
  | error e =>
      obtain ⟨rfl, -⟩ := advance_eq_error_iff.mp h
      exact ⟨[], .nil _⟩

/-- Comparing the next token takes nothing. -/
theorem checkAny (kinds : List TokenKind) : Forward (Parse.checkAny kinds) :=
  peek.bind fun _ => pure _

/-- The same for one kind. -/
theorem check (kind : TokenKind) : Forward (Parse.check kind) := checkAny [kind]

/-- A token of the wrong kind has been taken when the error is given. -/
theorem expectAny (kinds : List TokenKind) : Forward (Parse.expectAny kinds) :=
  advance.bind fun token => ite (pure token) (fail _)

/-- The same for one kind. -/
theorem expect (kind : TokenKind) : Forward (Parse.expect kind) := expectAny [kind]

end Forward

/-! ### Lists -/

section Lists

variable {item : Parse α} (separator close : TokenKind)

/-- Lists without a closing token. -/
theorem forward_chain (hitem : Forward item) : ∀ n, Forward (chain separator item n)
  | 0 => .exhausted
  | n + 1 => hitem.bind fun _ => (Forward.check _).bind fun _ => .ite
      ((Forward.expect _).bind fun _ => (forward_chain hitem n).bind fun _ => .pure _) (.pure _)

/-- The items of lists up to a closing token. -/
theorem forward_closedItems (hitem : Forward item) :
    ∀ n, Forward (closedItems separator close item n)
  | 0 => .exhausted
  | n + 1 => hitem.bind fun _ => (Forward.check _).bind fun _ => .ite (.pure _)
      ((Forward.expect _).bind fun _ => (forward_closedItems hitem n).bind fun _ => .pure _)

/-- Lists up to a closing token, which may be empty. -/
theorem forward_closedList (hitem : Forward item) (n : Nat) :
    Forward (closedList separator close item n) :=
  (Forward.check _).bind fun _ => .ite (.pure _) (forward_closedItems separator close hitem n)

/-- Lists that may end with a separator. -/
theorem forward_openList (hitem : Forward item) : ∀ n, Forward (openList separator close item n)
  | 0 => .exhausted
  | n + 1 => (Forward.check _).bind fun _ => .ite (.pure _) <| hitem.bind fun _ =>
      (Forward.check _).bind fun _ => .ite (.pure _)
        ((Forward.expect _).bind fun _ => (forward_openList hitem n).bind fun _ => .pure _)

end Lists

/-! ### Types, places and struct definitions -/

/-- The arguments behind the name of a type. -/
theorem forward_typeArgs {type : Parse TypeRef} (htype : Forward type) (n : Nat) (name : Token) :
    Forward (typeArgs type n name) := by
  refine (Forward.check _).bind fun _ => .ite (.within ?_ _) (.pure _)
  refine (Forward.expect _).bind fun _ => (forward_chain _ htype n).bind fun _ => ?_
  exact (Forward.expect _).bind fun _ => .pure _

/-- Types. -/
theorem forward_typeRef : ∀ n, Forward (typeRef n)
  | 0 => .exhausted
  | n + 1 => .within ((Forward.expectAny _).bind fun name =>
      forward_typeArgs (forward_typeRef n) n name) _

/-- The field accesses behind the beginning of a place. -/
theorem forward_fields : ∀ n base, Forward (fields n base)
  | 0, _ => .exhausted
  | n + 1, _ => (Forward.check _).bind fun _ => .ite
      ((Forward.expect _).bind fun _ => (Forward.expect _).bind fun _ => forward_fields n _)
      (.pure _)

/-- Places whose name has been taken. -/
theorem forward_placeFrom (n : Nat) (name : Token) : Forward (placeFrom n name) :=
  (Forward.check _).bind fun _ => .ite (.within (forward_fields n _) _) (.pure _)

/-- Places. -/
theorem forward_place (n : Nat) : Forward (place n) :=
  .within ((Forward.expect _).bind fun name => forward_placeFrom n name) _

/-- Lists of names. -/
theorem forward_nameList (n : Nat) : Forward (nameList n) :=
  .within (Forward.peek.bind fun _ => .ite (forward_chain _ (.expect _) n) (.fail _)) _

/-- The parameters of a struct definition. -/
theorem forward_typeParams (n : Nat) : Forward (typeParams n) := by
  refine .within ((Forward.expect _).bind fun _ => (forward_nameList n).bind fun _ => ?_) _
  exact (Forward.expect _).bind fun _ => .pure _

/-- Field groups without their semicolon. -/
theorem forward_fieldGroup (n : Nat) : Forward (fieldGroup n) :=
  (forward_nameList n).bind fun _ => (forward_typeRef n).bind fun _ => .pure _

/-- All field groups of a struct definition. -/
theorem forward_fieldGroups (n : Nat) : Forward (fieldGroups n) :=
  .within ((forward_openList _ _ (forward_fieldGroup n) n).bind fun _ => .pure _) _

/-- Struct definitions. -/
theorem forward_structDef (n : Nat) : Forward (structDef n) := by
  refine .within ((Forward.expect _).bind fun _ => (Forward.check _).bind fun _ => ?_) _
  have rest (params : Option TypeParams) (structKw : Token) : Forward (do
      let lbrace ← expect .lbrace
      let groups ← fieldGroups n
      let rbrace ← expect .rbrace
      return (⟨structKw, params, lbrace, groups, rbrace⟩ : StructDef)) :=
    (Forward.expect _).bind fun _ => (forward_fieldGroups n).bind fun _ =>
      (Forward.expect _).bind fun _ => .pure _
  exact .ite (((forward_typeParams n).map _).bind fun params => rest params _)
    ((Forward.pure _).bind fun params => rest params _)

/-! ### Expressions and statements -/

section Expressions

variable {table : OperatorTable} {expr : Precedence → Parse Expr} {stmt : Parse Stmt}

/-- Initialisers. -/
theorem forward_fieldInit (hexpr : ∀ min, Forward (expr min)) : Forward (fieldInit expr) :=
  (Forward.expect _).bind fun _ => (Forward.expect _).bind fun _ => (hexpr _).bind fun _ => .pure _

/-- Struct literals whose name has been taken. -/
theorem forward_structLiteral (hexpr : ∀ min, Forward (expr min)) (n : Nat) (name : Token) :
    Forward (structLiteral n expr name) := by
  refine .within ((Forward.within (forward_typeArgs (forward_typeRef n) n name) _).bind fun _ => ?_) _
  refine (Forward.expect _).bind fun _ => ?_
  refine (Forward.within (forward_openList _ _ (forward_fieldInit hexpr) n) _).bind fun _ => ?_
  exact (Forward.expect _).bind fun _ => .pure _

/-- What begins with a name. -/
theorem forward_named (hexpr : ∀ min, Forward (expr min)) (n : Nat) (name : Token) :
    Forward (named n expr name) := by
  refine .ite ((Forward.checkAny _).bind fun _ => ?_) (.fail _)
  exact .ite (forward_structLiteral hexpr n name) ((forward_placeFrom n name).map _)

/-- Expressions in parentheses. -/
theorem forward_group (hexpr : ∀ min, Forward (expr min)) (lparen : Token) :
    Forward (group expr lparen) :=
  .within ((hexpr _).bind fun _ => (Forward.expect _).bind fun _ => .pure _) _

/-- The operands of prefix operators. -/
theorem forward_operand (hexpr : ∀ min, Forward (expr min)) (p : Precedence) (op : UnaryOp)
    (opToken : Token) : Forward (operand expr p op opToken) :=
  .within ((hexpr p).bind fun _ => .pure _) _

/-- Parameters. -/
theorem forward_param (n : Nat) : Forward (param n) :=
  (Forward.expect _).bind fun _ => (forward_typeRef n).bind fun _ => .pure _

/-- Function bodies. -/
theorem forward_block (hstmt : Forward stmt) : ∀ n, Forward (block stmt n)
  | 0 => .exhausted
  | n + 1 => by
      refine (Forward.check _).bind fun _ => .ite (.pure _) ((Forward.check _).bind fun _ => ?_)
      exact .ite (Forward.peek.bind fun _ => .fail _)
        (hstmt.bind fun _ => (forward_block hstmt n).bind fun _ => .pure _)

/-- Function literals whose keyword has been taken. -/
theorem forward_func (hstmt : Forward stmt) (n : Nat) (funcKw : Token) :
    Forward (func n stmt funcKw) := by
  refine .within ((Forward.expect _).bind fun lparen => ?_) _
  refine (Forward.within (forward_closedList _ _ (forward_param n) n) _).bind fun params => ?_
  refine (Forward.expect _).bind fun rparen => (Forward.check _).bind fun _ => ?_
  have rest (result : Option TypeRef) : Forward (do
      let lbrace ← expect .lbrace
      let body ← within .funcBody (block stmt n)
      let rbrace ← expect .rbrace
      return Expr.func funcKw lparen params rparen result lbrace body rbrace) :=
    (Forward.expect _).bind fun _ => ((forward_block hstmt n).within _).bind fun _ =>
      (Forward.expect _).bind fun _ => .pure _
  exact .ite ((Forward.pure _).bind rest) (((forward_typeRef n).map _).bind rest)

/-- What a token begins, under each rule for such tokens. -/
theorem forward_leading (hexpr : ∀ min, Forward (expr min)) (hstmt : Forward stmt) (n : Nat)
    (rule : LeadingRule) (token : Token) : Forward (leading n expr stmt rule token) := by
  cases rule with
  | literal =>
      unfold leading
      dsimp only
      split
      · exact .pure _
      · exact .fail _
  | ident => exact forward_named hexpr n token
  | group => exact forward_group hexpr token
  | operator p =>
      unfold leading
      dsimp only
      split
      · exact forward_operand hexpr p _ token
      · exact .fail _
  | func => exact forward_func hstmt n token

/-- Calls whose callee has been taken. -/
theorem forward_call (hexpr : ∀ min, Forward (expr min)) (n : Nat) (callee : Expr)
    (lparen : Token) : Forward (call n expr callee lparen) := by
  refine .within ?_ _
  split
  · exact .fail _
  · exact (forward_closedList _ _ (hexpr _) n).bind fun _ => (Forward.expect _).bind fun _ => .pure _

/-- What a token goes on with, under each rule for such tokens. -/
theorem forward_trailing (hexpr : ∀ min, Forward (expr min)) (n : Nat) (rule : TrailingRule)
    (left : Expr) (token : Token) : Forward (trailing n expr rule left token) := by
  cases rule with
  | binary p groupsRight =>
      unfold trailing
      dsimp only
      split
      · exact .fail _
      · exact .within ((hexpr _).bind fun _ => .pure _) _
  | call => exact forward_call hexpr n left token

/-- The loop that extends an expression, by induction on its bound. -/
theorem forward_extend (hexpr : ∀ min, Forward (expr min)) (min : Precedence) :
    ∀ n left, Forward (extend table expr min n left)
  | 0, _ => .exhausted
  | n + 1, left => by
      refine Forward.peek.bind fun next => ?_
      split
      · exact .pure _
      · refine .ite (.pure _) (Forward.advance.bind fun token => ?_)
        exact (forward_trailing hexpr n _ left token).bind fun longer =>
          forward_extend hexpr min n longer

/-- Statements, told apart by their first token. -/
theorem forward_statement (hexpr : ∀ min, Forward (expr min)) (n : Nat) :
    Forward (statement n expr) := by
  have semicolon {γ : Type} (g : Token → γ) : Forward (do return g (← expect .semicolon)) :=
    (Forward.expect _).bind fun _ => .pure _
  have target (construct : Construct) (keyword : TokenKind)
      (g : Token → Place → Token → Expr → Token → Stmt) : Forward (within construct do
        let kw ← expect keyword
        let target ← place n
        let eq ← expect .eq
        let value ← expr .bottom
        return g kw target eq value (← expect .semicolon)) :=
    .within ((Forward.expect _).bind fun _ => (forward_place n).bind fun _ =>
      (Forward.expect _).bind fun _ => (hexpr _).bind fun _ => semicolon _) _
  refine .within (Forward.peek.bind fun first => ?_) _
  split
  · exact .within ((Forward.expect _).bind fun _ => (forward_typeRef n).bind fun _ =>
      (Forward.expect _).bind fun _ => (forward_structDef n).bind fun _ => semicolon _) _
  · exact target .define .letKw .define
  · exact target .assign .setKw .assign
  · refine .within ((Forward.expect _).bind fun _ => (Forward.check _).bind fun _ => ?_) _
    exact .ite ((Forward.pure _).bind fun _ => semicolon _)
      (((hexpr _).map _).bind fun _ => semicolon _)
  · exact .within ((hexpr _).bind fun _ => semicolon _) _

end Expressions

/-! ### Whole readers -/

/-- The readers of expressions and of statements, which call each other, by induction on their
common bound. -/
theorem forward_expr_and_stmt (table : OperatorTable) :
    ∀ n, (∀ min, Forward (expr table n min)) ∧ Forward (stmt table n)
  | 0 => ⟨fun _ => .exhausted, .exhausted⟩
  | n + 1 => by
      obtain ⟨hexpr, hstmt⟩ := forward_expr_and_stmt table n
      refine ⟨fun min => Forward.advance.bind fun token => ?_, forward_statement hexpr n⟩
      split
      · exact .fail _
      · exact (forward_leading hexpr hstmt n _ token).bind fun left =>
          forward_extend hexpr min n left

/-- Programs. -/
theorem forward_program {stmt : Parse Stmt} (hstmt : Forward stmt) : ∀ n, Forward (program stmt n)
  | 0 => .exhausted
  | n + 1 => by
      refine Forward.state.bind fun cursor => .ite (Forward.peek.bind fun next => ?_) (.pure _)
      split
      · exact Forward.advance.bind fun _ => .pure _
      · exact .fail _
      · exact hstmt.bind fun _ => (forward_program hstmt n).bind fun _ => .pure _

/-- What a reader gives at a cursor it gives under the bound for that cursor, or it fails there. -/
theorem cases_of_atCursor {p : Nat → Parse α} {c d : Cursor} {r : Except ParseError α}
    (h : atCursor p c = (r, d)) :
    p (nestingBound c) c = some (r, d) ∨ d = c ∧ r = .error c.outOfTokens := by
  unfold atCursor at h
  split at h
  · rename_i result hresult
    exact .inl (hresult.trans (congrArg some h))
  · cases h
    exact .inr ⟨rfl, rfl⟩

/-- A reader that gives a value gives it under the bound for the cursor. -/
theorem some_of_atCursor {p : Nat → Parse α} {c d : Cursor} {a : α}
    (h : atCursor p c = (.ok a, d)) : p (nestingBound c) c = some (.ok a, d) := by
  rcases cases_of_atCursor h with hp | ⟨-, hr⟩
  · exact hp
  · cases hr

/-- A reader that goes forward under every bound does so under the one for the cursor. -/
theorem exists_took_of_atCursor {p : Nat → Parse α} (hp : ∀ n, Forward (p n)) {c d : Cursor}
    {r : Except ParseError α} (h : atCursor p c = (r, d)) : ∃ ts, Cursor.Took ts c d := by
  rcases cases_of_atCursor h with h | ⟨rfl, -⟩
  · exact hp _ h
  · exact ⟨[], .nil _⟩

/-- **No token is lost or made up.** With any operator table, at any place of any buffer: a tree that
is given for an expression, a statement or a program holds the tokens from that place to the place
that the cursor has come to, each once, unchanged and in their order; an expression and a statement
have at least one. However a reader ends, the buffer is the same, and the cursor has gone neither
back nor beyond the end of the buffer. -/
theorem readers_take_yield (table : OperatorTable) (c : Cursor) :
    (∀ min e d, readExpr table min c = (.ok e, d) →
      e.yield = c.between d ∧ c.index < d.index) ∧
    (∀ s d, readStmt table c = (.ok s, d) → s.yield = c.between d ∧ c.index < d.index) ∧
    (∀ p d, readProgram table c = (.ok p, d) → p.yield = c.between d) ∧
    ∀ d, ((∃ min r, readExpr table min c = (r, d)) ∨ (∃ r, readStmt table c = (r, d)) ∨
        ∃ r, readProgram table c = (r, d)) →
      d.tokens = c.tokens ∧ c.index ≤ d.index ∧ d.index ≤ c.tokens.length := by
  refine ⟨fun min e d h => ?_, fun s d h => ?_, fun p d h => ?_, fun d h => ?_⟩
  · obtain ⟨_, htook, rfl, hwellFormed, -⟩ := takes_expr table _ min (some_of_atCursor h)
    obtain ⟨token, us, hyield, -⟩ := hwellFormed.begins
    refine ⟨htook.eq_between, ?_⟩
    rw [htook.index_eq, hyield, List.length_cons]
    omega
  · obtain ⟨_, htook, rfl, hwellFormed⟩ := takes_stmt table _ (some_of_atCursor h)
    obtain ⟨us, token, hyield, -⟩ := hwellFormed.ends
    refine ⟨htook.eq_between, ?_⟩
    rw [htook.index_eq, hyield, List.length_append, List.length_singleton]
    omega
  · exact (took_of_program (takes_stmt table _) (some_of_atCursor h)).1.eq_between
  · obtain ⟨ts, htook⟩ : ∃ ts, Cursor.Took ts c d := by
      rcases h with ⟨min, r, h⟩ | ⟨r, h⟩ | ⟨r, h⟩
      · exact exists_took_of_atCursor (fun n => (forward_expr_and_stmt table n).1 min) h
      · exact exists_took_of_atCursor (fun n => (forward_expr_and_stmt table n).2) h
      · exact exists_took_of_atCursor
          (fun n => forward_program (forward_expr_and_stmt table n).2 n) h
    refine ⟨htook.tokens_eq, ?_, htook.index_le_length⟩
    rw [htook.index_eq]
    exact Nat.le_add_right _ _

/-- With products that group to the right, in the middle of a buffer that goes on with a comment. -/
theorem readers_take_yield_product :
    let table := OperatorTable.standard.setTrailing .star (.binary .product true)
    let c : Cursor := ⟨[.sample .semicolon ";"], [.sample .ident "f", .sample .lparen "(",
      .sample .ident "x", .sample .star "*", .sample .ident "y", .sample .star "*",
      .sample .int "2", .sample .rparen ")", .sample .comment "//"]⟩
    ∃ e d, readExpr table .bottom c = (.ok e, d) ∧ e.yield = c.between d ∧ c.index < d.index ∧
      d.tokens = c.tokens ∧ c.index ≤ d.index ∧ d.index ≤ c.tokens.length := by
  intro table c
  obtain ⟨hexpr, -, -, hall⟩ := readers_take_yield table c
  obtain ⟨e, d, h⟩ : ∃ e d, readExpr table .bottom c = (.ok e, d) := ⟨_, _, rfl⟩
  obtain ⟨hyield, hlt⟩ := hexpr .bottom e d h
  exact ⟨e, d, h, hyield, hlt, hall d (.inl ⟨.bottom, .ok e, h⟩)⟩

end Parse

end StructScript
