import StructScript.Proofs.Failure.Declaration

/-!
# Where the readers of expressions and statements fail

By the standard table, each reader of expressions and statements fails at the first token that goes
with no tree of the grammar. Under the bound `n` an expression is read with half as many tokens
behind the cursor: the expression that begins a statement takes a step of the bound, but no token.

A call whose callee is no place fails at its parenthesis, which is behind the cursor by then. The
loop of precedence climbing looks at the parenthesis before it is taken, and it is there that the
failure is placed (`pointsAt_extend`).

Main result: `pinpoints_stmt`.
-/

namespace StructScript

namespace OperatorTable

/-! ### Rules of the standard table -/

/-- The tokens that are read as literals are those of a literal kind. -/
theorem standard_leading_literal {kind : TokenKind} (h : standard.leading kind = some .literal) :
    ∃ literal, LiteralKind.ofToken? kind = some literal := by
  cases kind <;> first | exact ⟨_, rfl⟩ | cases h

/-- Only identifiers are read as names. -/
theorem standard_leading_ident {kind : TokenKind} (h : standard.leading kind = some .ident) :
    kind = .ident := by
  cases kind <;> cases h
  rfl

/-- The tokens that are read as prefix operators have one. -/
theorem exists_ofToken?_of_leading {kind : TokenKind} {p : Precedence}
    (h : standard.leading kind = some (.operator p)) : ∃ op, UnaryOp.ofToken? kind = some op := by
  cases kind <;> first | exact ⟨_, rfl⟩ | cases h

/-- The tokens that are read as infix operators have one. -/
theorem exists_ofToken?_of_trailing {kind : TokenKind} {p : Precedence} {groupsRight : Bool}
    (h : standard.trailing kind = some (.binary p groupsRight)) :
    ∃ op, BinaryOp.ofToken? kind = some op := by
  cases kind <;> first | exact ⟨_, rfl⟩ | cases h

end OperatorTable

namespace Parse

open ParseTree OperatorTable

/-- `expr` pinpoints the expressions whose operators bind tighter than the strength it is given. -/
def PinpointsExprs (k : Nat) (expr expr' : Precedence → Parse Expr) : Prop :=
  ∀ min, PinpointsTrees k (expr min) (expr' min) Expr.yield fun e =>
    e.WellFormed .standard ∧ ∀ q ∈ e.infixPrecedence? .standard, min < q

/-- `stmt` pinpoints the statements. -/
abbrev PinpointsStmts (k : Nat) (stmt stmt' : Parse Stmt) : Prop :=
  PinpointsTrees k stmt stmt' Stmt.yield (Stmt.WellFormed .standard)

section Expressions

variable {expr expr' : Precedence → Parse Expr} {stmt stmt' : Parse Stmt} {j k n : Nat}

/-- An expression that may have any operators is pinpointed. -/
theorem PinpointsExprs.value (hexpr : PinpointsExprs j expr expr') (hk : k ≤ j) :
    PinpointsTrees k (expr .bottom) (expr' .bottom) Expr.yield (Expr.WellFormed .standard) :=
  (hexpr .bottom).mono hk fun _ _ h => ⟨h.1, h.2.1⟩

/-! ### What an expression begins with -/

/-- Initialisers: a name, a colon and an expression. -/
theorem pinpoints_fieldInit (hexpr : PinpointsExprs j expr expr') (hk : k ≤ j) :
    PinpointsTrees k (fieldInit expr) (fieldInit expr') FieldInit.yield
      (FieldInit.WellFormed .standard) := by
  refine Pinpoints.expect (by decide) fun name hname =>
    Pinpoints.expect (by decide) fun colon hcolon => ?_
  refine (hexpr.value (by omega)).seq ?_
  rintro _ value ⟨rfl, hvalue⟩
  exact Pinpoints.pure ⟨by rw [FieldInit.yield, List.append_nil], .mk hname hcolon hvalue⟩

/-- Struct literals whose name has been taken. -/
theorem pinpoints_structLiteral (hexpr : PinpointsExprs j expr expr') (hk : k ≤ j) (hn : k ≤ n)
    (n' : Nat) {name : Token} (hname : name.kind = .ident) :
    Pinpoints k (structLiteral n expr name) (structLiteral n' expr' name)
      (Alone .standard name) := by
  have hargs := pinpoints_typeArgs (pinpoints_typeRef hn n') (Nat.le_refl k) hn n' (.inl hname)
  refine Pinpoints.within ((Pinpoints.within hargs).seq ?_)
  rintro ts type ⟨hts, rfl, htype⟩
  refine Pinpoints.expect (by decide) fun lbrace hlbrace => ?_
  refine (Pinpoints.within (pinpoints_openList (by decide)
    (pinpoints_fieldInit hexpr (Nat.le_refl j)) (by omega) (by omega) n')).seq ?_
  rintro _ inits ⟨rfl, hinits, hvalues⟩
  refine Pinpoints.expect (by decide) fun rbrace hrbrace => Pinpoints.pure ⟨?_, ?_, rfl⟩
  · rw [Expr.yield, ← hts, Expr.initsYield_eq, List.cons_append]
  · exact .struct rfl hname htype hlbrace hinits hvalues hrbrace

/-- What begins with a name: a struct literal before a brace or a bracket, else a place. -/
theorem pinpoints_named (hexpr : PinpointsExprs j expr expr') (hk : k ≤ j) (hn : k ≤ n) (n' : Nat)
    {name : Token} (hname : name.kind = .ident) :
    Pinpoints k (named n expr name) (named n' expr' name) (Alone .standard name) := by
  unfold named
  rw [if_pos hname, if_pos hname]
  refine Pinpoints.checkAny fun b => ?_
  cases b with
  | true => exact pinpoints_structLiteral hexpr hk hn n' hname
  | false =>
      refine Pinpoints.map ((pinpoints_placeFrom hn n' hname).mono (Nat.le_refl k) ?_)
      exact fun _ _ h => ⟨h.1, .place rfl h.2, rfl⟩

/-- Expressions in parentheses. -/
theorem pinpoints_group (hexpr : PinpointsExprs k expr expr') {lparen : Token}
    (hrule : standard.leading lparen.kind = some .group) :
    Pinpoints k (group expr lparen) (group expr' lparen) (Alone .standard lparen) := by
  refine Pinpoints.within ((hexpr.value (Nat.le_refl k)).seq ?_)
  rintro _ inner ⟨rfl, hinner⟩
  refine Pinpoints.expect (by decide) fun rparen hrparen =>
    Pinpoints.pure ⟨?_, .group hrule hinner hrparen, rfl⟩
  rw [Expr.yield]

/-- The operands of prefix operators, which bind tighter than these. -/
theorem pinpoints_operand (hexpr : PinpointsExprs k expr expr') {p : Precedence} {op : UnaryOp}
    {opToken : Token} (hrule : standard.leading opToken.kind = some (.operator p))
    (hop : UnaryOp.ofToken? opToken.kind = some op) :
    Pinpoints k (operand expr p op opToken) (operand expr' p op opToken)
      (Alone .standard opToken) := by
  refine Pinpoints.within ((hexpr p).seq ?_)
  rintro _ inner ⟨rfl, hinner, hbinds⟩
  refine Pinpoints.pure ⟨?_, .unary hrule hop hinner hbinds, rfl⟩
  rw [Expr.yield, List.append_nil]

/-- Parameters: a name and a type. -/
theorem pinpoints_param (hn : k ≤ n) (n' : Nat) :
    PinpointsTrees k (param n) (param n') Param.yield Param.WellFormed := by
  refine Pinpoints.expect (by decide) fun name hname =>
    (pinpoints_typeRef (by omega) n').seq ?_
  rintro _ type ⟨rfl, htype⟩
  exact Pinpoints.pure ⟨by rw [List.append_nil, Param.yield], hname, htype⟩

/-- Function bodies: statements up to a brace. -/
theorem pinpoints_block (hstmt : PinpointsStmts j stmt stmt') (hk : k ≤ j) (hn : k ≤ n)
    (n' : Nat) :
    PinpointsTrees k (block stmt n) (block stmt' n') Stmt.listYield
      fun stmts => ∀ s ∈ stmts, s.WellFormed .standard := by
  have hviable : Viable (fun ts stmts => ts = Stmt.listYield stmts ∧
      ∀ s ∈ stmts, s.WellFormed .standard) [] := ⟨[], [], .nil, rfl, List.forall_mem_nil _⟩
  induction n generalizing k n' with
  | zero =>
      obtain rfl := Nat.le_zero.mp hn
      exact .zero hviable
  | succ n ih =>
      refine Pinpoints.of_succ rfl (fun m => ?_) n'
      unfold block
      refine Pinpoints.check (Pinpoints.pure ⟨rfl, List.forall_mem_nil _⟩) (Pinpoints.check ?_
        ((hstmt.le hk).bind ?_))
      · refine Pinpoints.peek hviable fun t c rest hc _ _ => ?_
        refine .fail hc rfl rfl ?_ hviable ?_
        · rintro ⟨⟩
        · rintro before rest b d ⟨⟩
      · rintro _ first ⟨rfl, hfirst⟩
        obtain ⟨token, us, hus, -⟩ := hfirst.begins
        have hpos : 0 < first.yield.length := by simp [hus]
        refine (ih (by omega) (by omega) m).seq ?_
        rintro _ rest ⟨rfl, hrest⟩
        refine Pinpoints.pure ⟨?_, List.forall_mem_cons.mpr ⟨hfirst, hrest⟩⟩
        rw [Stmt.listYield, List.append_nil]

/-- Function literals whose keyword has been taken. -/
theorem pinpoints_func (hstmt : PinpointsStmts j stmt stmt') (hk : k ≤ j) (hn : k ≤ n) (n' : Nat)
    {funcKw : Token} (hrule : standard.leading funcKw.kind = some .func) :
    Pinpoints k (func n stmt funcKw) (func n' stmt' funcKw) (Alone .standard funcKw) := by
  refine Pinpoints.within (Pinpoints.expect (by decide) fun lparen hlparen => ?_)
  refine (Pinpoints.within (pinpoints_closedList (by decide) (pinpoints_param hn n') (by omega)
    (by omega) n')).seq ?_
  rintro _ params ⟨rfl, hparams, hvalues⟩
  refine Pinpoints.expect (by decide) fun rparen hrparen => ?_
  refine Pinpoints.check (pinpoints_none.seq ?body)
    ((pinpoints_some (pinpoints_typeRef (by omega) n')).seq ?body)
  rintro _ result ⟨rfl, hresult⟩
  refine Pinpoints.expect (by decide) fun lbrace hlbrace =>
    (Pinpoints.within (pinpoints_block hstmt (by omega) (by omega) n')).seq ?_
  rintro _ body ⟨rfl, hbody⟩
  refine Pinpoints.expect (by decide) fun rbrace hrbrace => Pinpoints.pure ⟨?_, ?_, rfl⟩
  · rw [Expr.yield]
  · exact .func hrule hlparen hparams hvalues hrparen hresult hlbrace hbody hrbrace

/-- What a token begins, under each rule for such tokens. -/
theorem pinpoints_leading (hexpr : PinpointsExprs k expr expr') (hstmt : PinpointsStmts k stmt stmt')
    (hn : k ≤ n) (n' : Nat) {rule : LeadingRule} {token : Token}
    (hrule : standard.leading token.kind = some rule) :
    Pinpoints k (leading n expr stmt rule token) (leading n' expr' stmt' rule token)
      (Alone .standard token) := by
  cases rule with
  | literal =>
      obtain ⟨kind, hkind⟩ := standard_leading_literal hrule
      unfold leading
      simp only [hkind]
      exact Pinpoints.pure ⟨by rw [Expr.yield], .literal hrule hkind, rfl⟩
  | ident => exact pinpoints_named hexpr (Nat.le_refl k) hn n' (standard_leading_ident hrule)
  | group => exact pinpoints_group hexpr hrule
  | operator p =>
      obtain ⟨op, hop⟩ := exists_ofToken?_of_leading hrule
      unfold leading
      simp only [hop]
      exact pinpoints_operand hexpr hrule hop
  | func => exact pinpoints_func hstmt (Nat.le_refl k) hn n' hrule

/-! ### Precedence climbing -/

/-- What stands behind an operator is its right operand. -/
theorem pinpoints_trailing_binary (hexpr : PinpointsExprs k expr expr') (n n' : Nat)
    {p : Precedence} {groupsRight : Bool} {left : Expr} {token : Token}
    (hrule : standard.trailing token.kind = some (.binary p groupsRight))
    (hleft : left.WellFormed .standard) (hbinds : ∀ q ∈ left.rightPrecedence? .standard, p ≤ q) :
    Pinpoints k (trailing n expr (.binary p groupsRight) left token)
      (trailing n' expr' (.binary p groupsRight) left token) fun ts e =>
        left.yield ++ token :: ts = e.yield ∧ e.WellFormed .standard ∧
          ∀ q ∈ e.infixPrecedence? .standard, q = p := by
  obtain ⟨op, hop⟩ := exists_ofToken?_of_trailing hrule
  simp only [trailing, hop]
  refine Pinpoints.within ((hexpr _).seq ?_)
  rintro _ right ⟨rfl, hright, hrightBinds⟩
  refine Pinpoints.pure ⟨?_, .binary hrule hop hleft hright hbinds hrightBinds, ?_⟩
  · rw [Expr.yield, List.append_nil]
  · rintro q ⟨⟩
    exact trailingPrecedence_eq hrule

/-- What stands behind a place and a parenthesis are the arguments of a call. -/
theorem pinpoints_trailing_call (hexpr : PinpointsExprs k expr expr') (hn : k ≤ n) (n' : Nat)
    {callee : Place} {token : Token} (hrule : standard.trailing token.kind = some .call)
    (hcallee : (Expr.place callee).WellFormed .standard) :
    Pinpoints k (trailing n expr .call (.place callee) token)
      (trailing n' expr' .call (.place callee) token) fun ts e =>
        (Expr.place callee).yield ++ token :: ts = e.yield ∧ e.WellFormed .standard ∧
          e.infixPrecedence? .standard = none := by
  refine Pinpoints.within ((pinpoints_closedList (by decide) (hexpr.value (Nat.le_refl k))
    (Nat.le_refl k) hn n').seq ?_)
  rintro _ args ⟨rfl, hargs, hvalues⟩
  refine Pinpoints.expect (by decide) fun rparen hrparen => Pinpoints.pure ⟨?_, ?_, rfl⟩
  · rw [Expr.yield, Expr.yield, Expr.argsYield_eq]
  · exact .call rfl (Expr.wellFormed_place_iff.mp hcallee) hrule hargs hvalues hrparen

/-- The tokens of `e` are those of `left` and then `ts`, and its operators bind tighter than `min`. -/
structure Continues (min : Precedence) (left : Expr) (ts : List Token) (e : Expr) : Prop where
  yield : left.yield ++ ts = e.yield
  wellFormed : e.WellFormed .standard
  binds : ∀ q ∈ e.infixPrecedence? .standard, min < q

/-- A token that continues an expression is pinpointed with all that belongs to it. -/
theorem pinpoints_trailing (hexpr : PinpointsExprs k expr expr') (hn : k ≤ n) (n' : Nat)
    {min : Precedence} {rule : TrailingRule} {left : Expr} {token : Token} {c : Cursor}
    (hrule : standard.trailing token.kind = some rule) (hmin : min < rule.precedence)
    (hleft : Extensible .standard min left c) (hhead : c.remaining.head? = some token)
    (hplace : rule = .call → left.place? ≠ none) :
    Pinpoints k (trailing n expr rule left token) (trailing n' expr' rule left token)
      fun ts e => Continues min left (token :: ts) e := by
  cases rule with
  | binary p groupsRight =>
      have hbinds : ∀ q ∈ left.rightPrecedence? .standard, p ≤ q := by
        intro q hq
        have hends := hleft.ends token hhead q hq
        rwa [trailingPrecedence_eq hrule] at hends
      refine (pinpoints_trailing_binary hexpr n n' hrule hleft.wellFormed hbinds).mono
        (Nat.le_refl k) ?_
      rintro ts e ⟨hyield, he, hq⟩
      exact ⟨hyield, he, fun q hqe => hq q hqe ▸ hmin⟩
  | call =>
      cases left with
      | place callee =>
          refine (pinpoints_trailing_call hexpr hn n' hrule hleft.wellFormed).mono
            (Nat.le_refl k) ?_
          rintro ts e ⟨hyield, he, hnone⟩
          exact ⟨hyield, he, fun q hq => by rw [hnone] at hq; cases hq⟩
      | _ => exact absurd rfl (hplace rfl)

/-- A callee that is no place is an error at the parenthesis behind it. -/
theorem trailing_call_of_not_place {left : Expr} (h : left.place? = none) (token : Token) :
    trailing n expr .call left token =
      Bounded.fail ((ParseError.atToken token .calleeNotPlace).within .call) := by
  unfold trailing call
  simp only [h]
  rfl

/-- No expression goes on with the parenthesis behind a callee that is no place. -/
theorem pointsAt_call_of_not_place {n' : Nat} {min : Precedence} {left : Expr} {c : Cursor}
    {token : Token} {rest : List Token} (hc : c.remaining = token :: rest) (hplace : left.place? = none)
    (hviable : Viable (Continues min left) []) (f f' : Expr → Parse Expr) :
    PointsAt (advance >>= fun t => trailing n expr .call left t >>= f)
      (advance >>= fun t => trailing n' expr' .call left t >>= f') (Continues min left) c := by
  have hadvance : advance c = some (.ok token, ⟨token :: c.consumed, rest⟩) :=
    advance_eq_ok_iff.mpr ⟨hc, rfl⟩
  have hfail : (advance >>= fun t => trailing n expr .call left t >>= f) c =
      some (.error ((ParseError.atToken token .calleeNotPlace).within .call),
        ⟨token :: c.consumed, rest⟩) := by
    rw [Bounded.bind_apply, hadvance]
    simp only [trailing_call_of_not_place hplace]
    rfl
  refine .fail hc hfail rfl nofun hviable ?_
  intro before behind e d h
  obtain ⟨t, c', -, hrest⟩ := Bounded.bind_eq_ok_iff.mp h
  rw [trailing_call_of_not_place hplace] at hrest
  cases hrest

/-- An expression goes on with every operator and call that binds tighter than `min`. Where a call has
a callee that is no place, no expression goes on with the parenthesis. -/
theorem pointsAt_extend (hexpr : PinpointsExprs j expr expr') (hsound : ExprSound .standard expr)
    (hk : k ≤ j) (hn : k ≤ n) (n' : Nat) {min : Precedence} {left : Expr} {c : Cursor}
    (hleft : Extensible .standard min left c) (heof : c.HasEof) (hlength : c.remaining.length ≤ k) :
    PointsAt (extend .standard expr min n left) (extend .standard expr' min n' left)
      (Continues min left) c := by
  induction n generalizing k n' left c with
  | zero =>
      obtain ⟨t, rest, hcons⟩ := heof.exists_cons
      rw [hcons, List.length_cons] at hlength
      omega
  | succ n ih =>
      -- with no bound on the other side nothing is read there
      suffices hsucc : ∀ m, PointsAt (extend .standard expr min (n + 1) left)
          (extend .standard expr' min (m + 1) left) (Continues min left) c by
        cases n' with
        | zero => exact (hsucc 0).exhausted_right
        | succ m => exact hsucc m
      intro m
      obtain ⟨token, rest, hcons⟩ := heof.exists_cons
      have hhead : c.remaining.head? = some token := by rw [hcons]; rfl
      have hpure : Pinpoints k (pure left) (pure left) (Continues min left) :=
        Pinpoints.pure ⟨List.append_nil _, hleft.wellFormed, hleft.binds⟩
      have hstop := hpure.pointsAt c heof hlength
      refine .peek hcons ?_
      -- without a rule, or with one that binds too weakly, the expression ends before the token
      rcases hrule : standard.trailing token.kind with _ | rule
      · exact hstop
      by_cases hmin : rule.precedence ≤ min
      · simp only [if_pos hmin]
        exact hstop
      simp only [if_neg hmin]
      have hne : token.kind ≠ .eof := by
        intro hkind
        rw [hkind] at hrule
        cases hrule
      by_cases hplace : rule = .call ∧ left.place? = none
      · obtain ⟨rfl, hplace⟩ := hplace
        exact pointsAt_call_of_not_place hcons hplace hpure.viable _ _
      · -- one more round: what the rule asks for, and then the rounds behind it
        have hexpr' : PinpointsExprs (k - 1) expr expr' := fun p => (hexpr p).le (by omega)
        have htrailing := pinpoints_trailing hexpr' (Nat.sub_le_of_le_add hn) m hrule
          (Nat.lt_of_not_le hmin) hleft hhead fun h hnone => hplace ⟨h, hnone⟩
        have hlength' : rest.length ≤ k - 1 := by
          rw [hcons, List.length_cons] at hlength
          omega
        refine .advance hcons hne (htrailing.bindAt (heof.next hcons hne) hlength' ?_ ?_)
        · intro ts longer d hlonger hd hlength'' hp
          obtain ⟨-, -, -, hextensible⟩ := extensible_of_trailing hsound hleft hhead hrule
            (Nat.lt_of_not_le hmin) hp
          refine (ih (by omega) (by omega) m hextensible hd
            (Nat.le_trans hlength'' (Nat.sub_le _ _))).mono ?_
          intro us e he
          refine ⟨?_, he.wellFormed, he.binds⟩
          rw [← he.yield, ← hlonger.yield, List.append_assoc, List.cons_append]
        · intro ts longer hlonger
          refine ⟨[], longer, .nil, ?_⟩
          rwa [List.append_nil]

/-! ### Statements -/

/-- Type definitions. -/
theorem pinpoints_typeDefinition (hn : k ≤ n) (n' : Nat) :
    PinpointsStmts k (typeDefinition n) (typeDefinition n') := by
  refine Pinpoints.within (Pinpoints.expect (by decide) fun typeKw htypeKw =>
    (pinpoints_typeRef (by omega) n').seq ?_)
  rintro _ name ⟨rfl, hname⟩
  refine Pinpoints.expect (by decide) fun eq heq => (pinpoints_structDef (by omega) n').seq ?_
  rintro _ definition ⟨rfl, hdefinition⟩
  refine Pinpoints.expect (by decide) fun semicolon hsemicolon => Pinpoints.pure ⟨?_, ?_⟩
  · rw [Stmt.yield]
  · exact .typeDef htypeKw hname heq hdefinition hsemicolon

/-- Definitions of variables. -/
theorem pinpoints_definition (hexpr : PinpointsExprs j expr expr') (hk : k ≤ j) (hn : k ≤ n)
    (n' : Nat) : PinpointsStmts k (definition n expr) (definition n' expr') := by
  refine Pinpoints.within (Pinpoints.expect (by decide) fun letKw hletKw =>
    (pinpoints_place (by omega) n').seq ?_)
  rintro _ target ⟨rfl, htarget⟩
  refine Pinpoints.expect (by decide) fun eq heq => (hexpr.value (by omega)).seq ?_
  rintro _ value ⟨rfl, hvalue⟩
  refine Pinpoints.expect (by decide) fun semicolon hsemicolon => Pinpoints.pure ⟨?_, ?_⟩
  · rw [Stmt.yield]
  · exact .define hletKw htarget heq hvalue hsemicolon

/-- Assignments. -/
theorem pinpoints_assignment (hexpr : PinpointsExprs j expr expr') (hk : k ≤ j) (hn : k ≤ n)
    (n' : Nat) : PinpointsStmts k (assignment n expr) (assignment n' expr') := by
  refine Pinpoints.within (Pinpoints.expect (by decide) fun setKw hsetKw =>
    (pinpoints_place (by omega) n').seq ?_)
  rintro _ target ⟨rfl, htarget⟩
  refine Pinpoints.expect (by decide) fun eq heq => (hexpr.value (by omega)).seq ?_
  rintro _ value ⟨rfl, hvalue⟩
  refine Pinpoints.expect (by decide) fun semicolon hsemicolon => Pinpoints.pure ⟨?_, ?_⟩
  · rw [Stmt.yield]
  · exact .assign hsetKw htarget heq hvalue hsemicolon

/-- Returns, with a value or without. -/
theorem pinpoints_returnStatement (hexpr : PinpointsExprs j expr expr') (hk : k ≤ j) :
    PinpointsStmts k (returnStatement expr) (returnStatement expr') := by
  refine Pinpoints.within (Pinpoints.expect (by decide) fun returnKw hreturnKw => ?_)
  refine Pinpoints.check (pinpoints_none.seq ?body)
    ((pinpoints_some (hexpr.value (by omega))).seq ?body)
  rintro _ value ⟨rfl, hvalue⟩
  refine Pinpoints.expect (by decide) fun semicolon hsemicolon =>
    Pinpoints.pure ⟨?_, .ret hreturnKw hvalue hsemicolon⟩
  cases value <;> rw [Stmt.yield] <;> rfl

/-- Expressions as statements. -/
theorem pinpoints_exprStatement (hexpr : PinpointsExprs j expr expr') (hk : k ≤ j) :
    PinpointsStmts k (exprStatement expr) (exprStatement expr') := by
  refine Pinpoints.within ((hexpr.value hk).seq ?_)
  rintro _ inner ⟨rfl, hinner⟩
  refine Pinpoints.expect (by decide) fun semicolon hsemicolon =>
    Pinpoints.pure ⟨?_, .expr hinner hsemicolon⟩
  rw [Stmt.yield]

/-- Statements: by its first token one is told from another. -/
theorem pinpoints_statement (hexpr : PinpointsExprs j expr expr') (hk : k ≤ j) (hn : k ≤ n)
    (n' : Nat) : PinpointsStmts k (statement n expr) (statement n' expr') := by
  have hother := pinpoints_exprStatement hexpr hk
  refine Pinpoints.within (Pinpoints.peek hother.viable fun first c rest _ heof hlength => ?_)
  generalize first.kind = kind
  split
  · exact (pinpoints_typeDefinition hn n').pointsAt c heof hlength
  · exact (pinpoints_definition hexpr hk hn n').pointsAt c heof hlength
  · exact (pinpoints_assignment hexpr hk hn n').pointsAt c heof hlength
  · exact (pinpoints_returnStatement hexpr hk).pointsAt c heof hlength
  · exact hother.pointsAt c heof hlength

end Expressions

/-! ### Whole readers -/

/-- Some expression begins with nothing taken yet. -/
theorem viable_nil {min : Precedence} : Viable (fun ts e => ts = Expr.yield e ∧
    e.WellFormed .standard ∧ ∀ q ∈ e.infixPrecedence? .standard, min < q) [] := by
  have hyield : NoEof (Expr.literal .nil (.sample .nilKw "nil")).yield := by decide
  exact viable_of_yield hyield ⟨.literal rfl rfl, fun _ => nofun⟩

/-- One step of the bound: a token that begins an expression, what it begins, and the loop behind
it. -/
theorem pinpointsExprs_succ {k m n : Nat}
    (hexpr : PinpointsExprs (k - 1) (expr .standard n) (expr .standard m))
    (hstmt : PinpointsStmts (k - 1) (stmt .standard n) (stmt .standard m)) (hn : k - 1 ≤ n) :
    PinpointsExprs k (expr .standard (n + 1)) (expr .standard (m + 1)) := by
  intro min
  refine ⟨viable_nil, fun c heof hlength => ?_⟩
  obtain ⟨token, rest, hcons⟩ := heof.exists_cons
  rcases hrule : standard.leading token.kind with _ | rule
  · -- no expression begins with the token
    have hadvance : advance c = some (.ok token, ⟨token :: c.consumed, rest⟩) :=
      advance_eq_ok_iff.mpr ⟨hcons, rfl⟩
    have hfail : expr .standard (n + 1) min c =
        some (.error (.noLeadingRule token), ⟨token :: c.consumed, rest⟩) := by
      unfold expr
      rw [Bounded.bind_apply, hadvance]
      simp only [hrule]
      rfl
    refine .fail hcons hfail rfl nofun viable_nil ?_
    intro before behind e d h
    unfold expr at h
    obtain ⟨t, c', ht, hrest⟩ := Bounded.bind_eq_ok_iff.mp h
    cases ht
    simp only [hrule] at hrest
    cases hrest
  · have hne : token.kind ≠ .eof := by
      intro hkind
      rw [hkind] at hrule
      cases hrule
    -- what the token begins has one token less behind it
    have hlength' : rest.length ≤ k - 1 := by
      rw [hcons, List.length_cons] at hlength
      omega
    have hleading := pinpoints_leading hexpr hstmt hn m hrule
    refine .advance hcons hne ?_
    simp only [hrule]
    refine hleading.bindAt (heof.next hcons hne) hlength' ?_ ?_
    · intro ts left d halone hd hlength'' _
      refine (pointsAt_extend hexpr (exprSound_and_takes_stmt .standard n).1 (Nat.le_refl _) hn m
        (.of_noInfix halone.wellFormed halone.noInfix) hd
        (Nat.le_trans hlength'' (Nat.sub_le _ _))).mono ?_
      intro us e he
      refine ⟨?_, he.wellFormed, he.binds⟩
      rw [← he.yield, ← halone.yield, List.cons_append]
    · intro ts left halone
      refine ⟨[], left, .nil, ?_, halone.wellFormed, fun q hq => ?_⟩
      · rw [List.append_nil, halone.yield]
      · rw [halone.noInfix] at hq
        cases hq

/-- The readers of expressions and statements pinpoint the trees of the grammar, under a bound that
is twice the number of the tokens behind the cursor. -/
theorem pinpointsExprs_and_pinpointsStmts (n : Nat) : ∀ n' k,
    (2 * k ≤ n → PinpointsExprs k (expr .standard n) (expr .standard n')) ∧
    (2 * k + 1 ≤ n → PinpointsStmts k (stmt .standard n) (stmt .standard n')) := by
  induction n with
  | zero =>
      intro n' k
      refine ⟨fun hk min => ?_, fun hk => absurd hk (Nat.not_succ_le_zero _)⟩
      obtain rfl : k = 0 := by omega
      exact .zero viable_nil
  | succ n ih =>
      intro n' k
      constructor
      · intro hk min
        refine Pinpoints.of_succ (g := fun m => expr .standard m min) rfl (fun m => ?_) n'
        cases k with
        | zero => exact .zero viable_nil
        | succ k =>
            have hexpr : PinpointsExprs (k + 1 - 1) (expr .standard n) (expr .standard m) :=
              (ih m k).1 (by omega)
            have hstmt : PinpointsStmts (k + 1 - 1) (stmt .standard n) (stmt .standard m) :=
              (ih m k).2 (by omega)
            exact pinpointsExprs_succ hexpr hstmt (by omega) min
      · intro hk
        refine Pinpoints.of_succ (g := fun m => stmt .standard m) rfl (fun m => ?_) n'
        exact pinpoints_statement ((ih m k).1 (by omega)) (Nat.le_refl k) (by omega) m

/-- Under a bound that is more than twice the number of the tokens behind the cursor, the reader of
statements gives a statement or fails at the first token that goes with none. -/
theorem pinpoints_stmt {k n : Nat} (hn : 2 * k + 1 ≤ n) (n' : Nat) :
    PinpointsStmts k (stmt .standard n) (stmt .standard n') :=
  (pinpointsExprs_and_pinpointsStmts n n' k).2 hn

end Parse

end StructScript
