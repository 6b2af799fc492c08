import StructScript.Proofs.Grammar.WellFormed

/-!
# The grammar of the standard table

What the rules of the grammar say for the operators of the language. All of its binary operators
group to the left and bind weaker than its unary operators, so an operand of a unary operator is no
binary operator (`Expr.wellFormed_unary_iff`), and the operands of a binary operator are compared to
it by their outermost operators (`Expr.wellFormed_binary_iff`).
-/

namespace StructScript

namespace OperatorTable

/-- The binary operators of the language group to the left, and none is weakest or as tight as a
unary operator. -/
theorem standard_trailing_binary {kind : TokenKind} {p : Precedence} {groupsRight : Bool}
    (h : standard.trailing kind = some (.binary p groupsRight)) :
    groupsRight = false ∧ .bottom < p ∧ p < .unary := by
  cases kind <;> cases h <;> decide

/-- The token of an infix operator goes on with a right operand, and all of them group to the left.
-/
theorem standard_trailing_of_ofToken? {kind : TokenKind} {op : BinaryOp}
    (h : BinaryOp.ofToken? kind = some op) :
    standard.trailing kind = some (.binary (standard.trailingPrecedence kind) false) := by
  cases kind <;> first | rfl | cases h

/-- The token of a prefix operator begins an expression with an operand. -/
theorem standard_leading_of_ofToken? {kind : TokenKind} {op : UnaryOp}
    (h : UnaryOp.ofToken? kind = some op) : standard.leading kind = some (.operator .unary) := by
  cases kind <;> first | rfl | cases h

/-- All prefix operators bind alike. -/
theorem standard_leading_operator {kind : TokenKind} {p : Precedence}
    (h : standard.leading kind = some (.operator p)) : p = .unary := by
  cases kind <;> cases h <;> rfl

/-- Only a parenthesis makes a call. -/
theorem standard_trailing_call {kind : TokenKind} (h : standard.trailing kind = some .call) :
    kind = .lparen := by
  cases kind <;> cases h
  rfl

/-- The precedence of a token is that of its rule. -/
theorem trailingPrecedence_eq {table : OperatorTable} {kind : TokenKind} {rule : TrailingRule}
    (h : table.trailing kind = some rule) : table.trailingPrecedence kind = rule.precedence := by
  rw [trailingPrecedence, h]

end OperatorTable

namespace ParseTree.Expr

open OperatorTable

/-- The operators between operands are those of the grammar, so each has a strength between that of
the whole expression and that of a unary operator. -/
theorem WellFormed.infixPrecedence? {e : Expr} (he : e.WellFormed .standard) {q : Precedence}
    (hq : q ∈ e.infixPrecedence? .standard) : .bottom < q ∧ q < .unary := by
  cases he with
  | binary hrule =>
      cases hq
      rw [trailingPrecedence_eq hrule]
      exact (standard_trailing_binary hrule).2
  | _ => cases hq

/-- Only an expression whose outermost part is no binary operator binds as tightly as a unary one. -/
theorem WellFormed.infixPrecedence?_eq_none_iff {e : Expr} (he : e.WellFormed .standard) :
    e.infixPrecedence? .standard = none ↔
      ∀ q ∈ e.infixPrecedence? .standard, Precedence.unary ≤ q := by
  constructor
  · intro hnone
    rw [hnone]
    exact nofun
  · intro hbinds
    refine Option.eq_none_iff_forall_not_mem.mpr fun q hq => ?_
    exact Nat.not_lt_of_le (hbinds q hq) (he.infixPrecedence? hq).2

/-- The operators of the language read both their operands by their own strength. -/
theorem WellFormed.rightPrecedence? {e : Expr} (he : e.WellFormed .standard) :
    e.rightPrecedence? .standard = e.infixPrecedence? .standard := by
  cases he with
  | @binary p groupsRight _ _ _ opToken hrule =>
      obtain ⟨rfl, -⟩ := standard_trailing_binary hrule
      simp only [Expr.rightPrecedence?, Expr.infixPrecedence?, OperatorTable.rightPrecedence?,
        hrule, trailingPrecedence_eq hrule]
      rfl
  | _ => rfl

/-- A place is well-formed as an expression if it is as a place. -/
theorem wellFormed_place_iff {p : Place} :
    (place p).WellFormed .standard ↔ p.WellFormed := by
  constructor
  · intro h
    cases h with
    | place _ hp => exact hp
  · exact fun hp => .place rfl hp

/-- The operand of a unary operator is no binary operator. -/
theorem wellFormed_unary_iff {op : UnaryOp} {opToken : Token} {operand : Expr} :
    (unary op opToken operand).WellFormed .standard ↔
      UnaryOp.ofToken? opToken.kind = some op ∧ operand.WellFormed .standard ∧
        operand.infixPrecedence? .standard = none := by
  constructor
  · intro h
    cases h with
    | unary hrule hop hoperand hbinds =>
        refine ⟨hop, hoperand, Option.eq_none_iff_forall_not_mem.mpr fun q hq => ?_⟩
        have hlt := hbinds q hq
        rw [standard_leading_operator hrule] at hlt
        exact Nat.lt_asymm hlt (hoperand.infixPrecedence? hq).2
  · rintro ⟨hop, hoperand, hnone⟩
    refine .unary (standard_leading_of_ofToken? hop) hop hoperand fun q hq => ?_
    rw [hnone] at hq
    cases hq

/-- A binary operator in the left operand binds as tightly at least, and one in the right operand
binds tighter. -/
theorem wellFormed_binary_iff {left right : Expr} {op : BinaryOp} {opToken : Token} :
    (binary left op opToken right).WellFormed .standard ↔
      BinaryOp.ofToken? opToken.kind = some op ∧ left.WellFormed .standard ∧
        right.WellFormed .standard ∧
        (∀ q ∈ left.infixPrecedence? .standard, standard.trailingPrecedence opToken.kind ≤ q) ∧
        ∀ q ∈ right.infixPrecedence? .standard, standard.trailingPrecedence opToken.kind < q := by
  constructor
  · intro h
    cases h with
    | binary hrule hop hleft hright hleftBinds hrightBinds =>
        obtain ⟨rfl, -⟩ := standard_trailing_binary hrule
        rw [hleft.rightPrecedence?] at hleftBinds
        rw [trailingPrecedence_eq hrule]
        exact ⟨hop, hleft, hright, hleftBinds, hrightBinds⟩
  · rintro ⟨hop, hleft, hright, hleftBinds, hrightBinds⟩
    rw [← hleft.rightPrecedence?] at hleftBinds
    exact .binary (standard_trailing_of_ofToken? hop) hop hleft hright hleftBinds hrightBinds

end ParseTree.Expr

namespace ParseTree

/-! ### First tokens -/

/-- An expression begins with a token that the table has a rule for. -/
theorem Expr.WellFormed.begins {table : OperatorTable} {e : Expr} (he : e.WellFormed table) :
    ∃ token us, e.yield = token :: us ∧ ∃ rule, table.leading token.kind = some rule := by
  cases he with
  | literal hrule => exact ⟨_, _, rfl, _, hrule⟩
  | @place p hrule hp => exact ⟨_, _, p.yield_eq_cons, _, hp.firstToken ▸ hrule⟩
  | @struct type lbrace rbrace inits hrule hname =>
      refine ⟨type.name, type.yield.tail ++ (lbrace :: (Expr.initsYield inits ++ [rbrace])), ?_, _,
        hname ▸ hrule⟩
      rw [Expr.yield, type.yield_eq_cons]
      rfl
  | unary hrule => exact ⟨_, _, rfl, _, hrule⟩
  | @binary _ _ left right _ opToken _ _ hleft =>
      obtain ⟨token, us, hus, hrule⟩ := hleft.begins
      refine ⟨token, us ++ (opToken :: right.yield), ?_, hrule⟩
      rw [Expr.yield, hus]
      rfl
  | group hrule => exact ⟨_, _, rfl, _, hrule⟩
  | @call callee lparen rparen args hrule hcallee =>
      refine ⟨callee.firstToken, callee.yield.tail ++ (lparen :: (Expr.argsYield args ++ [rparen])),
        ?_, _, hcallee.firstToken ▸ hrule⟩
      rw [Expr.yield, callee.yield_eq_cons]
      rfl
  | func hrule => exact ⟨_, _, rfl, _, hrule⟩

/-- A statement begins with a keyword of statements or with an expression. -/
theorem Stmt.WellFormed.begins {s : Stmt} (hs : s.WellFormed .standard) :
    ∃ token us, s.yield = token :: us ∧ token.kind ≠ .eof ∧ token.kind ≠ .rbrace := by
  cases hs with
  | typeDef hkw => exact ⟨_, _, rfl, by rw [hkw]; decide, by rw [hkw]; decide⟩
  | define hkw => exact ⟨_, _, rfl, by rw [hkw]; decide, by rw [hkw]; decide⟩
  | assign hkw => exact ⟨_, _, rfl, by rw [hkw]; decide, by rw [hkw]; decide⟩
  | @ret _ _ value hkw =>
      cases value <;> exact ⟨_, _, rfl, by rw [hkw]; decide, by rw [hkw]; decide⟩
  | @expr e semicolon he =>
      obtain ⟨token, us, hus, rule, hrule⟩ := he.begins
      refine ⟨token, us ++ [semicolon], by rw [Stmt.yield, hus]; rfl, fun hkind => ?_,
        fun hkind => ?_⟩
      all_goals
        rw [hkind] at hrule
        cases hrule

/-- A statement ends with its semicolon. -/
theorem Stmt.WellFormed.ends {table : OperatorTable} {s : Stmt} (hs : s.WellFormed table) :
    ∃ ts t, s.yield = ts ++ [t] ∧ t.kind = .semicolon := by
  cases hs with
  | @typeDef typeKw eq semicolon name definition _ _ _ _ hsemicolon =>
      exact ⟨typeKw :: (name.yield ++ (eq :: definition.yield)), semicolon, by simp [Stmt.yield],
        hsemicolon⟩
  | @define letKw eq semicolon target value _ _ _ _ hsemicolon =>
      exact ⟨letKw :: (target.yield ++ (eq :: value.yield)), semicolon, by simp [Stmt.yield],
        hsemicolon⟩
  | @assign setKw eq semicolon target value _ _ _ _ hsemicolon =>
      exact ⟨setKw :: (target.yield ++ (eq :: value.yield)), semicolon, by simp [Stmt.yield],
        hsemicolon⟩
  | @ret returnKw semicolon value _ _ hsemicolon =>
      cases value with
      | none => exact ⟨[returnKw], semicolon, rfl, hsemicolon⟩
      | some value => exact ⟨returnKw :: value.yield, semicolon, rfl, hsemicolon⟩
  | @expr e semicolon _ hsemicolon => exact ⟨e.yield, semicolon, rfl, hsemicolon⟩

/-- Some statements have as many tokens as statements. -/
theorem Stmt.length_le_length_listYield {stmts : List Stmt}
    (h : ∀ s ∈ stmts, s.WellFormed .standard) :
    stmts.length ≤ (Stmt.listYield stmts).length := by
  induction stmts with
  | nil => exact Nat.le_refl 0
  | cons first rest ih =>
      obtain ⟨hfirst, hrest⟩ := List.forall_mem_cons.mp h
      obtain ⟨token, us, hus, -⟩ := hfirst.begins
      have hlen := ih hrest
      simp only [Stmt.listYield, hus, List.length_append, List.length_cons]
      omega

end ParseTree

end StructScript
