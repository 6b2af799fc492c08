import StructScript.Proofs.Grammar.Standard
import StructScript.Proofs.Reading.Declaration
import StructScript.Reading.Program

/-!
# Completeness of the readers

By the standard table, every tree of the grammar is read from its yield, before any token that does
not continue it. The induction is on the bound: the readers under a bound read what has fewer tokens
than the bound says (`ReadsExprs`, `ReadsStmts`). Inside it, precedence climbing goes up the left
edge of an expression, so that the reader comes to the loop with every expression on that edge in
turn (`becomes_extend`).

Main results: `reads_expr`, `reads_stmt`, `reads_program`.
-/

namespace StructScript

namespace ParseTree.Expr

/-- How often an expression is continued behind what it begins with. -/
def trailers : Expr → Nat
  | binary left .. => left.trailers + 1
  | call .. => 1
  | _ => 0

/-- The strength at which the last operand of an expression is read by the standard table. -/
def edge : Expr → Precedence
  | unary .. => .unary
  | binary _ _ opToken _ => OperatorTable.standard.trailingPrecedence opToken.kind
  | _ => .call

/-- An operator or a call behind an expression has two tokens at least. -/
theorem trailers_lt_length_yield (e : Expr) (he : e.WellFormed .standard) :
    e.trailers < e.yield.length := by
  obtain ⟨token, us, hus, -⟩ := he.begins
  cases e with
  | binary left op opToken right =>
      have hleft := left.trailers_lt_length_yield (wellFormed_binary_iff.mp he).2.1
      simp only [trailers, Expr.yield, List.length_append, List.length_cons]
      omega
  | call callee lparen args rparen =>
      simp only [trailers, Expr.yield, List.length_append, List.length_cons]
      omega
  | _ =>
      rw [hus]
      exact Nat.zero_lt_succ _

/-- What binds tighter than `min` has its last operand read at `min` or tighter. -/
theorem le_edge {p : Precedence} (e : Expr) (hp : p < .call)
    (h : ∀ q ∈ e.infixPrecedence? .standard, p ≤ q) : p ≤ e.edge := by
  cases e with
  | unary => exact Nat.le_of_lt_succ hp
  | binary => exact h _ rfl
  | _ => exact Nat.le_of_lt hp

end ParseTree.Expr

namespace Parse

open ParseTree OperatorTable

/-- Whether a token of this kind ends an expression that is read at a strength: it neither goes on
with a place or a struct literal nor binds tighter. -/
def Ends (min : Precedence) (kind : TokenKind) : Prop :=
  kind ∉ [TokenKind.lbrace, .lbracket, .arrow] ∧ standard.trailingPrecedence kind ≤ min

instance (min : Precedence) (kind : TokenKind) : Decidable (Ends min kind) :=
  inferInstanceAs (Decidable (_ ∧ _))

/-- What ends an expression of weak operators ends one of stronger operators. -/
theorem Ends.mono {p q : Precedence} {kind : TokenKind} (h : Ends p kind) (hpq : p ≤ q) :
    Ends q kind :=
  ⟨h.1, Nat.le_trans h.2 hpq⟩

/-- A binary operator ends every expression that is read at its own strength. -/
theorem Ends.of_trailing {kind : TokenKind} {p : Precedence} {groupsRight : Bool}
    (h : standard.trailing kind = some (.binary p groupsRight)) : Ends p kind := by
  refine ⟨?_, by rw [trailingPrecedence_eq h]; exact Nat.le_refl _⟩
  cases kind <;> first | decide | cases h

/-- `expr` reads every expression of fewer than `n` tokens before a token that ends it. -/
def ReadsExprs (expr : Precedence → Parse Expr) (n : Nat) : Prop :=
  ∀ {min e t rest}, e.WellFormed .standard → e.yield.length < n → min < .call →
    (∀ q ∈ e.infixPrecedence? .standard, min < q) → Ends min t.kind →
      Reads (expr min) e.yield e (t :: rest)

/-- `stmt` reads every statement of fewer than `n` tokens. -/
def ReadsStmts (stmt : Parse Stmt) (n : Nat) : Prop :=
  ∀ {s rest}, s.WellFormed .standard → s.yield.length < n → Reads stmt s.yield s rest

section Expressions

variable {expr : Precedence → Parse Expr} {stmt : Parse Stmt} {n : Nat} {t : Token}
  {rest : List Token}

/-- An expression that may have any operators is read. -/
theorem ReadsExprs.bottom (hexpr : ReadsExprs expr n) {e : Expr} (he : e.WellFormed .standard)
    (hn : e.yield.length < n) (ht : Ends .bottom t.kind) :
    Reads (expr .bottom) e.yield e (t :: rest) :=
  hexpr he hn (by decide) (fun _ hq => (he.infixPrecedence? hq).1) ht

/-! ### What an expression begins with -/

/-- A well-formed initialiser is read before a token that ends its value. -/
theorem reads_fieldInit (hexpr : ReadsExprs expr n) {init : FieldInit}
    (hinit : init.WellFormed .standard) (hn : init.yield.length ≤ n) (ht : Ends .bottom t.kind) :
    Reads (fieldInit expr) init.yield init (t :: rest) := by
  cases hinit with
  | mk hname hcolon hvalue =>
      simp only [FieldInit.yield, List.length_cons] at hn
      rw [FieldInit.yield]
      refine Becomes.expect hname (Becomes.expect hcolon ?_)
      exact Becomes.bind_last (hexpr.bottom hvalue (by omega) ht) (.refl _ _)

/-- A well-formed struct literal whose name has been taken is read, whatever follows its brace. -/
theorem reads_structLiteral (hexpr : ReadsExprs expr n) {type : TypeRef} {lbrace rbrace : Token}
    {inits : List (Item FieldInit)} (htype : type.WellFormed) (hlbrace : lbrace.kind = .lbrace)
    (hinits : Separated.Punctuated .comma true inits)
    (hvalues : ∀ init ∈ Separated.values inits, init.WellFormed .standard)
    (hrbrace : rbrace.kind = .rbrace)
    (hn : (Expr.struct type lbrace inits rbrace).yield.length ≤ n) :
    Reads (structLiteral n expr type.name)
      (type.yield.tail ++ (lbrace :: (Expr.initsYield inits ++ [rbrace])))
      (.struct type lbrace inits rbrace) rest := by
  rw [Expr.yield, Expr.initsYield_eq, type.yield_eq_cons] at hn
  simp only [List.length_append, List.length_cons] at hn
  rw [Expr.initsYield_eq]
  have hbegins : BeginsItems .rbrace FieldInit.yield inits := by
    intro init hinit
    obtain ⟨hname, -, -⟩ := hvalues init hinit
    exact ⟨_, _, rfl, by rw [hname]; decide⟩
  refine Becomes.within (Becomes.bind (Becomes.within ?_) (Becomes.expect hlbrace
    (Becomes.bind (Becomes.within ?_) (Becomes.expect hrbrace (.refl _ _)))))
  · refine reads_typeArgs reads_typeRef htype ?_ (by rw [hlbrace]; decide)
    rw [type.yield_eq_cons, List.length_cons]
    omega
  · refine reads_openList (by decide) hrbrace (fun init hinit u us hu => ?_) hbegins hinits ?_
    · have hlen := Separated.length_yield_le FieldInit.yield hinit
      refine reads_fieldInit hexpr (hvalues init hinit) (by omega) ?_
      rcases hu with hu | hu <;> rw [hu] <;> decide
    · have hlen := hbegins.length_le
      omega

/-- A brace or a bracket behind a name makes it a struct literal. -/
theorem reads_named_struct {type : TypeRef} {lbrace : Token} {us : List Token} {e : Expr}
    (hname : type.name.kind = .ident) (htype : type.WellFormed) (hlbrace : lbrace.kind = .lbrace)
    (h : Reads (structLiteral n expr type.name) (type.yield.tail ++ lbrace :: us) e rest) :
    Reads (named n expr type.name) (type.yield.tail ++ lbrace :: us) e rest := by
  unfold named
  rw [if_pos hname]
  cases htype with
  | plain _ =>
      refine Becomes.checkAny rfl ?_
      rwa [hlbrace]
  | applied _ hlbracket =>
      refine Becomes.checkAny rfl ?_
      rwa [hlbracket]

/-- A place whose name has been taken is read as one before a token that begins no struct literal.
-/
theorem reads_named_place {p : Place} (hp : p.WellFormed) (hn : p.depth < n)
    (ht : t.kind ∉ [TokenKind.lbrace, .lbracket, .arrow]) :
    Reads (named n expr p.firstToken) p.yield.tail (.place p) (t :: rest) := by
  simp only [List.mem_cons, List.not_mem_nil, or_false, not_or] at ht
  have hread : Reads (Expr.place <$> placeFrom n p.firstToken) p.yield.tail (.place p)
      (t :: rest) :=
    Becomes.map (reads_placeFrom hp hn ht.2.2)
  unfold named
  rw [if_pos hp.firstToken]
  rcases hp.yield_tail with ⟨name, rfl⟩ | ⟨arrow, us, hus, harrow⟩
  · refine Becomes.checkAny rfl ?_
    rwa [if_neg (by simp [ht.1, ht.2.1])]
  · refine Becomes.checkAny (by rw [hus]; rfl) ?_
    rwa [harrow]

/-- An expression in parentheses is read, whatever follows them. -/
theorem reads_group (hexpr : ReadsExprs expr n) {lparen rparen : Token} {inner : Expr}
    (hinner : inner.WellFormed .standard) (hn : inner.yield.length < n)
    (hrparen : rparen.kind = .rparen) :
    Reads (group expr lparen) (inner.yield ++ [rparen]) (.group lparen inner rparen) rest := by
  refine Becomes.within (Becomes.bind ?_ (Becomes.expect hrparen (.refl _ _)))
  exact hexpr.bottom hinner hn (by rw [hrparen]; decide)

/-- The operand of a prefix operator is read before a token that ends it. -/
theorem reads_operand (hexpr : ReadsExprs expr n) {op : UnaryOp} {opToken : Token} {inner : Expr}
    (hinner : inner.WellFormed .standard) (hnone : inner.infixPrecedence? .standard = none)
    (hn : inner.yield.length < n) (ht : Ends .unary t.kind) :
    Reads (operand expr .unary op opToken) inner.yield (.unary op opToken inner) (t :: rest) := by
  refine Becomes.within (Becomes.bind_last ?_ (.refl _ _))
  exact hexpr hinner hn (by decide) (fun q hq => by rw [hnone] at hq; cases hq) ht

/-- A parameter is read before a token that does not open type arguments. -/
theorem reads_param {param : Param} (hparam : param.WellFormed) (hn : param.yield.length ≤ n)
    (ht : t.kind ≠ .lbracket) : Reads (Parse.param n) param.yield param (t :: rest) := by
  have htype : param.type.yield.length ≤ n := Nat.le_of_succ_le hn
  exact Becomes.expect hparam.name
    (Becomes.bind_last (reads_typeRef hparam.type htype ht) (.refl _ _))

/-- Well-formed statements are read before a closing brace. -/
theorem reads_block (hstmt : ReadsStmts stmt n) : ∀ {stmts : List Stmt} {m : Nat},
    (∀ s ∈ stmts, s.WellFormed .standard) → (Stmt.listYield stmts).length < n → stmts.length < m →
      t.kind = .rbrace → Reads (block stmt m) (Stmt.listYield stmts) stmts (t :: rest)
  | [], m + 1, _, _, _, ht => Becomes.check_pos rfl ht (.refl _ _)
  | first :: stmts, m + 1, hstmts, hn, hm, ht => by
      obtain ⟨hfirst, hstmts⟩ := List.forall_mem_cons.mp hstmts
      obtain ⟨token, us, hus, heof, hrbrace⟩ := hfirst.begins
      simp only [Stmt.listYield, List.length_append] at hn
      refine Becomes.check_neg (by rw [Stmt.listYield, hus]; rfl) hrbrace
        (Becomes.check_neg (by rw [Stmt.listYield, hus]; rfl) heof ?_)
      refine Becomes.bind (hstmt hfirst (by omega)) (Becomes.bind_last ?_ (.refl _ _))
      exact reads_block hstmt hstmts (by omega) (Nat.lt_of_succ_lt_succ hm) ht

/-- A well-formed function literal whose keyword has been taken is read, whatever follows its brace.
-/
theorem reads_func (hstmt : ReadsStmts stmt n) {funcKw lparen rparen lbrace rbrace : Token}
    {params : Separated Param} {result : Option TypeRef} {body : List Stmt}
    (he : (Expr.func funcKw lparen params rparen result lbrace body rbrace).WellFormed .standard)
    (hn : (Expr.func funcKw lparen params rparen result lbrace body rbrace).yield.length ≤ n) :
    Reads (func n stmt funcKw)
      (lparen :: (Separated.yield Param.yield params ++ (rparen ::
        (result.elim [] TypeRef.yield ++ (lbrace :: (Stmt.listYield body ++ [rbrace]))))))
      (.func funcKw lparen params rparen result lbrace body rbrace) rest := by
  cases he with
  | func hrule hlparen hparams hvalues hrparen hresult hlbrace hbody hrbrace =>
  simp only [Expr.yield, List.length_append, List.length_cons] at hn
  have tail : Reads (do
      let lbrace ← expect .lbrace
      let body ← within .funcBody (block stmt n)
      let rbrace ← expect .rbrace
      return Expr.func funcKw lparen params rparen result lbrace body rbrace)
      (lbrace :: (Stmt.listYield body ++ [rbrace]))
      (.func funcKw lparen params rparen result lbrace body rbrace) rest := by
    refine Becomes.expect hlbrace (Becomes.bind (Becomes.within ?_)
      (Becomes.expect hrbrace (.refl _ _)))
    have hlen := Stmt.length_le_length_listYield hbody
    exact reads_block hstmt hbody (by omega) (by omega) hrbrace
  have hbegins : BeginsItems .rparen Param.yield params := by
    intro param hparam
    exact ⟨param.name, _, rfl, by rw [(hvalues param hparam).name]; decide⟩
  have hread : Reads (closedList .comma .rparen (param n) n) (Separated.yield Param.yield params)
      params (rparen :: (result.elim [] TypeRef.yield ++
        (lbrace :: (Stmt.listYield body ++ [rbrace]))) ++ rest) := by
    refine reads_closedList (by decide) hrparen (fun param hparam u us hu => ?_) hbegins hparams ?_
    · have hlen := Separated.length_yield_le Param.yield hparam
      refine reads_param (hvalues param hparam) (by omega) ?_
      rcases hu with hu | hu <;> rw [hu] <;> decide
    · have hlen := hbegins.length_le
      omega
  refine Becomes.within (Becomes.expect hlparen (Becomes.bind hread.within
    (Becomes.expect hrparen ?_)))
  cases result with
  | none => exact Becomes.check_pos rfl hlbrace tail
  | some type =>
      have htype : type.WellFormed := hresult type rfl
      have hresult : Reads (some <$> typeRef n) type.yield (some type)
          (lbrace :: (Stmt.listYield body ++ [rbrace]) ++ rest) := by
        simp only [Option.elim_some] at hn
        exact Becomes.map (reads_typeRef htype (by omega) (by rw [hlbrace]; decide))
      rw [Option.elim_some]
      rw [type.yield_eq_cons] at hresult ⊢
      refine Becomes.check_neg rfl ?_ (Becomes.bind hresult tail)
      rcases htype.name with hname | hname <;> rw [hname] <;> decide

/-- What stands alone is read by the rule of its first token. -/
theorem reads_leading (hexpr : ReadsExprs expr n) (hstmt : ReadsStmts stmt n) {e : Expr}
    (he : e.WellFormed .standard) (hn : e.yield.length ≤ n) (ht : Ends e.edge t.kind)
    (hleading : e.trailers = 0) :
    ∃ token us rule, e.yield = token :: us ∧ standard.leading token.kind = some rule ∧
      Reads (leading n expr stmt rule token) us e (t :: rest) := by
  cases he with
  | @literal kind token hrule hkind =>
      refine ⟨token, [], .literal, rfl, hrule, ?_⟩
      simp only [leading, hkind]
      exact .refl _ _
  | @place p _ hp =>
      refine ⟨p.firstToken, p.yield.tail, .ident, p.yield_eq_cons, by rw [hp.firstToken]; rfl, ?_⟩
      exact reads_named_place hp (Nat.lt_of_lt_of_le p.depth_lt_length_yield hn) ht.1
  | @struct type lbrace rbrace inits _ hname htype hlbrace hinits hvalues hrbrace =>
      refine ⟨type.name, type.yield.tail ++ (lbrace :: (Expr.initsYield inits ++ [rbrace])), .ident,
        by rw [Expr.yield, type.yield_eq_cons]; rfl, by rw [hname]; rfl, ?_⟩
      exact reads_named_struct hname htype hlbrace
        (reads_structLiteral hexpr htype hlbrace hinits hvalues hrbrace hn)
  | @unary p op opToken operand hrule hop hoperand hbinds =>
      obtain rfl := standard_leading_operator hrule
      refine ⟨opToken, operand.yield, .operator .unary, rfl, hrule, ?_⟩
      have hnone := (Expr.wellFormed_unary_iff.mp (.unary hrule hop hoperand hbinds)).2.2
      simp only [leading, hop]
      exact reads_operand hexpr hoperand hnone hn ht
  | binary => cases hleading
  | @group lparen rparen inner hrule hinner hrparen =>
      simp only [Expr.yield, List.length_cons, List.length_append] at hn
      exact ⟨lparen, inner.yield ++ [rparen], .group, rfl, hrule,
        reads_group hexpr hinner (by omega) hrparen⟩
  | call => cases hleading
  | func hrule hlparen hparams hvalues hrparen hresult hlbrace hbody hrbrace =>
      exact ⟨_, _, .func, rfl, hrule, reads_func hstmt
        (.func hrule hlparen hparams hvalues hrparen hresult hlbrace hbody hrbrace) hn⟩

/-! ### Precedence climbing -/

/-- One round of precedence climbing. -/
theorem becomes_extend_succ {min : Precedence} {rule : TrailingRule} {left longer : Expr}
    {token : Token} {us : List Token} (hrule : standard.trailing token.kind = some rule)
    (hmin : min < rule.precedence) (h : Reads (trailing n expr rule left token) us longer rest) :
    Becomes (extend .standard expr min (n + 1) left) (token :: us)
      (extend .standard expr min n longer) rest := by
  refine Becomes.peek rfl ?_
  have hgt : ¬ rule.precedence ≤ min := Nat.not_le_of_lt hmin
  simp only [hrule]
  rw [if_neg hgt]
  exact Becomes.advance (Becomes.bind_last h (.refl _ _))

/-- Precedence climbing ends before a token that does not bind tighter. -/
theorem reads_extend_of_ends {min : Precedence} {e : Expr} (ht : Ends min t.kind) :
    Reads (extend .standard expr min (n + 1) e) [] e (t :: rest) := by
  refine Becomes.peek rfl ?_
  rcases hrule : standard.trailing t.kind with _ | rule
  · exact .refl _ _
  · have hle := ht.2
    rw [trailingPrecedence_eq hrule] at hle
    dsimp only
    rw [if_pos hle]
    exact .refl _ _

/-- Behind a left operand and an operator, the right operand is read. -/
theorem reads_trailing_binary {p : Precedence} {op : BinaryOp} {opToken : Token}
    {left right : Expr} (hop : BinaryOp.ofToken? opToken.kind = some op)
    (hright : Reads (expr p) right.yield right rest) :
    Reads (trailing n expr (.binary p false) left opToken) right.yield
      (.binary left op opToken right) rest := by
  simp only [trailing, hop]
  exact Becomes.within (Becomes.bind_last hright (.refl _ _))

/-- Behind a callee and a parenthesis, the arguments are read. -/
theorem reads_trailing_call {m : Nat} (hexpr : ReadsExprs expr n) {callee : Place}
    {lparen rparen : Token} {args : List (Item Expr)}
    (hargs : Separated.Punctuated .comma false args)
    (hvalues : ∀ arg ∈ Separated.values args, arg.WellFormed .standard)
    (hrparen : rparen.kind = .rparen) (hn : (Expr.argsYield args).length < n)
    (hm : (Expr.argsYield args).length ≤ m) :
    Reads (trailing m expr .call (.place callee) lparen) (Expr.argsYield args ++ [rparen])
      (.call callee lparen args rparen) rest := by
  rw [Expr.argsYield_eq] at hn hm ⊢
  have hbegins : BeginsItems .rparen Expr.yield args := by
    intro arg harg
    obtain ⟨token, us, hus, rule, hrule⟩ := (hvalues arg harg).begins
    refine ⟨token, us, hus, fun hkind => ?_⟩
    rw [hkind] at hrule
    cases hrule
  refine Becomes.within (Becomes.bind (reads_closedList (by decide) hrparen
    (fun arg harg u us hu => ?_) hbegins hargs (Nat.le_trans hbegins.length_le hm))
    (Becomes.expect hrparen (.refl _ _)))
  have hlen := Separated.length_yield_le Expr.yield harg
  refine hexpr.bottom (hvalues arg harg) (by omega) ?_
  rcases hu with hu | hu <;> rw [hu] <;> decide

end Expressions

/-- The reader of expressions comes to the loop of precedence climbing with what an expression
begins with. -/
theorem becomes_extend_of_leading {n : Nat} {min : Precedence} {e : Expr} {t : Token}
    {rest : List Token} (hexpr : ReadsExprs (expr .standard n) n)
    (hstmt : ReadsStmts (stmt .standard n) n) (he : e.WellFormed .standard)
    (hn : e.yield.length ≤ n) (ht : Ends e.edge t.kind) (hleading : e.trailers = 0) :
    Becomes (expr .standard (n + 1) min) e.yield (extend .standard (expr .standard n) min n e)
      (t :: rest) := by
  obtain ⟨token, us, rule, hus, hrule, hread⟩ := reads_leading hexpr hstmt he hn ht hleading
  rw [hus]
  refine Becomes.advance ?_
  simp only [hrule]
  exact Becomes.bind_last hread (.refl _ _)

/-- The reader of expressions comes to the loop of precedence climbing with every expression of the
grammar, and has then used one round for every operator and call on the way up its left edge. -/
theorem becomes_extend {n : Nat} {min : Precedence} (hexpr : ReadsExprs (expr .standard n) n)
    (hstmt : ReadsStmts (stmt .standard n) n) (hmin : min < .call) (e : Expr) {k : Nat} {t : Token}
    {rest : List Token} (he : e.WellFormed .standard) (hn : e.yield.length ≤ n)
    (hbinds : ∀ q ∈ e.infixPrecedence? .standard, min < q) (ht : Ends e.edge t.kind)
    (hk : k + e.trailers = n) :
    Becomes (expr .standard (n + 1) min) e.yield (extend .standard (expr .standard n) min k e)
      (t :: rest) := by
  cases e with
  | binary left op opToken right =>
      obtain ⟨hop, hleft, hright, hleftBinds, hrightBinds⟩ := Expr.wellFormed_binary_iff.mp he
      have hrule := standard_trailing_of_ofToken? hop
      have hp := (standard_trailing_binary hrule).2
      simp only [Expr.yield, List.length_append, List.length_cons] at hn
      have hminp : min < standard.trailingPrecedence opToken.kind := hbinds _ rfl
      have hedge : standard.trailingPrecedence opToken.kind ≤ left.edge := left.le_edge
        (Nat.lt_of_lt_of_le hp.2 (by decide)) hleftBinds
      -- the rounds come to the left operand, which leaves one round for this operator
      have hbegin : Becomes (expr .standard (n + 1) min) left.yield
          (extend .standard (expr .standard n) min (k + 1) left)
          ((opToken :: right.yield) ++ t :: rest) :=
        becomes_extend hexpr hstmt hmin left hleft (by omega)
          (fun q hq => Nat.lt_of_lt_of_le hminp (hleftBinds q hq))
          ((Ends.of_trailing hrule).mono hedge)
          (by rw [← hk, Expr.trailers]; omega)
      refine hbegin.trans (becomes_extend_succ hrule hminp (reads_trailing_binary hop ?_))
      exact hexpr hright (by omega) (Nat.lt_of_lt_of_le hp.2 (by decide)) hrightBinds ht
  | call callee lparen args rparen =>
      cases he with
      | call hleading hcallee hrule hargs hvalues hrparen =>
          -- the callee is read by a leading rule, so this is the first round
          have hlparen := standard_trailing_call hrule
          simp only [Expr.yield, List.length_append, List.length_cons] at hn
          have hbegin : Becomes (expr .standard (n + 1) min) callee.yield
              (extend .standard (expr .standard n) min (k + 1) (.place callee))
              ((lparen :: (Expr.argsYield args ++ [rparen])) ++ t :: rest) := by
            obtain rfl : k + 1 = n := hk
            refine becomes_extend_of_leading hexpr hstmt (.place hleading hcallee) ?_ ?_ rfl
            · rw [Expr.yield]
              omega
            · rw [hlparen]
              show Ends .call .lparen
              decide
          refine hbegin.trans (becomes_extend_succ hrule hmin ?_)
          have hkn : k + 1 = n := hk
          exact reads_trailing_call hexpr hargs hvalues hrparen (by omega) (by omega)
  | _ =>
      -- everything else is read before the first round
      obtain rfl : k = n := hk
      exact becomes_extend_of_leading hexpr hstmt he hn ht rfl

/-! ### Statements -/

section Statements

variable {expr : Precedence → Parse Expr} {n : Nat} {rest : List Token}

/-- A well-formed type definition is read. -/
theorem reads_typeDefinition {typeKw eq semicolon : Token} {name : TypeRef} {definition : StructDef}
    (hs : (Stmt.typeDef typeKw name eq definition semicolon).WellFormed .standard)
    (hn : (Stmt.typeDef typeKw name eq definition semicolon).yield.length ≤ n) :
    Reads (typeDefinition n) (Stmt.typeDef typeKw name eq definition semicolon).yield
      (.typeDef typeKw name eq definition semicolon) rest := by
  cases hs with
  | typeDef htypeKw hname heq hdefinition hsemicolon =>
      simp only [Stmt.yield, List.length_append, List.length_cons] at hn
      refine Becomes.within (Becomes.expect htypeKw (Becomes.bind ?_ (Becomes.expect heq
        (Becomes.bind ?_ (Becomes.expect hsemicolon (.refl _ _))))))
      · exact reads_typeRef hname (by omega) (by rw [heq]; decide)
      · exact reads_structDef hdefinition (by omega)

/-- A well-formed definition is read. -/
theorem reads_definition (hexpr : ReadsExprs expr n) {letKw eq semicolon : Token} {target : Place}
    {value : Expr} (hs : (Stmt.define letKw target eq value semicolon).WellFormed .standard)
    (hn : (Stmt.define letKw target eq value semicolon).yield.length ≤ n) :
    Reads (definition n expr) (Stmt.define letKw target eq value semicolon).yield
      (.define letKw target eq value semicolon) rest := by
  cases hs with
  | define hletKw htarget heq hvalue hsemicolon =>
      simp only [Stmt.yield, List.length_append, List.length_cons] at hn
      refine Becomes.within (Becomes.expect hletKw (Becomes.bind ?_ (Becomes.expect heq
        (Becomes.bind ?_ (Becomes.expect hsemicolon (.refl _ _))))))
      · exact reads_place htarget (by omega) (by rw [heq]; decide)
      · exact hexpr.bottom hvalue (by omega) (by rw [hsemicolon]; decide)

/-- A well-formed assignment is read. -/
theorem reads_assignment (hexpr : ReadsExprs expr n) {setKw eq semicolon : Token} {target : Place}
    {value : Expr} (hs : (Stmt.assign setKw target eq value semicolon).WellFormed .standard)
    (hn : (Stmt.assign setKw target eq value semicolon).yield.length ≤ n) :
    Reads (assignment n expr) (Stmt.assign setKw target eq value semicolon).yield
      (.assign setKw target eq value semicolon) rest := by
  cases hs with
  | assign hsetKw htarget heq hvalue hsemicolon =>
      simp only [Stmt.yield, List.length_append, List.length_cons] at hn
      refine Becomes.within (Becomes.expect hsetKw (Becomes.bind ?_ (Becomes.expect heq
        (Becomes.bind ?_ (Becomes.expect hsemicolon (.refl _ _))))))
      · exact reads_place htarget (by omega) (by rw [heq]; decide)
      · exact hexpr.bottom hvalue (by omega) (by rw [hsemicolon]; decide)

/-- A well-formed return is read, with a value or without. -/
theorem reads_returnStatement (hexpr : ReadsExprs expr n) {returnKw semicolon : Token}
    {value : Option Expr} (hs : (Stmt.ret returnKw value semicolon).WellFormed .standard)
    (hn : (Stmt.ret returnKw value semicolon).yield.length ≤ n) :
    Reads (returnStatement expr) (Stmt.ret returnKw value semicolon).yield
      (.ret returnKw value semicolon) rest := by
  cases hs with
  | ret hreturnKw hvalue hsemicolon =>
      cases value with
      | none =>
          exact Becomes.within (Becomes.expect hreturnKw (Becomes.check_pos rfl hsemicolon
            (Becomes.expect hsemicolon (.refl _ _))))
      | some e =>
          have he : e.WellFormed .standard := hvalue e rfl
          obtain ⟨token, us, hus, rule, hrule⟩ := he.begins
          simp only [Stmt.yield, List.length_append, List.length_cons] at hn
          have hread : Reads (some <$> expr .bottom) e.yield (some e) (semicolon :: rest) :=
            Becomes.map (hexpr.bottom he (by omega) (by rw [hsemicolon]; decide))
          rw [hus] at hread
          rw [Stmt.yield, hus]
          refine Becomes.within (Becomes.expect hreturnKw (Becomes.check_neg rfl (fun hkind => ?_)
            (Becomes.bind hread (Becomes.expect hsemicolon (.refl _ _)))))
          rw [hkind] at hrule
          cases hrule

/-- A well-formed expression statement is read. -/
theorem reads_exprStatement (hexpr : ReadsExprs expr n) {e : Expr} {semicolon : Token}
    (he : e.WellFormed .standard) (hsemicolon : semicolon.kind = .semicolon)
    (hn : e.yield.length < n) :
    Reads (exprStatement expr) (e.yield ++ [semicolon]) (.expr e semicolon) rest := by
  refine Becomes.within (Becomes.bind ?_ (Becomes.expect hsemicolon (.refl _ _)))
  exact hexpr.bottom he hn (by rw [hsemicolon]; decide)

/-- The first token of a statement tells which one it is. -/
theorem reads_statement (hexpr : ReadsExprs expr n) {s : Stmt} (hs : s.WellFormed .standard)
    (hn : s.yield.length ≤ n) : Reads (statement n expr) s.yield s rest := by
  refine Becomes.within ?_
  cases s with
  | typeDef typeKw name eq definition semicolon =>
      have hkw : typeKw.kind = .typeKw := by cases hs; assumption
      refine Becomes.peek rfl ?_
      rw [hkw]
      exact reads_typeDefinition hs hn
  | define letKw target eq value semicolon =>
      have hkw : letKw.kind = .letKw := by cases hs; assumption
      refine Becomes.peek rfl ?_
      rw [hkw]
      exact reads_definition hexpr hs hn
  | assign setKw target eq value semicolon =>
      have hkw : setKw.kind = .setKw := by cases hs; assumption
      refine Becomes.peek rfl ?_
      rw [hkw]
      exact reads_assignment hexpr hs hn
  | ret returnKw value semicolon =>
      have hkw : returnKw.kind = .returnKw := by cases hs; assumption
      have hhead : ((Stmt.ret returnKw value semicolon).yield ++ rest).head? = some returnKw := by
        cases value <;> rfl
      refine Becomes.peek hhead ?_
      rw [hkw]
      exact reads_returnStatement hexpr hs hn
  | expr e semicolon =>
      cases hs with
      | expr he hsemicolon =>
          obtain ⟨token, us, hus, rule, hrule⟩ := he.begins
          simp only [Stmt.yield, List.length_append, List.length_cons] at hn
          have hread : Reads (exprStatement expr) (e.yield ++ [semicolon]) (.expr e semicolon)
            rest :=
            reads_exprStatement hexpr he hsemicolon (by omega)
          rw [hus] at hread
          rw [Stmt.yield, hus]
          refine Becomes.peek rfl ?_
          split
          case h_5 => exact hread
          all_goals
            rename_i hkind
            rw [hkind] at hrule
            cases hrule

end Statements

/-! ### Whole readers -/

/-- One step of the bound: the token that begins an expression, what it begins, and the operators
along the left spine. -/
theorem readsExprs_succ {n : Nat} (hexpr : ReadsExprs (expr .standard n) n)
    (hstmt : ReadsStmts (stmt .standard n) n) :
    ReadsExprs (expr .standard (n + 1)) (n + 1) := by
  intro min e t rest he hn hmin hbinds ht
  have htrailers := e.trailers_lt_length_yield he
  obtain ⟨k, hk⟩ : ∃ k, k + 1 + e.trailers = n := ⟨n - e.trailers - 1, by omega⟩
  have hedge : min ≤ e.edge := e.le_edge hmin fun q hq => Nat.le_of_lt (hbinds q hq)
  have hbegin : Becomes (expr .standard (n + 1) min) e.yield
      (extend .standard (expr .standard n) min (k + 1) e) ([] ++ t :: rest) :=
    becomes_extend hexpr hstmt hmin e he (Nat.le_of_lt_succ hn) hbinds (ht.mono hedge) hk
  have hall := hbegin.trans (reads_extend_of_ends ht)
  rwa [List.append_nil] at hall

/-- The readers of expressions and statements are complete, whatever their bound. -/
theorem readsExprs_and_readsStmts : ∀ n,
    ReadsExprs (expr .standard n) n ∧ ReadsStmts (stmt .standard n) n
  | 0 => ⟨fun _ hn => absurd hn (Nat.not_lt_zero _), fun _ hn => absurd hn (Nat.not_lt_zero _)⟩
  | n + 1 =>
      have ⟨hexpr, hstmt⟩ := readsExprs_and_readsStmts n
      ⟨readsExprs_succ hexpr hstmt, fun hs hn => reads_statement hexpr hs (Nat.le_of_lt_succ hn)⟩

/-- The reader of expressions, under a bound that is not below the number of tokens. -/
theorem reads_expr (n : Nat) : ReadsExprs (expr .standard n) n := (readsExprs_and_readsStmts n).1

/-- The reader of statements, under such a bound. -/
theorem reads_stmt (n : Nat) : ReadsStmts (stmt .standard n) n := (readsExprs_and_readsStmts n).2

/-- A program is read from its yield. If it has no closing token, nothing may stand behind it. -/
theorem reads_program {n : Nat} {stmt : Parse Stmt} (hstmt : ReadsStmts stmt n)
    {rest : List Token} :
    ∀ {stmts : List Stmt} {eof : Option Token} {m : Nat}, (eof = none → rest = []) →
      (⟨stmts, eof⟩ : Program).WellFormed .standard → (Stmt.listYield stmts).length < n →
        stmts.length < m →
        Reads (program stmt m) (⟨stmts, eof⟩ : Program).yield ⟨stmts, eof⟩ rest
  | [], none, m + 1, hend, _, _, _ => by
      rw [hend rfl]
      exact .refl _ _
  | [], some token, m + 1, _, hp, _, _ => by
      refine Becomes.hasMore rfl (Becomes.peek rfl ?_)
      rw [hp.eof token rfl]
      exact Becomes.advance (.refl _ _)
  | first :: stmts, eof, m + 1, hend, hp, hn, hm => by
      obtain ⟨hfirst, hstmts⟩ := List.forall_mem_cons.mp hp.stmts
      obtain ⟨token, us, hus, heof, hrbrace⟩ := hfirst.begins
      simp only [Stmt.listYield, List.length_append] at hn
      have hread : Reads stmt first.yield first ((⟨stmts, eof⟩ : Program).yield ++ rest) :=
        hstmt hfirst (by omega)
      have hrest : Reads (program stmt m) (⟨stmts, eof⟩ : Program).yield ⟨stmts, eof⟩ rest :=
        reads_program hstmt hend ⟨hstmts, hp.eof⟩ (by omega) (Nat.lt_of_succ_lt_succ hm)
      rw [hus] at hread
      rw [Program.yield, Stmt.listYield, hus, List.append_assoc]
      refine Becomes.hasMore rfl (Becomes.peek rfl ?_)
      split
      · rename_i hkind
        exact absurd hkind heof
      · rename_i hkind
        exact absurd hkind hrbrace
      · exact Becomes.bind hread (Becomes.bind_last hrest (.refl _ _))

end Parse

end StructScript
