import StructScript.ParseTree.Text
import StructScript.Proofs.Grammar.Exactness
import StructScript.Proofs.Reading.Nesting

/-!
# A weak reading is a strong one resumed

Precedence climbing reads an expression at a strength: what begins it, and then all operators and
calls that bind tighter. What binds tighter than one strength binds tighter than all weaker ones, so
a reading at a weak strength does first what the one at a stronger strength does, and then goes on
from there (`readExpr_eq_match`). Each round puts the expression read so far on the left of a longer
one, so what the strong reading gives lies on the left spine of what the weak one gives
(`Expr.OnLeftSpine`).

Main result: `readExpr_resumed`.
-/

namespace StructScript

namespace ParseTree.Expr

/-- The first expression is the second, or is come to from it by going down to the left operand of
an operator, or to the callee of a call, once or more. -/
inductive OnLeftSpine (e : Expr) : Expr → Prop where
  | refl : OnLeftSpine e e
  | left {left right : Expr} {op : BinaryOp} {opToken : Token} (h : OnLeftSpine e left) :
      OnLeftSpine e (.binary left op opToken right)
  | callee {callee : Place} {lparen rparen : Token} {args : List (Item Expr)}
      (h : OnLeftSpine e (.place callee)) : OnLeftSpine e (.call callee lparen args rparen)

/-- What is on the left of something on the left is on the left. -/
theorem OnLeftSpine.trans {a b c : Expr} (h : a.OnLeftSpine b) (h' : b.OnLeftSpine c) :
    a.OnLeftSpine c := by
  induction h' with
  | refl => exact h
  | left _ ih => exact .left ih
  | callee _ ih => exact .callee ih

/-- An expression that can be read as a place is that place. -/
theorem eq_place_of_place? {e : Expr} {p : Place} (h : e.place? = some p) : e = .place p := by
  cases e with
  | place q =>
      cases h
      rfl
  | _ => cases h

end ParseTree.Expr

namespace Parse

open ParseTree

section Rounds

variable {table : OperatorTable} {expr : Precedence → Parse Expr} {lo hi min : Precedence}
  {n m room : Nat} {left : Expr}

/-! ### What has been read stays on the left -/

/-- What a trailing rule continues stands on the left of the result. -/
theorem onLeftSpine_of_trailing {rule : TrailingRule} {token : Token} {longer : Expr}
    {c d : Cursor} (h : trailing n expr rule left token c = some (.ok longer, d)) :
    left.OnLeftSpine longer := by
  cases rule with
  | binary p groupsRight =>
      rcases hop : BinaryOp.ofToken? token.kind with _ | op
      · simp only [trailing, hop] at h
        cases h
      · simp only [trailing, hop] at h
        obtain ⟨right, _, -, h⟩ := Bounded.bind_eq_ok_iff.mp (Bounded.mapError_eq_ok_iff.mp h)
        cases h
        exact .left .refl
  | call =>
      replace h := Bounded.mapError_eq_ok_iff.mp h
      rcases hplace : left.place? with _ | callee
      · simp only [hplace] at h
        cases h
      · simp only [hplace] at h
        obtain ⟨args, _, -, h⟩ := Bounded.bind_eq_ok_iff.mp h
        obtain ⟨rparen, _, -, h⟩ := Bounded.bind_eq_ok_iff.mp h
        cases h
        rw [Expr.eq_place_of_place? hplace]
        exact .callee .refl

/-! ### Rounds of precedence climbing -/

/-- A token continues an expression tighter than a strength, or it does not. -/
theorem weak_or_strong (table : OperatorTable) (min : Precedence) (kind : TokenKind) :
    (∀ rule, table.trailing kind = some rule → rule.precedence ≤ min) ∨
      ∃ rule, table.trailing kind = some rule ∧ ¬ rule.precedence ≤ min := by
  rcases hrule : table.trailing kind with _ | rule
  · exact .inl nofun
  · by_cases hmin : rule.precedence ≤ min
    · refine .inl fun other hother => ?_
      cases hother
      exact hmin
    · exact .inr ⟨rule, rfl, hmin⟩

/-- Precedence climbing ends before a token that does not bind tighter. -/
theorem extend_of_weak {token : Token} {consumed rest : List Token}
    (h : ∀ rule, table.trailing token.kind = some rule → rule.precedence ≤ min) :
    extend table expr min (n + 1) left ⟨consumed, token :: rest⟩ =
      some (.ok left, ⟨consumed, token :: rest⟩) := by
  rw [extend, Bounded.bind_apply]
  simp only [peek]
  rcases hrule : table.trailing token.kind with _ | rule
  · rfl
  · dsimp only
    rw [if_pos (h rule hrule)]
    rfl

/-- A token that binds tighter is taken, and the rounds go on from a longer expression. -/
theorem extend_of_strong {token : Token} {consumed rest : List Token} {rule : TrailingRule}
    (hrule : table.trailing token.kind = some rule) (hmin : ¬ rule.precedence ≤ min) :
    extend table expr min (n + 1) left ⟨consumed, token :: rest⟩ =
      (trailing n expr rule left token >>= extend table expr min n) ⟨token :: consumed, rest⟩ := by
  rw [extend, Bounded.bind_apply]
  simp only [peek, hrule, if_neg hmin]
  rfl

/-- What a round continues stands on the left of the result. -/
theorem onLeftSpine_of_extend {c d : Cursor} {e : Expr}
    (h : extend table expr min n left c = some (.ok e, d)) : left.OnLeftSpine e := by
  induction n generalizing left c with
  | zero => cases h
  | succ n ih =>
      obtain ⟨consumed, _ | ⟨token, rest⟩⟩ := c
      · cases h
      obtain hweak | ⟨rule, hrule, hmin⟩ := weak_or_strong table min token.kind
      · rw [extend_of_weak hweak] at h
        cases h
        exact .refl
      · rw [extend_of_strong hrule hmin] at h
        obtain ⟨longer, _, hlonger, h⟩ := Bounded.bind_eq_ok_iff.mp h
        exact (onLeftSpine_of_trailing hlonger).trans (ih h)

/-- Two readers that settle in the same way give the same. -/
theorem Settles.apply_eq {α : Type} {p q : Parse α} {taking : Bool} (h : Settles p q taking room)
    {c : Cursor} (hc : c.remaining.length ≤ room) : p c = q c := by
  obtain ⟨r, d, hp, hq, -⟩ := h c hc
  rw [hp, hq]

/-- The rounds at a strength are those at a stronger one, and then the rest of them. -/
theorem extend_eq_bind (hle : lo ≤ hi) (hexpr : SettlesExprs expr expr room) (hn : room < n)
    (hm : room < m) {c : Cursor} (hc : c.remaining.length ≤ room) (left : Expr) :
    extend table expr lo n left c =
      (extend table expr hi n left >>= extend table expr lo m) c := by
  induction n generalizing room left c with
  | zero => omega
  | succ n ih =>
      obtain ⟨consumed, _ | ⟨token, rest⟩⟩ := c
      · rfl
      obtain hweak | ⟨rule, hrule, hhi⟩ := weak_or_strong table hi token.kind
      · -- the strong rounds end before the token, where the weak ones go on
        rw [Bounded.bind_apply, extend_of_weak hweak]
        exact (settles_extend hexpr lo hn hm left).apply_eq hc
      · have hlo : ¬ rule.precedence ≤ lo := fun h => hhi (Nat.le_trans h hle)
        have hrest : rest.length ≤ room - 1 := Nat.le_sub_one_of_lt hc
        have hless : SettlesExprs expr expr (room - 1) := hexpr.mono (Nat.sub_le room 1)
        have hroom : 0 < room := Nat.lt_of_lt_of_le (Nat.zero_lt_succ _) hc
        rw [Bounded.bind_apply, extend_of_strong hrule hhi, ← Bounded.bind_apply,
          extend_of_strong hrule hlo, Bounded.bind_assoc]
        have hbound : room - 1 < n := by omega
        obtain ⟨r, d, htrailing, -, htaken⟩ :=
          settles_trailing hless hbound hbound rule left token ⟨token :: consumed, rest⟩ hrest
        rw [Bounded.bind_apply, Bounded.bind_apply, htrailing]
        cases r with
        | error e => rfl
        | ok longer =>
            have hlonger : d.remaining.length ≤ rest.length := htaken longer rfl
            exact ih hless (by omega) (by omega) (Nat.le_trans hlonger hrest) longer

end Rounds

/-! ### Expressions -/

section Expressions

variable {table : OperatorTable} {lo hi : Precedence} {n : Nat}

/-- Reading an expression at a strength is reading it at a stronger one, and then going on. -/
theorem expr_eq_bind (hle : lo ≤ hi) {c : Cursor} (hn : 2 * c.remaining.length < n) :
    expr table (n + 1) lo c =
      (expr table (n + 1) hi >>= extend table (expr table n) lo n) c := by
  obtain ⟨consumed, _ | ⟨token, rest⟩⟩ := c
  · rfl
  simp only [List.length_cons] at hn
  have hexpr : SettlesExprs (expr table n) (expr table n) rest.length :=
    settles_expr_and_stmt.1 (by omega) (by omega) (by omega) (by omega)
  have hstmt : Settles (stmt table n) (stmt table n) true rest.length :=
    settles_expr_and_stmt.2 (by omega) (by omega)
  rw [expr, expr, Bounded.bind_assoc, Bounded.bind_apply, Bounded.bind_apply]
  simp only [advance]
  rcases table.leading token.kind with _ | rule
  · rfl
  have hbound : rest.length < n := by omega
  obtain ⟨r, d, hleading, -, htaken⟩ :=
    settles_leading hexpr hstmt hbound hbound rule token ⟨token :: consumed, rest⟩ (Nat.le_refl _)
  dsimp only
  rw [Bounded.bind_assoc, Bounded.bind_apply, Bounded.bind_apply, hleading]
  cases r with
  | error e => rfl
  | ok left => exact extend_eq_bind hle hexpr (by omega) (by omega) (htaken left rfl) left

/-- Readers of expressions settle as those do whose bound is taken from the cursor. -/
theorem settlesExprs_nestingBound (table : OperatorTable) {c : Cursor}
    (hn : 2 * c.remaining.length < n) :
    SettlesExprs (expr table n) (expr table (nestingBound c)) c.remaining.length := by
  have hbound : 2 * c.remaining.length < nestingBound c := by
    unfold nestingBound
    omega
  exact settles_expr_and_stmt.1 (by omega) (by omega) (by omega) (by omega)

/-- Any bound with room for the tokens that remain gives the reading. -/
theorem expr_eq_readExpr (min : Precedence) {c : Cursor} (hn : 2 * c.remaining.length < n) :
    expr table n min c = some (readExpr table min c) :=
  (settlesExprs_nestingBound table hn min).atCursor_eq (p := (expr table · min))

/-- The expression before the cursor continued by all operators and calls behind it that bind
tighter than `min`, with the bound taken from the cursor. -/
def continueExpr (table : OperatorTable) (min : Precedence) (left : Expr) :
    Cursor → Except ParseError Expr × Cursor :=
  atCursor fun n => extend table (expr table n) min n left

/-- Every bound that is large enough gives what the one taken from the cursor gives. -/
theorem extend_eq_continueExpr (min : Precedence) (left : Expr) {c : Cursor}
    (hn : 2 * c.remaining.length < n) :
    extend table (expr table n) min n left c = some (continueExpr table min left c) := by
  have hbound : c.remaining.length < nestingBound c := by
    unfold nestingBound
    omega
  have hsettles : Settles (extend table (expr table n) min n left)
      (extend table (expr table (nestingBound c)) min (nestingBound c) left) false
      c.remaining.length :=
    settles_extend (settlesExprs_nestingBound table hn) min (by omega) hbound left
  exact hsettles.atCursor_eq (p := fun n => extend table (expr table n) min n left)

/-- What is read at a strength: the error of reading at a stronger one, or what comes of going on
from there. -/
theorem readExpr_eq_match (table : OperatorTable) (hle : lo ≤ hi) (c : Cursor) :
    readExpr table lo c =
      match readExpr table hi c with
      | (.ok inner, d) => continueExpr table lo inner d
      | (.error e, d) => (.error e, d) := by
  let n := 2 * c.remaining.length + 1
  have hn : 2 * c.remaining.length < n + 1 := by omega
  have hbind : expr table (n + 1) lo c =
      (expr table (n + 1) hi >>= extend table (expr table n) lo n) c :=
    expr_eq_bind hle (Nat.lt_succ_self _)
  obtain ⟨r, d, hhi, -, htaken⟩ := settlesExprs_nestingBound table hn hi c (Nat.le_refl _)
  have hread : readExpr table hi c = (r, d) :=
    Option.some.inj ((expr_eq_readExpr hi hn).symm.trans hhi)
  rw [expr_eq_readExpr lo hn, Bounded.bind_apply, hhi] at hbind
  rw [hread]
  cases r with
  | error e => exact Option.some.inj hbind
  | ok inner =>
      have hlength : d.remaining.length + 1 ≤ c.remaining.length := htaken inner rfl
      have hn : 2 * d.remaining.length < n := by omega
      exact Option.some.inj (hbind.trans (extend_eq_continueExpr lo inner hn))

/-- **A weak reading is a strong one resumed.** With any operator table, at any place of any buffer:
where an expression is read at the strength `lo`, one is read at every stronger strength `hi`; it is
the same or lies on its left spine, and continuing it at `lo` from the place where it ends leads to
the same expression and the same place. Where reading at `hi` fails, reading at `lo` fails with the
same error and at the same place. -/
theorem readExpr_resumed (table : OperatorTable) {lo hi : Precedence} (hle : lo ≤ hi) (c : Cursor) :
    (∀ e d, readExpr table lo c = (.ok e, d) → ∃ inner c',
      readExpr table hi c = (.ok inner, c') ∧ inner.OnLeftSpine e ∧
        continueExpr table lo inner c' = (.ok e, d)) ∧
    ∀ err d, readExpr table hi c = (.error err, d) → readExpr table lo c = (.error err, d) := by
  rw [readExpr_eq_match table hle c]
  rcases hread : readExpr table hi c with ⟨err | inner, c'⟩
  · refine ⟨fun e d h => ?_, fun err d h => h⟩
    cases h
  · refine ⟨fun e d h => ?_, fun err d h => ?_⟩
    · have hextend : extend table (expr table _) lo _ inner c' =
          some (continueExpr table lo inner c') :=
        extend_eq_continueExpr lo inner (Nat.lt_succ_self _)
      exact ⟨inner, c', rfl, onLeftSpine_of_extend (hextend.trans (congrArg some h)), h⟩
    · cases h

/-- Of `f() * a > b` all is read at the strength of `and`, and `f()` alone at that of `*`. -/
theorem readExpr_resumed_call :
    let c := Cursor.ofTokens [.sample .ident "f", .sample .lparen "(", .sample .rparen ")",
      .sample .star "*", .sample .ident "a", .sample .gt ">", .sample .ident "b",
      .sample .eof ""]
    Precedence.logical ≤ .product ∧
    ∃ e d inner c', readExpr .standard .logical c = (.ok e, d) ∧ e.text = "(> (* (f ()) a) b)" ∧
      readExpr .standard .product c = (.ok inner, c') ∧ inner.text = "(f ())" ∧
      inner.OnLeftSpine e ∧ continueExpr .standard .logical inner c' = (.ok e, d) := by
  intro c
  have hle : Precedence.logical ≤ .product := by decide
  obtain ⟨e, d, hlo, htext⟩ : ∃ e d, readExpr .standard .logical c = (.ok e, d) ∧
      e.text = "(> (* (f ()) a) b)" := ⟨_, _, rfl, by decide +kernel⟩
  obtain ⟨f, c₁, hhi, hcall⟩ : ∃ f c₁, readExpr .standard .product c = (.ok f, c₁) ∧
      f.text = "(f ())" := ⟨_, _, rfl, by decide +kernel⟩
  obtain ⟨inner, c', hinner, hspine, hcontinue⟩ :=
    (readExpr_resumed .standard hle c).1 e d hlo
  have hsame : (Except.ok f, c₁) = (.ok inner, c') := hhi.symm.trans hinner
  obtain ⟨rfl, rfl⟩ : f = inner ∧ c₁ = c' := by simpa using hsame
  exact ⟨hle, e, d, f, c₁, hlo, htext, hhi, hcall, hspine, hcontinue⟩

end Expressions

end Parse

end StructScript
