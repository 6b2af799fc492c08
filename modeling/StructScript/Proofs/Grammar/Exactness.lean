import StructScript.Proofs.Reading.Completeness
import StructScript.Proofs.Reading.Soundness

/-!
# The parser reads exactly the grammar

What is read from a buffer is a program of the grammar and a prefix of the buffer, by every operator
table (`Program.wellFormed_of_ofTokens`). By the standard table, every program of the grammar is
read from its yield (`Program.ofTokens_yield`), so its tokens tell it from every other.
-/

namespace StructScript

/-- A token that no text holds. -/
def Token.sample (kind : TokenKind) (lexeme : String) : Token := ⟨kind, lexeme, .start ""⟩

namespace ParseTree.Program

open Parse

/-- A parsed program is one of the grammar, and begins the buffer. It is all of the buffer if it has
no closing token. -/
theorem wellFormed_of_ofTokens {tokens : List Token} {table : OperatorTable} {p : Program}
    (h : ofTokens tokens table = .ok p) :
    p.WellFormed table ∧ ∃ rest, tokens = p.yield ++ rest ∧ (p.eof = none → rest = []) := by
  unfold ofTokens readProgram atCursor at h
  rcases hread : program (stmt table (nestingBound (Cursor.ofTokens tokens)))
    (nestingBound (Cursor.ofTokens tokens)) (Cursor.ofTokens tokens) with _ | ⟨result, d⟩
  · simp only [hread] at h
    cases h
  · simp only [hread] at h
    subst h
    obtain ⟨htook, hp, hend⟩ := took_of_program (takes_stmt table _) hread
    exact ⟨hp, d.remaining, htook.remaining, hend⟩

/-- A program of the grammar is parsed from its tokens, whatever stands behind its closing token. -/
theorem ofTokens_yield_append {p : Program} (hp : p.WellFormed .standard) {rest : List Token}
    (hrest : p.eof = none → rest = []) : ofTokens (p.yield ++ rest) .standard = .ok p := by
  obtain ⟨stmts, eof⟩ := p
  have hlen := Stmt.length_le_length_listYield hp.stmts
  have hbound : (Stmt.listYield stmts).length <
      nestingBound (Cursor.ofTokens ((⟨stmts, eof⟩ : Program).yield ++ rest)) := by
    simp only [nestingBound, Cursor.ofTokens, Program.yield, List.length_append]
    omega
  have hread := reads_program (reads_stmt _) hrest hp hbound (Nat.lt_of_le_of_lt hlen hbound) []
  unfold ofTokens readProgram atCursor
  rw [Cursor.ofTokens] at hread ⊢
  simp only [hread]
  rfl

/-- A program of the grammar is parsed from its tokens. -/
theorem ofTokens_yield {p : Program} (hp : p.WellFormed .standard) :
    ofTokens p.yield .standard = .ok p := by
  have hparse : ofTokens (p.yield ++ []) .standard = .ok p := ofTokens_yield_append hp fun _ => rfl
  rwa [List.append_nil] at hparse

/-- By the standard table the parser gives a tree for a buffer that ends in its only closing token
exactly if the tree is one of the grammar and the buffer holds its tokens. No two trees of the
grammar have the same tokens. -/
theorem ofTokens_eq_ok_iff :
    (∀ (ts : List Token) (eof : Token), (∀ token ∈ ts, token.kind ≠ .eof) → eof.kind = .eof →
      ∀ p, ofTokens (ts ++ [eof]) .standard = .ok p ↔
        p.WellFormed .standard ∧ p.yield = ts ++ [eof]) ∧
    ∀ p q : Program, p.WellFormed .standard → q.WellFormed .standard → p.yield = q.yield →
      p = q := by
  refine ⟨fun ts eof hts heof p => ⟨fun h => ?_, ?_⟩, fun p q hp hq hpq => ?_⟩
  · obtain ⟨hp, rest, htokens, hend⟩ := wellFormed_of_ofTokens h
    refine ⟨hp, ?_⟩
    obtain ⟨stmts, _ | token⟩ := p
    · rw [htokens, hend rfl, List.append_nil]
    · -- the closing token of the tree is not among `ts`, so nothing stands behind it
      rcases rest.eq_nil_or_concat with rfl | ⟨us, last, rfl⟩
      · rw [htokens, List.append_nil]
      · rw [List.concat_eq_append, ← List.append_assoc] at htokens
        have hmem : token ∈ ts := by
          rw [(List.append_inj' htokens rfl).1]
          simp [Program.yield]
        exact absurd (hp.eof token rfl) (hts token hmem)
  · rintro ⟨hp, hyield⟩
    rw [← hyield]
    exact ofTokens_yield hp
  · have hparse := ofTokens_yield hp
    rw [hpq, ofTokens_yield hq] at hparse
    exact (Except.ok.inj hparse).symm

/-- The difference of a difference and a variable, as a program. -/
def leftDifference : Program :=
  ⟨[.expr (.binary (.binary (.place (.var (.sample .ident "x"))) .sub (.sample .minus "-")
    (.place (.var (.sample .ident "y")))) .sub (.sample .minus "-")
    (.place (.var (.sample .ident "z")))) (.sample .semicolon ";")], some (.sample .eof "")⟩

/-- The only tree of `x - y - z;` groups to the left. -/
theorem ofTokens_difference :
    ofTokens ([.sample .ident "x", .sample .minus "-", .sample .ident "y", .sample .minus "-",
        .sample .ident "z", .sample .semicolon ";"] ++ [.sample .eof ""]) .standard =
      .ok leftDifference ∧
    ∀ q : Program, q.WellFormed .standard → q.yield = leftDifference.yield →
      q = leftDifference := by
  have hwellFormed : leftDifference.WellFormed .standard := by
    refine ⟨List.forall_mem_singleton.mpr (.expr ?_ rfl), fun _ h => Option.some.inj h ▸ rfl⟩
    have hplace : ∀ name, (Expr.place (.var (.sample .ident name))).WellFormed .standard :=
      fun name => Expr.wellFormed_place_iff.mpr (.var rfl)
    refine Expr.wellFormed_binary_iff.mpr ⟨rfl, ?_, hplace "z", ?_, fun _ h => nomatch h⟩
    · exact Expr.wellFormed_binary_iff.mpr ⟨rfl, hplace "x", hplace "y", fun _ h => (nomatch h),
        fun _ h => nomatch h⟩
    · rintro q ⟨⟩
      decide
  exact ⟨(ofTokens_eq_ok_iff.1 _ _ (by decide) rfl _).mpr ⟨hwellFormed, rfl⟩,
    fun q hq hyield => ofTokens_eq_ok_iff.2 q _ hq hwellFormed hyield⟩

/-- A struct literal whose type is named by `nil` is not parsed, though `nil` may name a type: every
other token of `nil \x7b \x7d;` is of the kind that the tree asks for. -/
theorem nil_literal_not_parsed :
    (TypeRef.plain (.sample .nilKw "nil")).WellFormed ∧
    Separated.Punctuated .comma true ([] : Separated FieldInit) ∧
    (⟨[.expr (.struct (.plain (.sample .nilKw "nil")) (.sample .lbrace "\x7b") []
        (.sample .rbrace "\x7d")) (.sample .semicolon ";")],
      some (.sample .eof "")⟩ : Program).yield =
      [.sample .nilKw "nil", .sample .lbrace "\x7b", .sample .rbrace "\x7d",
        .sample .semicolon ";"] ++ [.sample .eof ""] ∧
    ¬ ∃ p, ofTokens ([.sample .nilKw "nil", .sample .lbrace "\x7b", .sample .rbrace "\x7d",
      .sample .semicolon ";"] ++ [.sample .eof ""]) .standard = .ok p := by
  refine ⟨.plain (.inr rfl), trivial, rfl, ?_⟩
  rintro ⟨p, hp⟩
  cases hp

end ParseTree.Program

end StructScript
