import StructScript.Proofs.Failure.Expression

/-!
# Parse errors point at the first token that cannot stand

If a buffer is not parsed, the error is placed at the first token with which no program goes on: what
stands before that token can be completed to a program, and together with it to none. Nothing of this
depends on the tokens behind it (`ParseTree.Program.ofTokens_error_position`).

The reader of programs takes the token that ends the text, so what its statements pinpoint is carried
through its rounds here, apart from the rules for readers.
-/

namespace StructScript

namespace Parse

open ParseTree

/-- The tokens `ts` are those of some statements. -/
def StmtTokens (ts : List Token) (stmts : List Stmt) : Prop :=
  ts = Stmt.listYield stmts ∧ ∀ s ∈ stmts, s.WellFormed .standard

section Programs

variable {stmt stmt' : Parse Stmt} {c : Cursor} {next : Token} {rest : List Token} {n : Nat}

/-! ### The rounds of the reader of programs -/

/-- At the closing token the program ends, and the token is taken. -/
theorem program_of_eof (stmt : Parse Stmt) (n : Nat) (hc : c.remaining = next :: rest)
    (hnext : next.kind = .eof) :
    program stmt (n + 1) c = some (.ok ⟨[], some next⟩, ⟨next :: c.consumed, rest⟩) := by
  obtain ⟨before, remaining⟩ := c
  obtain rfl : remaining = next :: rest := hc
  have hread : Reads (program stmt (n + 1)) [next] ⟨[], some next⟩ rest := by
    refine Becomes.hasMore rfl (Becomes.peek rfl ?_)
    rw [hnext]
    exact Becomes.advance (.refl _ _)
  exact hread before

/-- At a brace where a statement should begin the program fails, and the brace stays. -/
theorem program_of_rbrace (stmt : Parse Stmt) (n : Nat) (hc : c.remaining = next :: rest)
    (hnext : next.kind = .rbrace) :
    program stmt (n + 1) c =
      some (.error (.unexpectedDescribed "a statement" next), c) := by
  obtain ⟨before, remaining⟩ := c
  obtain rfl : remaining = next :: rest := hc
  have hfail : Becomes (program stmt (n + 1)) []
      (Bounded.fail (.unexpectedDescribed "a statement" next)) (next :: rest) := by
    refine Becomes.hasMore rfl (Becomes.peek rfl ?_)
    rw [hnext]
    exact .refl _ _
  exact hfail before

/-- Anywhere else a statement is read, and then the others. -/
theorem program_of_stmt (stmt : Parse Stmt) (n : Nat) (hc : c.remaining = next :: rest)
    (heof : next.kind ≠ .eof) (hrbrace : next.kind ≠ .rbrace) :
    program stmt (n + 1) c = (stmt >>= fun first => program stmt n >>= fun p =>
      pure { p with stmts := first :: p.stmts } : Parse Program) c := by
  obtain ⟨before, remaining⟩ := c
  obtain rfl : remaining = next :: rest := hc
  have hstmt : Becomes (program stmt (n + 1)) [] (stmt >>= fun first => program stmt n >>= fun p =>
      pure { p with stmts := first :: p.stmts }) (next :: rest) := by
    refine Becomes.hasMore rfl (Becomes.peek rfl ?_)
    split
    · exact absurd ‹_› heof
    · exact absurd ‹_› hrbrace
    · exact .refl _ _
  exact hstmt before

/-! ### Where the reader of programs fails -/

/-- Some statements begin with nothing taken yet. -/
theorem viable_listYield_nil : Viable StmtTokens [] := ⟨[], [], .nil, rfl, List.forall_mem_nil _⟩

/-- What begins a statement behind some statements begins some statements. -/
theorem viable_cons {first : Stmt} {ts : List Token} (hfirst : first.WellFormed .standard)
    (h : Viable StmtTokens ts) : Viable StmtTokens (first.yield ++ ts) := by
  obtain ⟨us, stmts, hus, hyield, hstmts⟩ := h
  refine ⟨us, first :: stmts, hus, ?_, List.forall_mem_cons.mpr ⟨hfirst, hstmts⟩⟩
  rw [Stmt.listYield, List.append_assoc, hyield]

/-- If the reader of programs fails, then at the first token that goes with no program. It does not
use up its bound. -/
structure ProgramFails (p p' : Parse Program) (c : Cursor) : Prop where
  ends : p c ≠ none
  pinpointed : ∀ e d, p c = some (.error e, d) → ∃ ts t rest, c.remaining = ts ++ t :: rest ∧
    e.position = some t.position ∧ e.cause ≠ .outOfTokens ∧ NoEof ts ∧ Viable StmtTokens ts ∧
      Rejects p' ts t

/-- The bound of the second reader may be used up. -/
theorem ProgramFails.of_succ {p : Parse Program} {g : Nat → Parse Program}
    (hg : g 0 = Bounded.exhausted) (h : ∀ m, ProgramFails p (g (m + 1)) c) (m : Nat) :
    ProgramFails p (g m) c := by
  cases m with
  | succ m => exact h m
  | zero =>
      refine ⟨(h 0).ends, fun e d he => ?_⟩
      obtain ⟨ts, t, rest, hc, hposition, hcause, hts, hviable, -⟩ := (h 0).pinpointed e d he
      rw [hg]
      exact ⟨ts, t, rest, hc, hposition, hcause, hts, hviable, fun _ _ _ _ => nofun⟩

/-- One statement and what is read behind it. -/
theorem programFails_of_stmt (hc : c.remaining = next :: rest)
    (heof : next.kind ≠ .eof) (hrbrace : next.kind ≠ .rbrace) {m : Nat}
    (hstmt : PointsAt stmt stmt' (fun ts s => ts = s.yield ∧ s.WellFormed .standard) c)
    (hrest : ∀ ts t behind, c.remaining = ts ++ t :: behind → NoEof ts → ts ≠ [] →
      ProgramFails (program stmt n) (program stmt' m) ⟨ts.reverse ++ c.consumed, t :: behind⟩) :
    ProgramFails (program stmt (n + 1)) (program stmt' (m + 1)) c := by
  have hread := program_of_stmt stmt n hc heof hrbrace
  cases hstmt with
  | @error ts behind t e d hc' hts hp hposition hcause hviable hp' =>
      -- the statement fails, so the program does, and no statement goes on with the token
      have hfail : program stmt (n + 1) c = some (.error e, d) := by
        rw [hread]
        exact Bounded.bind_eq_error_iff.mpr (.inl hp)
      refine ⟨by rw [hfail]; nofun, fun e' d' he => ?_⟩
      rw [hfail] at he
      cases he
      obtain ⟨us, s, hus, hyield, hs⟩ := hviable
      refine ⟨ts, t, behind, hc', hposition, hcause, hts, ⟨us, [s], hus, ?_, ?_⟩, ?_⟩
      · rw [hyield]
        exact (List.append_nil _).symm
      · exact List.forall_mem_singleton.mpr hs
      · intro before rest' p d h
        obtain ⟨others, hcons⟩ := exists_append_eq_cons (hc.symm.trans hc') rest'
        rw [program_of_stmt stmt' m hcons heof hrbrace] at h
        obtain ⟨s', d', hs', -⟩ := Bounded.bind_eq_ok_iff.mp h
        exact hp' _ _ _ _ hs'
  | @ok ts behind t first hc' hts hp hfirst hp' =>
      -- the statement is read, so what fails is what stands behind it
      obtain ⟨rfl, hwellFormed⟩ := hfirst
      have hne : first.yield ≠ [] := by
        obtain ⟨token, us, hus, -⟩ := hwellFormed.begins
        rw [hus]
        exact List.cons_ne_nil _ _
      have hbehind := hrest _ _ _ hc' hts hne
      have hgo : program stmt (n + 1) c = (program stmt n >>= fun p =>
          pure { p with stmts := first :: p.stmts } : Parse Program)
            ⟨first.yield.reverse ++ c.consumed, t :: behind⟩ := by
        rw [hread, Bounded.bind_apply, hp]
      refine ⟨fun hnone => ?_, fun e d he => ?_⟩
      · rw [hgo] at hnone
        rcases Bounded.bind_eq_none_iff.mp hnone with hnone | ⟨_, _, _, hnone⟩
        · exact hbehind.ends hnone
        · cases hnone
      · rw [hgo] at he
        rcases Bounded.bind_eq_error_iff.mp he with he | ⟨_, _, _, he⟩
        · obtain ⟨us, u, last, hd, hposition, hcause, hus, hviable, hrejects⟩ :=
            hbehind.pinpointed e d he
          have hall : c.remaining = (first.yield ++ us) ++ u :: last := by
            rw [hc', List.append_assoc]
            exact congrArg _ hd
          refine ⟨first.yield ++ us, u, last, hall, hposition, hcause, hts.append hus,
            viable_cons hwellFormed hviable, ?_⟩
          intro before rest' p d h
          obtain ⟨others, hcons⟩ := exists_append_eq_cons (hc.symm.trans hall) rest'
          rw [program_of_stmt stmt' m hcons heof hrbrace] at h
          obtain ⟨p', d', hp', -⟩ := Bounded.bind_eq_ok_iff.mp (hp'.of_bind hd h)
          exact hrejects _ _ _ _ hp'
        · cases he

/-- The reader of programs fails at the first token that goes with no program, by induction on the
tokens that are left. -/
theorem programFails {j k : Nat} (hstmt : PinpointsStmts j stmt stmt') (hk : k ≤ j) (hn : k ≤ n)
    (n' : Nat) (heof : c.HasEof) (hlength : c.remaining.length ≤ k) :
    ProgramFails (program stmt n) (program stmt' n') c := by
  induction n generalizing k n' c with
  | zero =>
      obtain ⟨t, rest, hcons⟩ := heof.exists_cons
      rw [hcons, List.length_cons] at hlength
      omega
  | succ n ih =>
      refine ProgramFails.of_succ rfl (fun m => ?_) n'
      obtain ⟨next, rest, hcons⟩ := heof.exists_cons
      by_cases hnext : next.kind = .eof
      · have hread := program_of_eof stmt n hcons hnext
        refine ⟨by rw [hread]; nofun, fun e d he => ?_⟩
        rw [hread] at he
        cases he
      by_cases hrbrace : next.kind = .rbrace
      · have hread := program_of_rbrace stmt n hcons hrbrace
        refine ⟨by rw [hread]; nofun, fun e d he => ?_⟩
        rw [hread] at he
        cases he
        -- a closing brace begins no statement, and programs end with a token of their own
        refine ⟨[], next, rest, hcons, rfl, nofun, .nil, viable_listYield_nil, ?_⟩
        intro before behind a d h
        rw [program_of_rbrace stmt' m rfl hrbrace] at h
        cases h
      · refine programFails_of_stmt hcons hnext hrbrace (hstmt.pointsAt c heof (by omega)) ?_
        intro ts t behind hc hts hne
        have hpos := List.length_pos_iff.mpr hne
        rw [hc, List.length_append] at hlength
        exact ih (by omega) (by omega) m (heof.of_append hc hts) (Nat.le_sub_of_add_le' hlength)

end Programs

end Parse

namespace ParseTree.Program

open Parse

/-! ### The whole parser -/

/-- A parsed program begins with every token of the buffer up to its closing token. -/
theorem exists_yield_of_ofTokens {ts rest : List Token} {t : Token} {p : Program} (hts : NoEof ts)
    (h : ofTokens (ts ++ t :: rest) .standard = .ok p) :
    p.WellFormed .standard ∧ ∃ us, p.yield = ts ++ t :: us := by
  obtain ⟨hp, behind, htokens, hend⟩ := wellFormed_of_ofTokens h
  refine ⟨hp, ?_⟩
  by_cases hbehind : behind = []
  · rw [hbehind, List.append_nil] at htokens
    exact ⟨rest, htokens.symm⟩
  · -- the program has a closing token, which is not one of `ts`
    obtain ⟨token, htoken⟩ := Option.ne_none_iff_exists'.mp fun hnone => hbehind (hend hnone)
    have hmem : token ∈ p.yield := by simp [Program.yield, htoken]
    have hnot : ∀ us, ts ≠ p.yield ++ us := by
      rintro us rfl
      exact hts token (List.mem_append_left us hmem) (hp.eof token htoken)
    rcases List.append_eq_append_iff.mp htokens with ⟨us, hyield, hus⟩ | ⟨us, hyield, -⟩
    · cases us with
      | nil =>
          rw [List.append_nil] at hyield
          exact absurd (by rw [hyield, List.append_nil]) (hnot [])
      | cons u us =>
          obtain ⟨rfl, -⟩ := List.cons.inj hus
          exact ⟨us, hyield⟩
    · exact absurd hyield (hnot us)

/-- Under every bound that is large enough, the reader of programs rejects no beginning of what is
parsed. -/
theorem exists_forall_of_rejects (ts : List Token) (t : Token) :
    ∃ n, ∀ m, n ≤ m → NoEof ts → Rejects (program (stmt .standard m) m) ts t →
      ∀ rest p, ofTokens (ts ++ t :: rest) .standard ≠ .ok p := by
  by_cases h : NoEof ts ∧ ∃ rest p, ofTokens (ts ++ t :: rest) .standard = .ok p
  · obtain ⟨hts, rest, p, hparse⟩ := h
    obtain ⟨hp, us, hus⟩ := exists_yield_of_ofTokens hts hparse
    refine ⟨(Stmt.listYield p.stmts).length + 1, fun m hm _ hrejects => ?_⟩
    have hstmts := Stmt.length_le_length_listYield hp.stmts
    have hread := reads_program (m := m) (reads_stmt m) (fun _ => rfl) hp (by omega) (by omega) []
    rw [List.append_nil, hus] at hread
    exact absurd hread (hrejects [] us p _)
  · exact ⟨0, fun m _ hts _ rest p hparse => h ⟨hts, rest, p, hparse⟩⟩

/-- One bound is large enough for all beginnings of some tokens. -/
theorem exists_forall_split (before ts : List Token) :
    ∃ n, ∀ m, n ≤ m → ∀ us t behind, ts = us ++ t :: behind → NoEof (before ++ us) →
      Rejects (program (stmt .standard m) m) (before ++ us) t →
        ∀ rest p, ofTokens (before ++ us ++ t :: rest) .standard ≠ .ok p := by
  induction ts generalizing before with
  | nil => exact ⟨0, fun m _ us t behind h => absurd h.symm (by simp)⟩
  | cons token ts ih =>
      obtain ⟨n, hn⟩ := ih (before ++ [token])
      obtain ⟨n', hn'⟩ := exists_forall_of_rejects before token
      refine ⟨max n n', fun m hm us t behind hsplit hno hrejects rest p => ?_⟩
      cases us with
      | nil =>
          obtain ⟨rfl, -⟩ := List.cons.inj hsplit
          rw [List.append_nil] at hno hrejects ⊢
          exact hn' m (by omega) hno hrejects rest p
      | cons u us =>
          obtain ⟨rfl, hts⟩ := List.cons.inj hsplit
          have hassoc : before ++ token :: us = before ++ [token] ++ us := by simp
          rw [hassoc] at hno hrejects ⊢
          exact hn m (by omega) us t behind hts hno hrejects rest p

/-- A buffer that ends in a closing token, if it is not parsed, gives an error that is placed at the
first token with which no program goes on: the tokens before it can be completed to a buffer that is
parsed, whose only closing token is its last, and no buffer that goes on with it is parsed. The
parser never runs out of tokens. -/
theorem ofTokens_error_position {ts : List Token} {eof : Token} (heof : eof.kind = .eof)
    {e : ParseError} (h : ofTokens (ts ++ [eof]) .standard = .error e) :
    e.cause ≠ .outOfTokens ∧
      ∃ before t behind, ts ++ [eof] = before ++ t :: behind ∧ e.position = some t.position ∧
        (∃ us eof' p, (∀ token ∈ before ++ us, token.kind ≠ .eof) ∧ eof'.kind = .eof ∧
          ofTokens (before ++ us ++ [eof']) .standard = .ok p) ∧
        ∀ rest p, ofTokens (before ++ t :: rest) .standard ≠ .ok p := by
  have hhasEof : (Cursor.ofTokens (ts ++ [eof])).HasEof := ⟨eof, by simp [Cursor.ofTokens], heof⟩
  obtain ⟨m, hm⟩ := exists_forall_split [] (ts ++ [eof])
  generalize hbound : nestingBound (.ofTokens (ts ++ [eof])) = n
  have hn : 2 * (ts ++ [eof]).length + 1 ≤ n := by
    rw [← hbound]
    exact Nat.add_le_add_left (by decide) _
  have hlength : (ts ++ [eof]).length ≤ n := by omega
  have hfails := programFails (pinpoints_stmt hn m) (Nat.le_refl _) hlength m hhasEof
    (Nat.le_refl _)
  unfold ofTokens readProgram atCursor at h
  rw [hbound] at h
  rcases hread : program (stmt .standard n) n (Cursor.ofTokens (ts ++ [eof])) with _ | ⟨result, d⟩
  · exact absurd hread hfails.ends
  · simp only [hread] at h
    subst h
    obtain ⟨before, t, behind, htokens, hposition, hcause, hbefore, hviable, hrejects⟩ :=
      hfails.pinpointed e d hread
    obtain ⟨us, stmts, hus, hyield, hstmts⟩ := hviable
    refine ⟨hcause, before, t, behind, htokens, hposition, ?_,
      hm m (Nat.le_refl m) before t behind htokens hbefore hrejects⟩
    -- the statements that were begun, closed by the token at the end of the buffer
    have hp : (⟨stmts, some eof⟩ : Program).WellFormed .standard :=
      ⟨hstmts, fun token htoken => Option.some.inj htoken ▸ heof⟩
    have hcompleted : before ++ us ++ [eof] = (⟨stmts, some eof⟩ : Program).yield := by
      rw [hyield]
      rfl
    refine ⟨us, eof, ⟨stmts, some eof⟩, hbefore.append hus, heof, ?_⟩
    rw [hcompleted]
    exact ofTokens_yield hp

/-- In `let x 1;` the number is the first token that cannot stand. -/
theorem ofTokens_error_position_number :
    ∃ e, ofTokens ([.sample .letKw "let", .sample .ident "x", .sample .int "1",
        .sample .semicolon ";"] ++ [.sample .eof ""]) .standard = .error e ∧
      e.cause ≠ .outOfTokens ∧ e.position ≠ none := by
  have hfails : (ofTokens ([.sample .letKw "let", .sample .ident "x", .sample .int "1",
      .sample .semicolon ";"] ++ [.sample .eof ""]) .standard).isOk = false := by decide +kernel
  generalize hparse : ofTokens ([.sample .letKw "let", .sample .ident "x", .sample .int "1",
      .sample .semicolon ";"] ++ [.sample .eof ""]) .standard = result at hfails
  cases result with
  | ok p => cases hfails
  | error e =>
      obtain ⟨hcause, _, t, _, _, hposition, _⟩ := ofTokens_error_position rfl hparse
      exact ⟨e, rfl, hcause, by rw [hposition]; nofun⟩

end ParseTree.Program

end StructScript
