import StructScript.Proofs.Piecewise.Reading

/-!
# Running piecewise

A session keeps nothing between two texts but its machine, so running one text and then another is
the same as running both as one text. What differs is where the second text stands, and which number
its function literals have: neither positions nor numbers play a part in evaluation
(`Machine.commutes_run`).

Main result: `Session.run_append_newline`.
-/

namespace StructScript

/-- Statements behind others run if those complete. -/
theorem Ast.Stmt.execAll_append (rules : Rules) (scope : ScopeId) (stmts others : List Ast.Stmt) :
    execAll rules scope (stmts ++ others) = (do
      match ← execAll rules scope stmts with
      | .completed => execAll rules scope others
      | .returned v => return .returned v) := by
  induction stmts with
  | nil => rfl
  | cons stmt rest ih =>
      rw [List.cons_append, execAll, execAll, bind_assoc]
      congr 1
      funext outcome
      cases outcome with
      | completed => exact ih
      | returned v => rfl

/-- Where some statements complete, those behind them go on. -/
theorem Machine.run_append {strict : Bool} {bound : Nat} {scope : ScopeId}
    {stmts : List Ast.Stmt} {m m₁ : Machine}
    (h : run strict bound scope stmts m = some (.ok .completed, m₁)) (others : List Ast.Stmt) :
    run strict bound scope (stmts ++ others) m = run strict bound scope others m₁ := by
  rw [run, Ast.Stmt.execAll_append, Bounded.bind_apply]
  rw [run] at h
  rw [h]
  rfl

/-! ### Numbers of source texts -/

/-- A tree that has been read holds no numbers. -/
theorem ParseTree.Program.relocate_forgetNumbers {ts : List Token} {table : OperatorTable}
    {tree : ParseTree.Program} (h : ofTokens ts table = .ok tree) :
    relocate .forgetNumbers tree = tree := by
  have htokens : relocate .forgetNumbers ts = ts := List.map_id ts
  have hread := ofTokens_relocate .forgetNumbers ts table
  rw [htokens, h] at hread
  exact (Except.ok.inj hread).symm

/-- An error holds no numbers. -/
theorem EvalError.relocate_forgetNumbers (e : EvalError) : relocate .forgetNumbers e = e := by
  obtain ⟨cause, span, backtrace⟩ := e
  have hspan (span : Option Span) : relocate .forgetNumbers span = span :=
    congrFun Option.map_id span
  have hframe (f : Frame) : relocate .forgetNumbers f = f := congrArg (Frame.mk f.name) (hspan f.span)
  have hframes : (relocate .forgetNumbers : List Frame → List Frame) = id := by
    funext frames
    exact List.map_id'' hframe frames
  have hbacktrace : relocate .forgetNumbers backtrace = backtrace := by
    change Option.map (relocate .forgetNumbers) backtrace = backtrace
    rw [hframes, Option.map_id, id]
  change EvalError.mk cause (relocate .forgetNumbers span) (relocate .forgetNumbers backtrace) = _
  rw [hspan, hbacktrace]

/-! ### Running -/

namespace Session

/-- The end of a run with all function literals, in the value and in the store, under the number
zero. -/
def unnumbered (x : Except Failure (Option Value) × Session) :
    Except Failure (Option Value) × Session :=
  (x.1.map (relocate .forgetNumbers),
    { x.2 with machine := relocate .forgetNumbers x.2.machine })

/-- But for numbers, a program that has been read ends under one number as under another. -/
theorem unnumbered_run (s : Session) (strict : Bool) (bound : Nat) (scope : ScopeId)
    {ts : List Token} {tree : ParseTree.Program}
    (htree : ParseTree.Program.ofTokens ts .standard = .ok tree) (n : Nat) (m : Machine) :
    ((Machine.run strict bound scope (tree.toAst n).stmts m).map s.ended).map unnumbered =
      (Machine.run strict bound scope (tree.toAst 0).stmts
        (relocate .forgetNumbers m)).map s.ended := by
  have hstmts : (tree.toAst 0).stmts = relocate .forgetNumbers (tree.toAst n).stmts := by
    have hprogram := ParseTree.Program.toAst_relocate .forgetNumbers n tree
    rw [ParseTree.Program.relocate_forgetNumbers htree] at hprogram
    exact congrArg Ast.Program.stmts hprogram
  rw [hstmts, Machine.commutes_run strict bound scope (tree.toAst n).stmts m]
  rcases Machine.run strict bound scope (tree.toAst n).stmts m with _ | ⟨e | outcome, t⟩
  · rfl
  · have he := e.relocate_forgetNumbers
    change some (Except.error (Failure.eval e), _) =
      some (Except.error (Failure.eval (relocate .forgetNumbers e)), _)
    rw [he]
    rfl
  · cases outcome <;> rfl

/-- A text whose run completes has been read. -/
theorem exists_of_runIn_completed {s s₁ : Session} {bound : Nat} {scope : ScopeId} {text : String}
    (h : s.runIn bound scope text = some (.ok none, s₁)) :
    ∃ tokens tree m₁, Token.scan text s.config.file = .ok tokens ∧
      ParseTree.Program.ofTokens (Token.dropComments tokens) .standard = .ok tree ∧
      Machine.run s.config.strict bound scope (tree.toAst (s.sources + 1)).stmts s.machine =
        some (.ok .completed, m₁) ∧
      s₁ = { s with sources := s.sources + 1, machine := m₁ } := by
  rcases hread : Ast.Program.ofSource (s.sources + 1) s.config.file text with e | program
  · rw [runIn_of_unread hread] at h
    cases h
  · rw [runIn_of_read hread] at h
    obtain ⟨⟨r, m₁⟩, hrun, hended⟩ := Option.map_eq_some_iff.mp h
    obtain ⟨hresult, rfl⟩ := Prod.mk.inj hended
    obtain rfl : r = .ok .completed := by
      rcases r with e | _ | v
      · cases hresult
      · rfl
      · cases hresult
    unfold Ast.Program.ofSource at hread
    split at hread
    · cases hread
    · rename_i tokens htokens
      split at hread
      · cases hread
      · rename_i tree htree
        cases hread
        exact ⟨tokens, tree, m₁, htokens, htree, hrun, rfl⟩

/-- **Running piecewise is running at once.** If a text has been run without an error and without a
return outside of all functions, then a second text that can be read ends as the two texts, one
below the other, end from the state before the first: in the same value, or in an error with the
same cause and the same names of running calls, with the same text printed in all, and with the same
store. Values and stores are the same up to the positions in the code of functions and the numbers of
function literals. -/
theorem run_append_newline {s s₁ : Session} {bound : Nat} {scope : ScopeId} {a b : String}
    (ha : s.runIn bound scope a = some (.ok none, s₁)) {us : List Token} {tree : ParseTree.Program}
    (hb : Token.scan b s.config.file = .ok us)
    (htree : ParseTree.Program.ofTokens (Token.dropComments us) .standard = .ok tree) :
    RunsAlike ((s₁.runIn bound scope b).map unnumbered)
      ((s.runIn bound scope (a ++ "\n" ++ b)).map unnumbered) := by
  obtain ⟨ts, first, m₁, hscan, hfirst, hrun, rfl⟩ := exists_of_runIn_completed ha
  obtain ⟨before, eof, vs, eof', rfl, heof, hus, heof', hjoined⟩ :=
    Token.scan_append_newline hscan hb
  -- the second text, read behind the first one
  have hmoved : EqUpToPlaces (Token.dropComments us) (Token.dropComments (vs ++ [eof'])) :=
    hus.map (Token.dropComments_relocate _)
  obtain ⟨tree', htree', hsame⟩ := ParseTree.Program.exists_of_eqUpToPlaces hmoved htree
  -- both texts, read as one
  obtain ⟨hbefore, heofBefore⟩ := heof.dropComments_append
  obtain ⟨hvs, heofVs⟩ := heof'.dropComments_append
  rw [hbefore] at hfirst
  have hsecond := htree'
  rw [hvs] at hsecond
  have hwhole := ParseTree.Program.ofTokens_append heofBefore hfirst heofVs hsecond
  have hread : Ast.Program.ofSource (s.sources + 1) s.config.file (a ++ "\n" ++ b) = .ok
      ((⟨first.stmts ++ tree'.stmts, some eof'⟩ : ParseTree.Program).toAst (s.sources + 1)) := by
    have hdrop : Token.dropComments (before ++ (vs ++ [eof'])) =
        Token.dropComments before ++ (Token.dropComments vs ++ [eof']) := by
      rw [← hvs]
      exact List.filter_append ..
    simp only [Ast.Program.ofSource, hjoined, hdrop, hwhole]
  have hreadSecond : Ast.Program.ofSource (s.sources + 1 + 1) s.config.file b =
      .ok (tree.toAst (s.sources + 1 + 1)) := by
    simp only [Ast.Program.ofSource, hb, htree]
  have hstmts : ((⟨first.stmts ++ tree'.stmts, some eof'⟩ : ParseTree.Program).toAst
      (s.sources + 1)).stmts =
        (first.toAst (s.sources + 1)).stmts ++ (tree'.toAst (s.sources + 1)).stmts :=
    ParseTree.Stmt.listToAst_append ..
  -- what is left to run is the second text, which differs in its positions and its number
  rw [runIn_of_read hread, hstmts, Machine.run_append hrun, runIn_of_read hreadSecond,
    unnumbered_run _ _ _ _ htree, unnumbered_run _ _ _ _ htree']
  have hstmts' := ParseTree.Program.eqUpToPlaces_stmts hsame 0
  exact runsAlike_of_eqUpToPlaces _ (Machine.eqUpToPlaces_run hstmts' s.config.strict bound scope
    (relocate .forgetNumbers m₁))

/-- A function is defined by one text and called by the next. -/
theorem run_append_newline_call :
    let s := Session.new ⟨"", some 8, false⟩ (.buffer "")
    let a := "let f = func(n int) int \x7b println(n); return n + m; \x7d;"
    let b := "let m = 1; return f(2); // three"
    (s.runIn 9 s.root (a ++ "\n" ++ b)).any (fun x => x.1.toOption.any (·.any (· == .int 3))) ∧
      ∃ s₁, s.runIn 9 s.root a = some (.ok none, s₁) ∧
        RunsAlike ((s₁.runIn 9 s.root b).map unnumbered)
          ((s.runIn 9 s.root (a ++ "\n" ++ b)).map unnumbered) := by
  intro s a b
  refine ⟨by decide +kernel, ?_⟩
  have hfirst : (s.runIn 9 s.root a).any (fun x => x.1.toOption.any Option.isNone) = true := by
    decide +kernel
  have hreads : (Token.scan b "").toOption.any (fun us =>
      (ParseTree.Program.ofTokens (Token.dropComments us) .standard).isOk) = true := by
    decide +kernel
  obtain ⟨⟨r, s₁⟩, hrun, hr⟩ := (Option.any_eq_true _ _).mp hfirst
  obtain ⟨us, hus, htree⟩ := (Option.any_eq_true _ _).mp hreads
  rcases r with _ | _ | v
  · cases hr
  · rcases hscan : Token.scan b "" with _ | us'
    · rw [hscan] at hus
      cases hus
    · rw [hscan] at hus
      cases hus
      rcases hparse : ParseTree.Program.ofTokens (Token.dropComments us) .standard with _ | tree
      · rw [hparse] at htree
        cases htree
      · exact ⟨s₁, hrun, run_append_newline hrun hscan hparse⟩
  · cases hr

end Session

end StructScript
