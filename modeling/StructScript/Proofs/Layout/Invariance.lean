import StructScript.Proofs.Evaluation.Conformity
import StructScript.Proofs.Layout.Evaluation
import StructScript.Proofs.Layout.Reading

/-!
# Layout does not matter

Two texts with the same tokens, up to gaps, comments and positions, read as the same program up to
positions, and running it from one session leads to the same, up to positions again: what nothing
but positions distinguishes stays so from tokens to trees, from trees to abstract syntax, and from a
program and a machine to what a run gives.

Main result: `Session.run_layout`, for the agreement that `Session.RunsAlike` describes.
-/

namespace StructScript

/-! ### What differs in nothing but positions -/

namespace EqUpToPlaces

variable {α β ε : Type} [Relocatable α] [Relocatable β] [Relocatable ε]

/-- What commutes with relocation keeps equality up to positions. -/
theorem map {f : α → β} (hf : ∀ a, f (relocate .forgetPlaces a) = relocate .forgetPlaces (f a))
    {a b : α} (h : EqUpToPlaces a b) : EqUpToPlaces (f a) (f b) :=
  calc relocate .forgetPlaces (f a)
      = f (relocate .forgetPlaces a) := (hf a).symm
    _ = f (relocate .forgetPlaces b) := congrArg f h
    _ = relocate .forgetPlaces (f b) := hf b

/-- What no position has a part in is the same. -/
theorem eq {γ : Type} {f : α → γ} (hf : ∀ a, f (relocate .forgetPlaces a) = f a) {a b : α}
    (h : EqUpToPlaces a b) : f a = f b :=
  calc f a
      = f (relocate .forgetPlaces a) := (hf a).symm
    _ = f (relocate .forgetPlaces b) := congrArg f h
    _ = f b := hf b

/-- Of two results that differ in nothing but positions, both are errors or both are values. -/
theorem except_cases {x y : Except ε α} (h : EqUpToPlaces x y) :
    (∃ e e', x = .error e ∧ y = .error e' ∧ EqUpToPlaces e e') ∨
      ∃ a b, x = .ok a ∧ y = .ok b ∧ EqUpToPlaces a b := by
  cases x with
  | error e =>
      cases y with
      | error e' => exact .inl ⟨e, e', rfl, rfl, Except.error.inj h⟩
      | ok b => cases h
  | ok a =>
      cases y with
      | error e' => cases h
      | ok b => exact .inr ⟨a, b, rfl, rfl, Except.ok.inj h⟩

/-- Of two optional values that differ in nothing but positions, both are absent or both are
present. -/
theorem option_cases {x y : Option α} (h : EqUpToPlaces x y) :
    (x = none ∧ y = none) ∨ ∃ a b, x = some a ∧ y = some b ∧ EqUpToPlaces a b := by
  cases x with
  | none =>
      cases y with
      | none => exact .inl ⟨rfl, rfl⟩
      | some b => cases h
  | some a =>
      cases y with
      | none => cases h
      | some b => exact .inr ⟨a, b, rfl, rfl, Option.some.inj h⟩

/-- What ends in a value ends in a value. -/
theorem exists_ok {σ : Type} [Relocatable σ] {a : α} {m : σ} {y : Option (Except ε α × σ)}
    (h : EqUpToPlaces (some (.ok a, m)) y) : ∃ b m', y = some (.ok b, m') ∧ EqUpToPlaces a b := by
  rcases h.option_cases with ⟨hnone, -⟩ | ⟨_, ⟨r, m'⟩, hsome, rfl, hpair⟩
  · cases hnone
  · cases hsome
    have hr : EqUpToPlaces (.ok a : Except ε α) r := (congrArg Prod.fst hpair :)
    rcases hr.except_cases with ⟨_, _, herror, -⟩ | ⟨_, b, hok, rfl, hb⟩
    · cases herror
    · cases hok
      exact ⟨b, m', rfl, hb⟩

/-- What ends in an error ends in an error. -/
theorem exists_error {σ : Type} [Relocatable σ] {e : ε} {m : σ} {y : Option (Except ε α × σ)}
    (h : EqUpToPlaces (some (.error e, m)) y) :
    ∃ e' m', y = some (.error e', m') ∧ EqUpToPlaces e e' := by
  rcases h.option_cases with ⟨hnone, -⟩ | ⟨_, ⟨r, m'⟩, hsome, rfl, hpair⟩
  · cases hnone
  · cases hsome
    have hr : EqUpToPlaces (.error e : Except ε α) r := (congrArg Prod.fst hpair :)
    rcases hr.except_cases with ⟨_, e', herror, rfl, he⟩ | ⟨_, _, hok, -⟩
    · cases herror
      exact ⟨e', m', rfl, he⟩
    · cases hok

/-- The running calls of two errors have the same names. -/
theorem frame_names {e e' : EvalError} (h : EqUpToPlaces e e') :
    e.backtrace.map (·.map (·.name)) = e'.backtrace.map (·.map (·.name)) := by
  refine h.eq (f := fun e : EvalError => e.backtrace.map (·.map (·.name))) fun e => ?_
  obtain ⟨cause, span, _ | frames⟩ := e
  · rfl
  · exact congrArg some (List.map_map ..)

end EqUpToPlaces

/-- The kinds and lexemes of the tokens that are not comments. -/
def Token.words (tokens : List Token) : List (TokenKind × String) :=
  (dropComments tokens).map fun t => (t.kind, t.lexeme)

/-- Tokens with the same kinds and lexemes differ in nothing but their positions. -/
theorem Token.eqUpToPlaces_of_map_eq {ts us : List Token}
    (h : ts.map (fun t => (t.kind, t.lexeme)) = us.map fun t => (t.kind, t.lexeme)) :
    EqUpToPlaces ts us := by
  have hforget (ts : List Token) : relocate .forgetPlaces ts =
      (ts.map fun t => (t.kind, t.lexeme)).map fun p => ⟨p.1, p.2, default⟩ := by
    rw [List.map_map]
    rfl
  rw [EqUpToPlaces, hforget, hforget, h]

/-- No position has a part in the kinds and lexemes of tokens. -/
theorem Token.words_of_eqUpToPlaces {tokens us : List Token}
    (h : EqUpToPlaces (dropComments tokens) us) :
    words tokens = us.map fun t => (t.kind, t.lexeme) := by
  have hforget (ts : List Token) :
      (relocate .forgetPlaces ts).map (fun t => (t.kind, t.lexeme)) =
        ts.map fun t => (t.kind, t.lexeme) := List.map_map ..
  exact h.eq (f := List.map fun t : Token => (t.kind, t.lexeme)) hforget

/-- Reading tokens that differ in nothing but positions. -/
theorem ParseTree.Program.exists_of_eqUpToPlaces {ts us : List Token} {table : OperatorTable}
    {tree : ParseTree.Program} (h : EqUpToPlaces ts us) (htree : ofTokens ts table = .ok tree) :
    ∃ tree', ofTokens us table = .ok tree' ∧ EqUpToPlaces tree tree' := by
  have hparsed := h.map (f := (ofTokens · table)) fun tokens => ofTokens_relocate _ tokens table
  rw [htree] at hparsed
  rcases hparsed.except_cases with ⟨_, _, herror, -⟩ | ⟨_, tree', hok, htree', hsame⟩
  · cases herror
  · cases hok
    exact ⟨tree', htree', hsame⟩

/-- The statements of trees that differ in nothing but positions. -/
theorem ParseTree.Program.eqUpToPlaces_stmts {tree tree' : ParseTree.Program}
    (h : EqUpToPlaces tree tree') (n : Nat) :
    EqUpToPlaces (tree.toAst n).stmts (tree'.toAst n).stmts := by
  have hprogram : EqUpToPlaces (tree.toAst n) (tree'.toAst n) :=
    h.map fun p => ParseTree.Program.toAst_relocate .forgetPlaces n p
  exact congrArg Ast.Program.stmts hprogram

/-- Running programs that differ in nothing but positions. -/
theorem Machine.eqUpToPlaces_run {stmts stmts' : List Ast.Stmt} (h : EqUpToPlaces stmts stmts')
    (strict : Bool) (bound : Nat) (scope : ScopeId) (m : Machine) :
    EqUpToPlaces (Machine.run strict bound scope stmts m)
      (Machine.run strict bound scope stmts' m) := by
  have hrun (stmts : List Ast.Stmt) : relocate .forgetPlaces
      (Machine.run strict bound scope stmts m) = Machine.run strict bound scope
        (relocate .forgetPlaces stmts) (relocate .forgetPlaces m) :=
    (Machine.commutes_run strict bound scope stmts m).symm
  rw [EqUpToPlaces, hrun, hrun, h]

/-! ### Texts that differ in nothing but their layout -/

namespace Session

/-- Two runs of a text that agree: both cannot be read, for the same cause in the same constructs;
or neither ends within the bound; or both end, in the same value, or in errors with the same cause
and the same names of running calls, with the same text printed, and with the same store. Values and
stores are the same up to the positions in the code of functions. -/
inductive RunsAlike : Option (Except Failure (Option Value) × Session) →
    Option (Except Failure (Option Value) × Session) → Prop where
  | unread {e e' : ParseError} {t : Session} (hcause : e.cause = e'.cause)
      (hchain : e.chain = e'.chain) :
      RunsAlike (some (.error (.parse e), t)) (some (.error (.parse e'), t))
  | unended : RunsAlike none none
  | value {v v' : Option Value} {t t' : Session} (hv : EqUpToPlaces v v')
      (houtput : t.machine.output = t'.machine.output)
      (hstore : EqUpToPlaces t.machine.store t'.machine.store) :
      RunsAlike (some (.ok v, t)) (some (.ok v', t'))
  | failed {e e' : EvalError} {t t' : Session} (hcause : e.cause = e'.cause)
      (hnames : e.backtrace.map (·.map (·.name)) = e'.backtrace.map (·.map (·.name)))
      (houtput : t.machine.output = t'.machine.output)
      (hstore : EqUpToPlaces t.machine.store t'.machine.store) :
      RunsAlike (some (.error (.eval e), t)) (some (.error (.eval e'), t'))

/-- Runs of the statements of a text that differ in nothing but positions agree. -/
theorem runsAlike_of_eqUpToPlaces (s : Session) {s' : Session}
    {x y : Option (Except EvalError Outcome × Machine)} (h : EqUpToPlaces x y) :
    RunsAlike (x.map s.ended) (y.map s'.ended) := by
  rcases h.option_cases with ⟨rfl, rfl⟩ | ⟨⟨r, m⟩, ⟨r', m'⟩, rfl, rfl, hpair⟩
  · exact .unended
  · have hresult : EqUpToPlaces r r' := congrArg Prod.fst hpair
    have hmachine : EqUpToPlaces m m' := congrArg Prod.snd hpair
    have houtput : m.output = m'.output := hmachine.eq fun _ => rfl
    have hstore : EqUpToPlaces m.store m'.store := congrArg Machine.store hmachine
    rcases hresult.except_cases with ⟨e, e', rfl, rfl, he⟩ | ⟨outcome, outcome', rfl, rfl, hv⟩
    · exact .failed (he.eq fun _ => rfl) he.frame_names houtput hstore
    · exact .value (hv.map (Outcome.returned?_relocate _)) houtput hstore

/-- **Layout does not matter.** If two texts can be split into tokens, and these are of the same
kinds and lexemes but for comments, then running one and running the other from the same session
agree. -/
theorem run_layout (s : Session) {a b : String} {ts us : List Token}
    (ha : Token.scan a s.config.file = .ok ts) (hb : Token.scan b s.config.file = .ok us)
    (hsame : Token.words ts = Token.words us) (bound : Nat) (scope : ScopeId) :
    RunsAlike (s.runIn bound scope a) (s.runIn bound scope b) := by
  have htokens := Token.eqUpToPlaces_of_map_eq hsame
  have hparsed : EqUpToPlaces (ParseTree.Program.ofTokens (Token.dropComments ts) .standard)
      (ParseTree.Program.ofTokens (Token.dropComments us) .standard) :=
    htokens.map (f := (ParseTree.Program.ofTokens · .standard)) fun tokens =>
      ParseTree.Program.ofTokens_relocate _ tokens .standard
  rcases hparsed.except_cases with ⟨e, e', he, he', herror⟩ | ⟨tree, tree', ht, ht', htree⟩
  · have hread : Ast.Program.ofSource (s.sources + 1) s.config.file a = .error (.parse e) := by
      simp only [Ast.Program.ofSource, ha, he]
    have hread' : Ast.Program.ofSource (s.sources + 1) s.config.file b = .error (.parse e') := by
      simp only [Ast.Program.ofSource, hb, he']
    rw [runIn_of_unread hread, runIn_of_unread hread']
    exact .unread (herror.eq fun _ => rfl) (herror.eq fun _ => rfl)
  · have hread : Ast.Program.ofSource (s.sources + 1) s.config.file a =
        .ok (tree.toAst (s.sources + 1)) := by
      simp only [Ast.Program.ofSource, ha, ht]
    have hread' : Ast.Program.ofSource (s.sources + 1) s.config.file b =
        .ok (tree'.toAst (s.sources + 1)) := by
      simp only [Ast.Program.ofSource, hb, ht']
    have hstmts := ParseTree.Program.eqUpToPlaces_stmts htree (s.sources + 1)
    rw [runIn_of_read hread, runIn_of_read hread']
    exact s.runsAlike_of_eqUpToPlaces
      (Machine.eqUpToPlaces_run hstmts s.config.strict bound scope s.machine)

/-- Whether a run has failed for the cause. -/
def failsWith (cause : EvalError.Cause) :
    Option (Except Failure (Option Value) × Session) → Bool
  | some (.error (.eval e), _) => e.cause == cause
  | _ => false

/-- A function whose call fails, on one line and on several lines with a comment. -/
theorem run_layout_of_failure :
    let s := Session.new ⟨"", some 8, false⟩ (.buffer "")
    let a := "let g = func() int \x7b return x; \x7d; g();"
    let b := "// A comment.\nlet g = func() int \x7b\n  return x;\n\x7d;\n\ng ( );\n"
    Token.scan a "" ≠ Token.scan b "" ∧
      failsWith (.undefinedVariable "x") (s.runIn 9 s.root a) ∧
      RunsAlike (s.runIn 9 s.root a) (s.runIn 9 s.root b) := by
  intro s a b
  have hwords : (Token.scan a "").toOption.map Token.words =
      (Token.scan b "").toOption.map Token.words := by decide +kernel
  have hscan : (Token.scan a "").toOption.isSome := by decide +kernel
  have hscans : (Token.scan a "").toOption ≠ (Token.scan b "").toOption := by decide +kernel
  refine ⟨fun h => hscans (congrArg Except.toOption h), by decide +kernel, ?_⟩
  rcases ha : Token.scan a "" with e | ts
  · rw [ha] at hscan
    cases hscan
  · rcases hb : Token.scan b "" with e | us
    · rw [ha, hb] at hwords
      cases hwords
    · rw [ha, hb] at hwords
      exact run_layout s ha hb (Option.some.inj hwords) 9 s.root

end Session

end StructScript
