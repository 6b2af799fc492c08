import StructScript.Proofs.Evaluation.Conformity
import StructScript.Proofs.Evaluation.Code
import StructScript.Proofs.Spans.Program
import StructScript.Proofs.Spans.Spots

/-!
# Where errors are placed

The steps of an evaluation fail with errors of two sorts: some are placed where they arise, the
others get their place on the way out, from the innermost expression or assignment around them.
Either way it is a spot of the code that runs, that is of the statements that are run or of the body
of a function in the store. So long as an error is on its way its span, if it has one, is such a
spot (`EvalError.Within`); behind an expression or a statement it has one (`EvalError.LocatedIn`).
What a computation says of its errors is `Regime.Fails`, with one rule for each way of putting
computations together.

Main result: `Machine.run_error_located`.
-/

namespace StructScript

variable {places : Span → Prop}

namespace EvalError

/-- The error has a span, one of `places`. -/
def LocatedIn (places : Span → Prop) (e : EvalError) : Prop :=
  ∃ span, e.span = some span ∧ places span

/-- The span of the error is one of `places`, if it has one. -/
def Within (places : Span → Prop) (e : EvalError) : Prop :=
  ∀ span, e.span = some span → places span

/-- An error with a span in `places` has no other. -/
theorem LocatedIn.within {e : EvalError} (h : e.LocatedIn places) : e.Within places := by
  obtain ⟨span, hspan, hplace⟩ := h
  intro other hother
  cases hspan.symm.trans hother
  exact hplace

/-- An error that arises at a span has it. -/
theorem locatedIn_atSpan {span : Span} (h : places span) (cause : Cause) :
    (atSpan span cause).LocatedIn places := ⟨span, rfl, h⟩

/-- An error that is not placed yet has no span. -/
theorem within_ofCause (cause : Cause) : (ofCause cause).Within places := nofun

/-- An error that is placed at a construct has a span afterwards. -/
theorem Within.locate {e : EvalError} (h : e.Within places) {span : Span} (hspan : places span) :
    (e.locate span).LocatedIn places := by
  rcases hplaced : e.span with _ | place
  · refine ⟨span, ?_, hspan⟩
    unfold EvalError.locate
    rw [hplaced]
  · rw [locate_of_span hplaced]
    exact ⟨place, hplaced, h place hplaced⟩

/-- Recording the running calls leaves the span as it is. -/
theorem Within.trace {e : EvalError} (h : e.Within places) (frames : List Frame) :
    (e.trace frames).Within places := by
  unfold Within
  rw [trace_span]
  exact h

end EvalError

open EvalError (LocatedIn Within)

/-! ### Assignments -/

/-- An update fails at a name of the path. -/
theorem Value.exists_of_setPath_eq_error {v : Value} {e : EvalError} (path : List Ast.Ident)
    {target : Value} (h : target.setPath path v = .error e) :
    ∃ name ∈ path, e.span = some name.span := by
  induction path generalizing target with
  | nil => cases h
  | cons field rest ih =>
      unfold setPath at h
      split at h
      · split at h
        · repeat' split at h
          all_goals cases h <;> exact ⟨field, List.mem_cons_self, rfl⟩
        · split at h
          · rename_i hinner
            cases h
            obtain ⟨name, hname, hspan⟩ := ih hinner
            exact ⟨name, List.mem_cons_of_mem _ hname, hspan⟩
          · cases h
      · cases h
        exact ⟨field, List.mem_cons_self, rfl⟩

/-- What goes wrong when a variable is assigned goes wrong at its name, or has no place yet. -/
theorem Store.within_of_assignRoot {s : Store} {scope : ScopeId} {root : Ast.Ident} {v : Value}
    {e : EvalError} (hroot : places root.span) (h : s.assignRoot scope root v = .error e) :
    e.Within places := by
  unfold assignRoot at h
  split at h
  · cases h
  · cases h
    exact (EvalError.locatedIn_atSpan hroot _).within
  · cases h
    exact EvalError.within_ofCause _

/-- An assignment fails at a name of the target, or its error is not placed yet. -/
theorem Store.within_of_assignPlace {s : Store} {scope : ScopeId} {target : Ast.Place} {v : Value}
    {e : EvalError} (hroot : places target.root.span)
    (hpath : ∀ name ∈ target.path, places name.span)
    (h : s.assignPlace scope target v = .error e) : e.Within places := by
  unfold assignPlace at h
  split at h
  · exact within_of_assignRoot hroot h
  · split at h
    · cases h
      exact (EvalError.locatedIn_atSpan hroot _).within
    · split at h
      · rename_i hset
        cases h
        obtain ⟨name, hname, hspan⟩ := Value.exists_of_setPath_eq_error _ hset
        exact LocatedIn.within ⟨name.span, hspan, hpath name hname⟩
      · exact within_of_assignRoot hroot h

namespace Regime

variable {strict : Bool} {α β : Type}

/-- From every store of the regime, the errors of the computation are those of `P`. -/
def Fails (R : Regime strict) (m : Eval α) (P : EvalError → Prop) : Prop :=
  ∀ s e t, R.store s.store → m s = some (.error e, t) → P e

namespace Fails

variable {R : Regime strict} {m : Eval α} {P : EvalError → Prop}

/-- Giving a value is no error. -/
theorem pure {a : α} : R.Fails (Pure.pure a) P := by
  intro s e t hs hr
  cases hr

/-- Nor is it to have no bound left. -/
theorem exhausted : R.Fails (Bounded.exhausted : Eval α) P := by
  intro s e t hs hr
  cases hr

/-- Failing at a span of `places`. -/
theorem failAt {span : Span} (h : places span) (cause : EvalError.Cause) :
    R.Fails (Eval.failAt span cause : Eval α) (LocatedIn places) := by
  intro s e t hs hr
  cases hr
  exact EvalError.locatedIn_atSpan h cause

/-- An error without a place is still to get one. -/
theorem ofCause (x : Except EvalError.Cause α) : R.Fails (Eval.ofCause x) (Within places) := by
  intro s e t hs hr
  unfold Eval.ofCause at hr
  rw [Bounded.ofExcept_apply] at hr
  cases x with
  | error cause =>
      cases hr
      exact EvalError.within_ofCause cause
  | ok a => cases hr

/-- Errors that have a span may be taken as errors that have one if any. -/
theorem within (h : R.Fails m (LocatedIn places)) : R.Fails m (Within places) :=
  fun s e t hs hr => (h s e t hs hr).within

/-- A sequence fails as its first part does, or as its second part with a value of the first. -/
theorem bind {f : α → Eval β} {post : α → Prop} (hm : R.Fails m P) (hkeeps : R.Keeps m post)
    (hf : ∀ a, post a → R.Fails (f a) P) : R.Fails (m >>= f) P := by
  intro s e t hs hr
  rcases Bounded.bind_eq_error_iff.mp hr with hr | ⟨a, u, ha, hr⟩
  · exact hm s e t hs hr
  · obtain ⟨hu, hpost⟩ := hkeeps s _ u hs ha
    exact hf a (hpost a rfl) u e t hu hr

/-- A step that cannot fail. -/
theorem bind_pure {f : α → β} (hm : R.Fails m P) : R.Fails (m >>= fun a => Pure.pure (f a)) P := by
  intro s e t hs hr
  rcases Bounded.bind_eq_error_iff.mp hr with hr | ⟨a, u, -, hr⟩
  · exact hm s e t hs hr
  · cases hr

/-- What depends on the machine fails as it does for each. -/
theorem state {f : Machine → Eval α} (h : ∀ m, R.Fails (f m) P) :
    R.Fails (Bounded.state >>= f) P := fun s e t hs hr => h s s e t hs hr

/-- Errors that are still to get a place get the span of the construct. -/
theorem locate {span : Span} (hm : R.Fails m (Within places)) (hspan : places span) :
    R.Fails (Eval.locate span m) (LocatedIn places) := by
  intro s e t hs hr
  obtain ⟨e', he', rfl⟩ := Bounded.mapError_eq_error_iff.mp hr
  exact (hm s e' t hs he').locate hspan

/-- The frame of a call gives an error its calls, not a place. -/
theorem inFrame (hm : R.Fails m (Within places)) (frame : Frame) :
    R.Fails (Eval.inFrame frame m) (Within places) := by
  intro s e t hs hr
  unfold Eval.inFrame at hr
  split at hr
  · cases hr
    exact EvalError.within_ofCause _
  · rename_i calls _
    split at hr
    · cases hr
    · cases hr
    · rename_i e' u he'
      cases hr
      exact (hm { s with calls := calls } e' u hs he').trace _

end Fails

/-! ### The regime of some code -/

/-- All functions of the store belong to the code, and those of all values. -/
def ofCode (strict : Bool) (code : Ast.Part → Prop)
    (hchild : ∀ {part whole : Ast.Part}, part.ChildOf whole → code whole → code part) :
    Regime strict where
  code := code
  store s := s.CodeIn code
  value v := v.CodeIn code
  readable _ := True
  writable _ := True
  inst _ _ := True
  code_child := hchild
  readable_of_writable _ := trivial
  value_plain hv := hv.codeIn
  value_func hf _ := Value.codeIn_func_iff.mpr hf
  code_func hf := Value.codeIn_func_iff.mp hf
  inst_of_instantiate _ _ _ _ _ := trivial
  value_struct _ _ hfields _ _ := Value.codeIn_struct_iff.mpr hfields
  value_field hv := Value.codeIn_struct_iff.mp hv
  value_update hrecord hv _ := hrecord.insert hv _
  value_lookup hs _ hv := hs.lookupVariable hv
  store_define name _ hs _ hv := hs.defineVariable hv _ name
  store_defineType _ hs _ := hs.defineType _ _ _
  store_assign hs _ hv _ _ := hs.defineVariable hv _ _
  enter hs _ := ⟨hs.addChild _, trivial⟩

/-- The regime of the code whose spots are among `places`. -/
def ofSpots (strict : Bool) (places : Span → Prop) : Regime strict :=
  ofCode strict (Ast.Part.SpotsIn places) Ast.Part.SpotsIn.child

/-! ### Expressions -/

/-- Rules whose calls place their errors, if at all, at `places`. -/
structure PlacedBy (strict : Bool) (places : Span → Prop) (rules : Rules) : Prop where
  kept : (ofSpots strict places).KeptBy rules
  call : ∀ (name : String) {f : Closure} {args : List Value} (span : Span),
    (ofSpots strict places).value (.func f) → (∀ v ∈ args, (ofSpots strict places).value v) →
    (ofSpots strict places).Fails (rules.call name f args span) (Within places)

variable {rules : Rules} {scope : ScopeId}

/-- A place that cannot be read fails at the variable that it starts from. -/
theorem fails_readPlace {R : Regime strict} : (place : Ast.Place) → places place.root.span →
    R.Fails (Eval.readPlace scope place) (LocatedIn places)
  | .var name, h => by
      rw [Eval.readPlace]
      apply Fails.state
      intro m
      split
      · exact Fails.pure
      · exact Fails.failAt h _
  | .field base name _, h => by
      rw [Eval.readPlace]
      exact (fails_readPlace base h).bind_pure

/-- An assignment fails at its variable or at a field on the way, or without a place. -/
theorem fails_assignPlace {R : Regime strict} {target : Ast.Place} {v : Value}
    (hroot : places target.root.span) (hpath : ∀ name ∈ target.path, places name.span) :
    R.Fails (Eval.assignPlace scope target v) (Within places) := by
  intro s e t hs hr
  unfold Eval.assignPlace at hr
  split at hr
  · rename_i herror
    cases hr
    exact Store.within_of_assignPlace hroot hpath herror
  · cases hr

/-- A type that cannot be instantiated is an error at the type. -/
theorem fails_instantiate {R : Regime strict} {type : Ast.TypeExpr} (h : places type.span) :
    R.Fails (Eval.instantiate scope type) (LocatedIn places) := by
  apply Fails.state
  intro m
  split
  · exact Fails.failAt h _
  · exact (Fails.ofCause _).locate h

/-- What is no function fails at the callee, and a call in its body. -/
theorem fails_callPlace (hrules : PlacedBy strict places rules) {callee : Ast.Place}
    {args : List Value} {span : Span} (hroot : places callee.root.span)
    (hcallee : places callee.span) (hargs : ∀ v ∈ args, (ofSpots strict places).value v) :
    (ofSpots strict places).Fails (Eval.callPlace rules scope callee args span)
      (Within places) := by
  unfold Eval.callPlace
  split
  · intro s e t hs hr
    cases hr
  · apply (fails_readPlace callee hroot).within.bind (keeps_readPlace trivial callee)
    intro v hv
    split
    · exact hrules.call _ _ hv hargs
    · exact (Fails.failAt hcallee _).within

mutual

/-- An expression of the code places its errors at spots of the code. -/
theorem fails_eval (hrules : PlacedBy strict places rules) :
    (e : Ast.Expr) → (Ast.Part.expr e).SpotsIn places →
      (ofSpots strict places).Fails (e.eval rules scope) (LocatedIn places)
  | ⟨node, span⟩, hspots => by
      rw [Ast.Expr.eval]
      exact (fails_evalNode hrules span node hspots).locate (hspots span (.expr node span))

/-- The errors of an expression arise at its parts, or are still to get its own span. -/
theorem fails_evalNode (hrules : PlacedBy strict places rules) (span : Span) :
    (node : Ast.Node) → (Ast.Part.expr ⟨node, span⟩).SpotsIn places →
      (ofSpots strict places).Fails (node.eval rules scope span) (Within places)
  | .literal kind lexeme, _ => by
      rw [Ast.Node.eval]
      exact Fails.ofCause _
  | .place place, hspots => by
      rw [Ast.Node.eval]
      have hroot := hspots _ (.root List.mem_cons_self span)
      exact (fails_readPlace place hroot).within
  | .struct type inits, hspots => by
      rw [Ast.Node.eval]
      have hinstantiate : (ofSpots strict places).Fails (Eval.instantiate scope type)
          (LocatedIn places) := fails_instantiate (hspots _ (.type type inits span))
      apply hinstantiate.within.bind (keeps_instantiate trivial hspots)
      intro inst _
      have hinits : ∀ i ∈ inits, (Ast.Part.init i).SpotsIn places :=
        fun i hi => hspots.child (.init hi type span)
      have hnone : (ofSpots strict places).Given inst.type.fields [] := .none _
      apply (fails_evalInits hrules type.name.name hnone inits hinits).within.bind
        (keeps_evalInits hrules.kept trivial type.name.name hnone inits hinits)
      intro fields _
      exact Fails.ofCause _
  | .unary op operand, hspots => by
      rw [Ast.Node.eval]
      have hoperand : (Ast.Part.expr operand).SpotsIn places := hspots.child (.operand ..)
      apply (fails_eval hrules operand hoperand).within.bind
        (keeps_eval hrules.kept trivial operand hoperand)
      intro a _
      exact Fails.ofCause _
  | .binary op left right, hspots => by
      rw [Ast.Node.eval]
      have hleft : (Ast.Part.expr left).SpotsIn places := hspots.child (.left ..)
      have hright : (Ast.Part.expr right).SpotsIn places := hspots.child (.right ..)
      apply (fails_eval hrules left hleft).within.bind (keeps_eval hrules.kept trivial left hleft)
      intro a _
      apply (fails_eval hrules right hright).within.bind
        (keeps_eval hrules.kept trivial right hright)
      intro b _
      exact Fails.ofCause _
  | .call callee args, hspots => by
      rw [Ast.Node.eval]
      have hargs : ∀ arg ∈ args, (Ast.Part.expr arg).SpotsIn places :=
        fun arg harg => hspots.child (.arg harg callee span)
      apply (fails_evalArgs hrules args hargs).within.bind
        (keeps_evalArgs hrules.kept trivial args hargs)
      intro values hvalues
      have hroot := hspots _ (.root List.mem_cons_self span)
      exact fails_callPlace hrules hroot (hspots _ (.callee .refl rfl)) hvalues
  | .func f, _ => by
      rw [Ast.Node.eval]
      exact Fails.pure

/-- The errors of initialisers arise at them or in their values. -/
theorem fails_evalInits (hrules : PlacedBy strict places rules) (typeName : String)
    {declared : NameMap TypeName} {given : NameMap Value}
    (hgiven : (ofSpots strict places).Given declared given) :
    (inits : List Ast.FieldInit) → (∀ i ∈ inits, (Ast.Part.init i).SpotsIn places) →
      (ofSpots strict places).Fails
        (Ast.Node.evalInits rules scope typeName declared given inits) (LocatedIn places)
  | [], _ => by
      rw [Ast.Node.evalInits]
      exact Fails.pure
  | ⟨name, value, span⟩ :: rest, hspots => by
      obtain ⟨hinit, hrest⟩ := List.forall_mem_cons.mp hspots
      rw [Ast.Node.evalInits]
      split
      · exact Fails.failAt (hinit _ (.initName ⟨name, value, span⟩)) _
      · rename_i type hdeclared
        have hvalue : (Ast.Part.expr value).SpotsIn places :=
          hinit.child (.initValue ⟨name, value, span⟩)
        apply (fails_eval hrules value hvalue).bind (keeps_eval hrules.kept trivial value hvalue)
        intro v hv
        split
        · rename_i htype
          exact fails_evalInits hrules typeName (hgiven.insert hv hdeclared htype) rest hrest
        · exact Fails.failAt (hinit _ (.init ⟨name, value, span⟩)) _

/-- The errors of arguments arise in them. -/
theorem fails_evalArgs (hrules : PlacedBy strict places rules) :
    (args : List Ast.Expr) → (∀ arg ∈ args, (Ast.Part.expr arg).SpotsIn places) →
      (ofSpots strict places).Fails (Ast.Node.evalArgs rules scope args) (LocatedIn places)
  | [], _ => by
      rw [Ast.Node.evalArgs]
      exact Fails.pure
  | arg :: rest, hspots => by
      obtain ⟨harg, hrest⟩ := List.forall_mem_cons.mp hspots
      rw [Ast.Node.evalArgs]
      apply (fails_eval hrules arg harg).bind (keeps_eval hrules.kept trivial arg harg)
      intro v _
      exact (fails_evalArgs hrules rest hrest).bind_pure

end

/-! ### Statements and calls -/

/-- A statement of the code places its errors at spots of the code. -/
theorem fails_exec (hrules : PlacedBy strict places rules) (stmt : Ast.Stmt)
    (hspots : (Ast.Part.stmt stmt).SpotsIn places) :
    (ofSpots strict places).Fails (stmt.exec rules scope) (LocatedIn places) := by
  cases stmt with
  | typeDef name definition span =>
      rw [Ast.Stmt.exec]
      intro s e t hs hr
      cases hr
  | define target value span =>
      rw [Ast.Stmt.exec]
      have hvalue : (Ast.Part.expr value).SpotsIn places := hspots.child (.defined ..)
      apply (fails_eval hrules value hvalue).bind (keeps_eval hrules.kept trivial value hvalue)
      intro v _ s e t hs hr
      cases hr
  | assign target value span =>
      rw [Ast.Stmt.exec]
      have hvalue : (Ast.Part.expr value).SpotsIn places := hspots.child (.assigned ..)
      apply (fails_eval hrules value hvalue).bind (keeps_eval hrules.kept trivial value hvalue)
      intro v _
      have hroot := hspots _ (.target target.has_root value span)
      have hpath : ∀ name ∈ target.path, places name.span :=
        fun name hname => hspots _ (.target (target.has_path hname) value span)
      have hassign : (ofSpots strict places).Fails (Eval.assignPlace scope target v)
          (Within places) := fails_assignPlace hroot hpath
      exact (hassign.locate (hspots span (.assign target value span))).bind_pure
  | ret value span =>
      cases value with
      | none =>
          rw [Ast.Stmt.exec]
          exact Fails.pure
      | some value =>
          rw [Ast.Stmt.exec]
          exact (fails_eval hrules value (hspots.child (.returned ..))).bind_pure
  | expr e =>
      rw [Ast.Stmt.exec]
      exact (fails_eval hrules e (hspots.child (.statement e))).bind_pure

/-- The errors of statements arise in them. -/
theorem fails_execAll (hrules : PlacedBy strict places rules) (stmts : List Ast.Stmt)
    (hspots : ∀ stmt ∈ stmts, (Ast.Part.stmt stmt).SpotsIn places) :
    (ofSpots strict places).Fails (Ast.Stmt.execAll rules scope stmts) (LocatedIn places) := by
  induction stmts with
  | nil => exact Fails.pure
  | cons stmt rest ih =>
      obtain ⟨hfirst, hrest⟩ := List.forall_mem_cons.mp hspots
      rw [Ast.Stmt.execAll]
      apply (fails_exec hrules stmt hfirst).bind (keeps_exec hrules.kept trivial stmt hfirst)
      intro outcome _
      cases outcome with
      | completed => exact ih hrest
      | returned v => exact Fails.pure

/-- The rules of the language place errors at spots of the code, however deep calls are nested. A
call itself leaves its place to the call expression. -/
theorem placedBy_call (strict : Bool) (places : Span → Prop) (n : Nat) :
    PlacedBy strict places ⟨strict, Closure.call strict n⟩ := by
  induction n with
  | zero => exact ⟨keptBy_call _ 0, fun _ _ _ _ _ _ => Fails.exhausted⟩
  | succ n ih =>
      refine ⟨keptBy_call _ (n + 1), fun name f args span hf hargs => ?_⟩
      show (ofSpots strict places).Fails (Closure.call strict (n + 1) name f args span) _
      rw [Closure.call]
      have hcheck : (ofSpots strict places).Keeps (Eval.ofCause (f.checkArguments name args))
          fun bindings => ∀ b ∈ bindings, (ofSpots strict places).value b.2 :=
        Keeps.ofCause fun bindings h b hb => hargs _ (Closure.mem_of_checkArguments h hb)
      refine (Fails.ofCause _).bind hcheck fun bindings hbindings => ?_
      have henter : (ofSpots strict places).Fails (Eval.enterScope f.scope bindings)
          (LocatedIn places) := by
        intro s e t hs hr
        rw [Eval.enterScope_apply] at hr
        cases hr
      have hbody : (ofSpots strict places).Fails (Eval.enterScope f.scope bindings >>= fun scope =>
          Ast.Stmt.execAll ⟨strict, Closure.call strict n⟩ scope f.definition.body)
          (LocatedIn places) :=
        henter.bind (keeps_enterScope hf hbindings) fun scope _ =>
          fails_execAll ih f.definition.body (code_func _ hf)
      exact (hbody.within.inFrame _).bind_pure

end Regime

namespace Machine

/-- The spots of the statements and of the bodies of functions in the store. -/
def Spot (s : Machine) (stmts : List Ast.Stmt) (span : Span) : Prop :=
  ∃ stmt : Ast.Stmt, (stmt ∈ stmts ∨ ∃ f, s.store.Contains f ∧ stmt ∈ f.definition.body) ∧
    (Ast.Part.stmt stmt).Spot span

/-- The errors of a run are placed at spots of the statements that are run, or of a body in the
store. -/
theorem locatedIn_of_run {strict : Bool} {bound : Nat} {scope : ScopeId} {stmts : List Ast.Stmt}
    {s t : Machine} {e : EvalError} (h : run strict bound scope stmts s = some (.error e, t)) :
    e.LocatedIn (s.Spot stmts) := by
  have hstore : s.store.CodeIn (Ast.Part.SpotsIn (s.Spot stmts)) := by
    intro f hf stmt hstmt span hspot
    exact ⟨stmt, .inr ⟨f, hf, hstmt⟩, hspot⟩
  have hspots : ∀ stmt ∈ stmts, (Ast.Part.stmt stmt).SpotsIn (s.Spot stmts) :=
    fun stmt hstmt span hspot => ⟨stmt, .inl hstmt, hspot⟩
  have hrules := Regime.placedBy_call strict (s.Spot stmts) bound
  exact Regime.fails_execAll hrules stmts hspots s e t hstore h

end Machine

/-! ### The tokens of a source text -/

/-- A spot in a program that is read from a text runs between tokens of the text. -/
theorem Ast.Program.exists_tokens_of_spot {number : Nat} {file text : String} {program : Program}
    (h : ofSource number file text = .ok program) {stmt : Stmt} (hstmt : stmt ∈ program.stmts)
    {span : Span} (hspot : (Part.stmt stmt).Spot span) :
    ∃ tokens, Token.scan text file = .ok tokens ∧ (∃ t ∈ tokens, t.position = span.start) ∧
      ∃ t ∈ tokens, t.position = span.stop := by
  obtain ⟨tokens, p, hscan, hparse, rfl⟩ := exists_of_ofSource h
  obtain ⟨kind, hkind⟩ := hspot.has
  have hhas : (p.toAst number).outline.Has ⟨kind, some span⟩ := by
    unfold outline
    refine .part ?_ hkind _
    rw [Stmt.outlines_eq]
    exact List.mem_map_of_mem hstmt
  rw [p.outline_toAst number] at hhas
  obtain ⟨stretch, hstretch, hmark⟩ := hhas.of_map
  obtain ⟨-, rest, htokens, -⟩ := ParseTree.Program.wellFormed_of_ofTokens hparse
  have hmem : ∀ t ∈ p.outline.tokens, t ∈ tokens := by
    intro t ht
    have hyield : t ∈ Token.dropComments tokens := by
      rw [htokens]
      exact List.mem_append_left _ ht
    exact (List.mem_filter.mp hyield).1
  obtain ⟨⟨t, ht, hstart⟩, u, hu, hstop⟩ :=
    p.laid_outline.ends ⟨stretch, hstretch, congrArg Mark.span hmark⟩
  exact ⟨tokens, hscan, ⟨t, hmem t ht, hstart⟩, u, hmem u hu, hstop⟩

/-- Reading a text evaluates nothing. -/
theorem Ast.Program.ofSource_ne_eval (number : Nat) (file text : String) (e : EvalError) :
    ofSource number file text ≠ .error (.eval e) := by
  unfold ofSource
  split
  · exact nofun
  · split <;> exact nofun

/-- A new session holds no functions. -/
theorem Session.not_contains_new (config : Config) (output : Output) (f : Closure) :
    ¬ (new config output).machine.store.Contains f := by
  rintro ⟨id, scope, hscope, entry, hentry, -⟩
  unfold new ofStore Store.addRoot at hscope
  rw [Store.scope?_add] at hscope
  split at hscope
  · cases hscope
    cases hentry
  · simp [Store.scope?, Store.empty] at hscope

/-- What fails while it runs is a text that can be read. -/
theorem Session.exists_of_runIn_eval {s t : Session} {bound : Nat} {scope : ScopeId}
    {text : String} {e : EvalError} (h : s.runIn bound scope text = some (.error (.eval e), t)) :
    ∃ program m, Ast.Program.ofSource (s.sources + 1) s.config.file text = .ok program ∧
      Machine.run s.config.strict bound scope program.stmts s.machine = some (.error e, m) := by
  rcases hread : Ast.Program.ofSource (s.sources + 1) s.config.file text with failure | program
  · rw [runIn_of_unread hread] at h
    cases h
    exact absurd hread (Ast.Program.ofSource_ne_eval _ _ _ e)
  · rw [runIn_of_read hread] at h
    obtain ⟨⟨r, m⟩, hrun, hended⟩ := Option.map_eq_some_iff.mp h
    cases r with
    | ok outcome => cases hended
    | error e' =>
        cases hended
        exact ⟨program, m, rfl, hrun⟩

namespace Machine

/-- **Every error of an evaluation is located.** A run of statements that fails, on any machine and
in any scope of it, gives an error with a span. It is the span of a statement, an expression, a
name, a type or an initialiser, or of what a call calls, in the statements that are run or in the
body of a function in the store. So where one text is run in a new session, the span runs between
tokens of that text. -/
theorem run_error_located :
    (∀ strict bound scope stmts (s : Machine) e t,
      run strict bound scope stmts s = some (.error e, t) →
      ∃ span, e.span = some span ∧ ∃ stmt : Ast.Stmt,
        (stmt ∈ stmts ∨ ∃ f, s.store.Contains f ∧ stmt ∈ f.definition.body) ∧
          (Ast.Part.stmt stmt).Spot span) ∧
    ∀ config output bound scope text e t,
      (Session.new config output).runIn bound scope text = some (.error (.eval e), t) →
      ∃ span tokens, e.span = some span ∧ Token.scan text config.file = .ok tokens ∧
        (∃ u ∈ tokens, u.position = span.start) ∧ ∃ u ∈ tokens, u.position = span.stop := by
  constructor
  · intro strict bound scope stmts s e t h
    exact locatedIn_of_run h
  · intro config output bound scope text e t h
    obtain ⟨program, m, hread, hrun⟩ := Session.exists_of_runIn_eval h
    obtain ⟨span, hspan, stmt, hstmt, hspot⟩ := locatedIn_of_run hrun
    have hmem : stmt ∈ program.stmts := by
      rcases hstmt with hstmt | ⟨f, hf, -⟩
      · exact hstmt
      · exact absurd hf (Session.not_contains_new config output f)
    obtain ⟨tokens, hscan, hstart, hstop⟩ := Ast.Program.exists_tokens_of_spot hread hmem hspot
    exact ⟨span, tokens, hspan, hscan, hstart, hstop⟩

/-- Whether a run has failed. -/
def fails : Except Failure (Option Value) → Bool
  | .error (.eval _) => true
  | _ => false

/-- A function of an earlier text that fails in its body, and a text that fails in an operand. -/
theorem run_error_located_body :
    (∃ (s : Session) (program : Ast.Program) (e : EvalError) (t : Machine),
      Ast.Program.ofSource 2 "" "f(true);" = .ok program ∧
      run false 9 s.root program.stmts s.machine = some (.error e, t) ∧
      ∃ span, e.span = some span ∧ ∃ stmt : Ast.Stmt,
        (stmt ∈ program.stmts ∨
          ∃ f, s.machine.store.Contains f ∧ stmt ∈ f.definition.body) ∧
        (Ast.Part.stmt stmt).Spot span) ∧
    ∃ e t span tokens,
      (Session.new ⟨"", some 8, false⟩ .silent).runIn 9 ⟨0⟩ "return 1 + -true;" =
        some (.error (.eval e), t) ∧
      e.span = some span ∧ Token.scan "return 1 + -true;" "" = .ok tokens ∧
      (∃ u ∈ tokens, u.position = span.start) ∧ ∃ u ∈ tokens, u.position = span.stop := by
  constructor
  · let first := (Session.new ⟨"", some 8, false⟩ .silent).run 9
      "let f = func(x bool) \x7b return -x; \x7d;"
    have hruns : first.any (fun p => decide (p.2.sources = 1) && decide (p.2.config.file = "") &&
        !p.2.config.strict && (p.2.run 9 "f(true);").any fun q => fails q.1) = true := by
      decide +kernel
    obtain ⟨⟨r, s⟩, -, hnext⟩ := (Option.any_eq_true _ _).mp hruns
    simp only [Bool.and_eq_true, decide_eq_true_eq, Bool.not_eq_true'] at hnext
    obtain ⟨⟨⟨hsources, hfile⟩, hstrict⟩, hnext⟩ := hnext
    obtain ⟨⟨q, t⟩, ht, hq⟩ := (Option.any_eq_true _ _).mp hnext
    unfold fails at hq
    split at hq
    · rename_i e heq
      rw [show q = _ from heq] at ht
      obtain ⟨program, m, hread, hrun⟩ := Session.exists_of_runIn_eval ht
      rw [hsources, hfile] at hread
      rw [hstrict] at hrun
      exact ⟨s, program, e, m, hread, hrun, run_error_located.1 _ _ _ _ _ _ _ hrun⟩
    · cases hq
  · have hruns : ((Session.new ⟨"", some 8, false⟩ .silent).runIn 9 ⟨0⟩
        "return 1 + -true;").any (fun q => fails q.1) = true := by decide +kernel
    obtain ⟨⟨q, t⟩, ht, hq⟩ := (Option.any_eq_true _ _).mp hruns
    unfold fails at hq
    split at hq
    · rename_i e heq
      rw [show q = _ from heq] at ht
      obtain ⟨span, tokens, hlocated⟩ := run_error_located.2 _ _ _ _ _ _ _ ht
      exact ⟨e, t, span, tokens, ht, hlocated⟩
    · cases hq

/-- Whether a run has failed with a span that none of the statements has at a node of the kinds of
`Ast.NodeKind.spots`. -/
def failsBeside (stmts : List Ast.Stmt) : Except EvalError Outcome → Bool
  | .error e => e.span.any fun span =>
      decide (∀ stmt ∈ stmts, ∀ kind ∈ Ast.NodeKind.spots, ¬ stmt.outline.Has ⟨kind, some span⟩)
  | .ok _ => false

/-- Where what a call calls is no function, the error has the span of the place that is called. A
field of a place is neither a statement nor an expression, a name, a type or an initialiser, and has
a span of its own. -/
theorem error_at_called_place :
    let s : Session := .new ⟨"", some 8, false⟩ .silent
    ∃ program e t span, Ast.Program.ofSource 1 "" "let p = 1; p->x();" = .ok program ∧
      run false 9 s.root program.stmts s.machine = some (.error e, t) ∧ e.span = some span ∧
      ¬ ∃ stmt : Ast.Stmt,
        (stmt ∈ program.stmts ∨
          ∃ f, s.machine.store.Contains f ∧ stmt ∈ f.definition.body) ∧
        ∃ kind ∈ Ast.NodeKind.spots, stmt.outline.Has ⟨kind, some span⟩ := by
  intro s
  have hruns : (Ast.Program.ofSource 1 "" "let p = 1; p->x();").toOption.any (fun program =>
      (run false 9 s.root program.stmts s.machine).any fun r =>
        failsBeside program.stmts r.1) = true := by decide +kernel
  rcases hread : Ast.Program.ofSource 1 "" "let p = 1; p->x();" with failure | program
  · rw [hread] at hruns
    cases hruns
  · rw [hread, Except.toOption, Option.any_some] at hruns
    obtain ⟨⟨r, t⟩, hrun, hfails⟩ := (Option.any_eq_true _ _).mp hruns
    cases r with
    | ok outcome => cases hfails
    | error e =>
        obtain ⟨span, hspan, hbeside⟩ := (Option.any_eq_true _ _).mp hfails
        refine ⟨program, e, t, span, rfl, hrun, hspan, ?_⟩
        rintro ⟨stmt, hstmt | ⟨f, hf, -⟩, kind, hkind, hhas⟩
        · exact of_decide_eq_true hbeside stmt hstmt kind hkind hhas
        · exact Session.not_contains_new _ _ f hf

end Machine

end StructScript
