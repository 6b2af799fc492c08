import StructScript.Proofs.Evaluation.Frames
import StructScript.Proofs.Evaluation.Judgement

/-!
# The moments of an evaluation

A moment of an evaluation is a piece of it together with the machine that it starts from.
Evaluating the piece comes to evaluate others, each from the machine that those before it have left
(`Moment.Starts`), and the moments of an evaluation are those reached in this way from its first
one.

That these are all of them shows in two results. A moment starts only such as have a smaller bound
on the nesting of calls or follow a part of its syntax, so that no sequence of them is endless; and
an evaluation uses up its bound exactly if a call with no bound left is among its moments.

Main results:

* `Moment.wellFounded_starts`;
* `Moment.exhausts_iff`.
-/

namespace StructScript

/-- A piece of an evaluation. -/
inductive Task where
  | expr (scope : ScopeId) (e : Ast.Expr)
  | inits (scope : ScopeId) (typeName : String) (declared : NameMap TypeName)
      (given : NameMap Value) (inits : List Ast.FieldInit)
  | args (scope : ScopeId) (args : List Ast.Expr)
  | stmt (scope : ScopeId) (stmt : Ast.Stmt)
  | stmts (scope : ScopeId) (stmts : List Ast.Stmt)
  | call (name : String) (f : Closure) (args : List Value) (span : Span)

/-- A piece of an evaluation, the machine that it starts from, and the bound on the nesting of its
calls. -/
structure Moment where
  bound : Nat
  task : Task
  machine : Machine

/-- The rules of an evaluation whose calls are nested up to a bound. -/
abbrev Rules.upTo (strict : Bool) (bound : Nat) : Rules := ⟨strict, Closure.call strict bound⟩

/-- The size of the syntax that a piece of an evaluation follows. -/
noncomputable def Task.size : Task → Nat
  | expr _ e => sizeOf e
  | inits _ _ _ _ rest => sizeOf rest
  | args _ rest => sizeOf rest
  | stmt _ first => sizeOf first
  | stmts _ rest => sizeOf rest
  | call .. => 0

/-- A step that leaves the running calls alone ends under any bound. -/
theorem Eval.Quiet.ne_none {α : Type} {m : Eval α} {post : α → Prop}
    (h : Eval.Quiet (fun _ => True) m post) (s : Machine) : m s ≠ none := by
  obtain ⟨r, store, text, hrun, -⟩ := h s.store
  rw [show m s = _ from hrun s.output s.calls]
  exact Option.some_ne_none _

/-- So does reading a place. -/
theorem Eval.readPlace_ne_none (scope : ScopeId) (place : Ast.Place) (s : Machine) :
    Eval.readPlace scope place s ≠ none := by
  induction place with
  | var name => exact Eval.Quiet.ne_none (.lookup scope name) s
  | field base name span ih =>
      intro h
      rw [Eval.readPlace] at h
      rcases Bounded.bind_eq_none_iff.mp h with h | ⟨_, _, _, h⟩
      · exact ih h
      · cases h

namespace Moment

/-- Evaluating the first moment comes to evaluate the second. -/
inductive Starts (strict : Bool) : Moment → Moment → Prop where
  | inits {n scope type inits span m m' inst}
      (h : Eval.instantiate scope type m = some (.ok inst, m')) :
      Starts strict ⟨n, .expr scope ⟨.struct type inits, span⟩, m⟩
        ⟨n, .inits scope type.name.name inst.type.fields [] inits, m'⟩
  | operand {n scope op e span m} :
      Starts strict ⟨n, .expr scope ⟨.unary op e, span⟩, m⟩ ⟨n, .expr scope e, m⟩
  | left {n scope op a b span m} :
      Starts strict ⟨n, .expr scope ⟨.binary op a b, span⟩, m⟩ ⟨n, .expr scope a, m⟩
  | right {n scope op a b span m m' v}
      (h : Ast.Expr.eval (.upTo strict n) scope a m = some (.ok v, m')) :
      Starts strict ⟨n, .expr scope ⟨.binary op a b, span⟩, m⟩ ⟨n, .expr scope b, m'⟩
  | args {n scope callee args span m} :
      Starts strict ⟨n, .expr scope ⟨.call callee args, span⟩, m⟩ ⟨n, .args scope args, m⟩
  | call {n scope callee args span m m' m'' values f}
      (hargs : Ast.Node.evalArgs (.upTo strict n) scope args m = some (.ok values, m'))
      (hbuiltin : Eval.builtin? callee = none)
      (hcallee : Eval.readPlace scope callee m' = some (.ok (.func f), m'')) :
      Starts strict ⟨n, .expr scope ⟨.call callee args, span⟩, m⟩
        ⟨n, .call callee.written f values span, m''⟩
  | init {n scope typeName declared given name value span rest m type}
      (hfield : NameMap.find? declared name.name = some type) :
      Starts strict ⟨n, .inits scope typeName declared given (⟨name, value, span⟩ :: rest), m⟩
        ⟨n, .expr scope value, m⟩
  | nextInit {n scope typeName declared given name value span rest m m' type v}
      (hfield : NameMap.find? declared name.name = some type)
      (h : Ast.Expr.eval (.upTo strict n) scope value m = some (.ok v, m'))
      (htype : v.typeName = type.name) :
      Starts strict ⟨n, .inits scope typeName declared given (⟨name, value, span⟩ :: rest), m⟩
        ⟨n, .inits scope typeName declared (given.insert name.name v) rest, m'⟩
  | arg {n scope e rest m} : Starts strict ⟨n, .args scope (e :: rest), m⟩ ⟨n, .expr scope e, m⟩
  | nextArg {n scope e rest m m' v}
      (h : Ast.Expr.eval (.upTo strict n) scope e m = some (.ok v, m')) :
      Starts strict ⟨n, .args scope (e :: rest), m⟩ ⟨n, .args scope rest, m'⟩
  | defined {n scope target e span m} :
      Starts strict ⟨n, .stmt scope (.define target e span), m⟩ ⟨n, .expr scope e, m⟩
  | assigned {n scope target e span m} :
      Starts strict ⟨n, .stmt scope (.assign target e span), m⟩ ⟨n, .expr scope e, m⟩
  | returned {n scope e span m} :
      Starts strict ⟨n, .stmt scope (.ret (some e) span), m⟩ ⟨n, .expr scope e, m⟩
  | statement {n scope e m} : Starts strict ⟨n, .stmt scope (.expr e), m⟩ ⟨n, .expr scope e, m⟩
  | stmt {n scope stmt rest m} :
      Starts strict ⟨n, .stmts scope (stmt :: rest), m⟩ ⟨n, .stmt scope stmt, m⟩
  | nextStmt {n scope stmt rest m m'}
      (h : Ast.Stmt.exec (.upTo strict n) scope stmt m = some (.ok .completed, m')) :
      Starts strict ⟨n, .stmts scope (stmt :: rest), m⟩ ⟨n, .stmts scope rest, m'⟩
  | body {n name f args span m m' bindings calls scope}
      (hargs : Closure.checkArguments name f args = .ok bindings)
      (hpush : CallStack.push? ⟨name, some span⟩ m.calls = .ok calls)
      (hscope : Eval.enterScope f.scope bindings { m with calls := calls } = some (.ok scope, m')) :
      Starts strict ⟨n + 1, .call name f args span, m⟩ ⟨n, .stmts scope f.definition.body, m'⟩

/-- The second moment is one of the evaluation that begins with the first. -/
def Reaches (strict : Bool) : Moment → Moment → Prop := Relation.ReflTransGen (Starts strict)

/-- A moment comes before those that it starts: either their bound is smaller, or it is the same and
they follow a part of the syntax. -/
theorem Starts.rank_lt {strict : Bool} {x y : Moment} (h : Starts strict x y) :
    y.bound < x.bound ∨ y.bound = x.bound ∧ y.task.size < x.task.size := by
  cases h <;> simp [Task.size] <;> omega

/-- Evaluating the moment uses up its bound. -/
def Exhausts (strict : Bool) (x : Moment) : Prop :=
  match x.task with
  | .expr scope e => e.eval (.upTo strict x.bound) scope x.machine = none
  | .inits scope typeName declared given inits =>
    Ast.Node.evalInits (.upTo strict x.bound) scope typeName declared given inits x.machine = none
  | .args scope args => Ast.Node.evalArgs (.upTo strict x.bound) scope args x.machine = none
  | .stmt scope stmt => stmt.exec (.upTo strict x.bound) scope x.machine = none
  | .stmts scope stmts => Ast.Stmt.execAll (.upTo strict x.bound) scope stmts x.machine = none
  | .call name f args span => Closure.call strict x.bound name f args span x.machine = none

/-! ### Where the bound is used up -/

/-- The place of an expression has no part in whether it ends. -/
theorem exhausts_expr_iff {strict : Bool} {n : Nat} {scope : ScopeId} {node : Ast.Node}
    {span : Span} {m : Machine} : Exhausts strict ⟨n, .expr scope ⟨node, span⟩, m⟩ ↔
      node.eval (.upTo strict n) scope span m = none := by
  simp only [Exhausts, Ast.Expr.eval, Eval.locate, Bounded.mapError_eq_none_iff]

section cases

variable {strict : Bool} {n : Nat} {scope : ScopeId} {m : Machine}

/-- An expression that uses up the bound starts a piece that does: a part of it, or the call that it
makes. -/
theorem exists_starts_of_expr (e : Ast.Expr) (h : Exhausts strict ⟨n, .expr scope e, m⟩) :
    ∃ y, Starts strict ⟨n, .expr scope e, m⟩ y ∧ y.Exhausts strict := by
  obtain ⟨node, span⟩ := e
  rw [exhausts_expr_iff] at h
  cases node with
  | literal kind lexeme => simp [Ast.Node.eval, Eval.ofCause] at h
  | place p =>
      rw [Ast.Node.eval] at h
      exact absurd h (Eval.readPlace_ne_none scope p m)
  | struct type inits =>
      rw [Ast.Node.eval] at h
      rcases Bounded.bind_eq_none_iff.mp h with h | ⟨inst, m', hinst, h⟩
      · exact absurd h (Eval.Quiet.ne_none (.instantiate scope type) m)
      · rcases Bounded.bind_eq_none_iff.mp h with h | ⟨_, _, _, h⟩
        · exact ⟨_, .inits hinst, h⟩
        · cases h
  | unary op e =>
      rw [Ast.Node.eval] at h
      rcases Bounded.bind_eq_none_iff.mp h with h | ⟨_, _, _, h⟩
      · exact ⟨_, .operand, h⟩
      · cases h
  | binary op a b =>
      rw [Ast.Node.eval] at h
      rcases Bounded.bind_eq_none_iff.mp h with h | ⟨_, _, ha, h⟩
      · exact ⟨_, .left, h⟩
      · rcases Bounded.bind_eq_none_iff.mp h with h | ⟨_, _, _, h⟩
        · exact ⟨_, .right ha, h⟩
        · cases h
  | call callee args =>
      rw [Ast.Node.eval] at h
      rcases Bounded.bind_eq_none_iff.mp h with h | ⟨values, m', hargs, h⟩
      · exact ⟨_, .args, h⟩
      · unfold Eval.callPlace at h
        rcases hbuiltin : Eval.builtin? callee with _ | f
        · simp only [hbuiltin] at h
          rcases Bounded.bind_eq_none_iff.mp h with h | ⟨v, m'', hcallee, h⟩
          · exact absurd h (Eval.readPlace_ne_none scope callee m')
          · cases v with
            | func f => exact ⟨_, .call hargs hbuiltin hcallee, h⟩
            | _ => cases h
        · simp only [hbuiltin] at h
          cases h
  | func f => simp [Ast.Node.eval] at h

/-- Initialisers that use up the bound start one whose value does, or the others do. -/
theorem exists_starts_of_inits {typeName : String} {declared : NameMap TypeName}
    {given : NameMap Value} (inits : List Ast.FieldInit)
    (h : Exhausts strict ⟨n, .inits scope typeName declared given inits, m⟩) :
    ∃ y, Starts strict ⟨n, .inits scope typeName declared given inits, m⟩ y ∧
      y.Exhausts strict := by
  cases inits with
  | nil => simp [Exhausts, Ast.Node.evalInits] at h
  | cons i rest =>
      obtain ⟨name, value, span⟩ := i
      simp only [Exhausts, Ast.Node.evalInits] at h
      rcases hfield : declared.find? name.name with _ | type
      · simp only [hfield] at h
        cases h
      · simp only [hfield] at h
        rcases Bounded.bind_eq_none_iff.mp h with h | ⟨v, m', hv, h⟩
        · exact ⟨_, .init hfield, h⟩
        · split at h
          · rename_i htype
            exact ⟨_, .nextInit hfield hv htype, h⟩
          · cases h

/-- So do arguments. -/
theorem exists_starts_of_args (args : List Ast.Expr)
    (h : Exhausts strict ⟨n, .args scope args, m⟩) :
    ∃ y, Starts strict ⟨n, .args scope args, m⟩ y ∧ y.Exhausts strict := by
  cases args with
  | nil => simp [Exhausts, Ast.Node.evalArgs] at h
  | cons e rest =>
      simp only [Exhausts, Ast.Node.evalArgs] at h
      rcases Bounded.bind_eq_none_iff.mp h with h | ⟨v, m', hv, h⟩
      · exact ⟨_, .arg, h⟩
      · rcases Bounded.bind_eq_none_iff.mp h with h | ⟨_, _, _, h⟩
        · exact ⟨_, .nextArg hv, h⟩
        · cases h

/-- A statement that uses up the bound starts an expression that does. -/
theorem exists_starts_of_stmt (stmt : Ast.Stmt) (h : Exhausts strict ⟨n, .stmt scope stmt, m⟩) :
    ∃ y, Starts strict ⟨n, .stmt scope stmt, m⟩ y ∧ y.Exhausts strict := by
  cases stmt with
  | typeDef name definition span =>
      simp only [Exhausts, Ast.Stmt.exec] at h
      cases h
  | define target value span =>
      simp only [Exhausts, Ast.Stmt.exec] at h
      rcases Bounded.bind_eq_none_iff.mp h with h | ⟨v, m', hv, h⟩
      · exact ⟨_, .defined, h⟩
      · cases h
  | assign target value span =>
      simp only [Exhausts, Ast.Stmt.exec] at h
      rcases Bounded.bind_eq_none_iff.mp h with h | ⟨v, m', hv, h⟩
      · exact ⟨_, .assigned, h⟩
      · rcases Bounded.bind_eq_none_iff.mp h with h | ⟨_, _, _, h⟩
        · rw [Eval.locate, Bounded.mapError_eq_none_iff, Eval.assignPlace] at h
          split at h <;> cases h
        · cases h
  | ret value span =>
      cases value with
      | none => simp [Exhausts, Ast.Stmt.exec] at h
      | some e =>
          simp only [Exhausts, Ast.Stmt.exec] at h
          rcases Bounded.bind_eq_none_iff.mp h with h | ⟨_, _, _, h⟩
          · exact ⟨_, .returned, h⟩
          · cases h
  | expr e =>
      simp only [Exhausts, Ast.Stmt.exec] at h
      rcases Bounded.bind_eq_none_iff.mp h with h | ⟨_, _, _, h⟩
      · exact ⟨_, .statement, h⟩
      · cases h

/-- Statements that use up the bound start one that does, or those behind it do. -/
theorem exists_starts_of_stmts (stmts : List Ast.Stmt)
    (h : Exhausts strict ⟨n, .stmts scope stmts, m⟩) :
    ∃ y, Starts strict ⟨n, .stmts scope stmts, m⟩ y ∧ y.Exhausts strict := by
  cases stmts with
  | nil => simp [Exhausts, Ast.Stmt.execAll] at h
  | cons stmt rest =>
      simp only [Exhausts, Ast.Stmt.execAll] at h
      rcases Bounded.bind_eq_none_iff.mp h with h | ⟨outcome, m', hstmt, h⟩
      · exact ⟨_, .stmt, h⟩
      · cases outcome with
        | completed => exact ⟨_, .nextStmt hstmt, h⟩
        | returned v => cases h

/-- A call that uses up the bound starts a body that does. -/
theorem exists_starts_of_call {name : String} {f : Closure} {args : List Value} {span : Span}
    (h : Exhausts strict ⟨n + 1, .call name f args span, m⟩) :
    ∃ y, Starts strict ⟨n + 1, .call name f args span, m⟩ y ∧ y.Exhausts strict := by
  simp only [Exhausts, Closure.call_succ] at h
  rcases hargs : f.checkArguments name args with cause | bindings
  · rw [hargs] at h
    cases h
  · rw [hargs] at h
    change (Eval.inFrame _ (f.body (.upTo strict n) bindings) >>= _) m = none at h
    rcases Bounded.bind_eq_none_iff.mp h with h | ⟨_, _, _, h⟩
    · rcases m.calls.hasRoom_or_full with hroom | ⟨limit, hfull⟩
      · rw [Eval.inFrame_of_hasRoom hroom, Option.map_eq_none_iff, Closure.body] at h
        rcases Bounded.bind_eq_none_iff.mp h with h | ⟨scope, m', hscope, h⟩
        · cases h
        · exact ⟨_, .body hargs (CallStack.push?_of_hasRoom hroom _) hscope, h⟩
      · rw [Eval.inFrame_of_full hfull] at h
        cases h
    · cases h

end cases

/-- What uses up its bound is a call with no bound left, or it starts what does. -/
theorem Exhausts.cases {strict : Bool} {x : Moment} (h : x.Exhausts strict) :
    (∃ name f args span m, x = ⟨0, .call name f args span, m⟩) ∨
      ∃ y, Starts strict x y ∧ y.Exhausts strict := by
  obtain ⟨n, task, m⟩ := x
  cases task with
  | expr scope e => exact .inr (exists_starts_of_expr e h)
  | inits scope typeName declared given inits => exact .inr (exists_starts_of_inits inits h)
  | args scope args => exact .inr (exists_starts_of_args args h)
  | stmt scope stmt => exact .inr (exists_starts_of_stmt stmt h)
  | stmts scope stmts => exact .inr (exists_starts_of_stmts stmts h)
  | call name f args span =>
      cases n with
      | zero => exact .inl ⟨name, f, args, span, m, rfl⟩
      | succ n => exact .inr (exists_starts_of_call h)

/-- A moment uses up its bound if one that it starts does. -/
theorem Starts.exhausts {strict : Bool} {x y : Moment} (h : Starts strict x y)
    (hy : y.Exhausts strict) : x.Exhausts strict := by
  cases h with
  | inits h =>
      rw [exhausts_expr_iff, Ast.Node.eval]
      exact Bounded.bind_eq_none_iff.mpr (.inr ⟨_, _, h, Bounded.bind_eq_none_iff.mpr (.inl hy)⟩)
  | operand | left | args =>
      rw [exhausts_expr_iff, Ast.Node.eval]
      exact Bounded.bind_eq_none_iff.mpr (.inl hy)
  | right h =>
      rw [exhausts_expr_iff, Ast.Node.eval]
      exact Bounded.bind_eq_none_iff.mpr (.inr ⟨_, _, h, Bounded.bind_eq_none_iff.mpr (.inl hy)⟩)
  | call hargs hbuiltin hcallee =>
      rw [exhausts_expr_iff, Ast.Node.eval]
      refine Bounded.bind_eq_none_iff.mpr (.inr ⟨_, _, hargs, ?_⟩)
      simp only [Eval.callPlace, hbuiltin]
      exact Bounded.bind_eq_none_iff.mpr (.inr ⟨_, _, hcallee, hy⟩)
  | init hfield =>
      simp only [Exhausts, Ast.Node.evalInits, hfield]
      exact Bounded.bind_eq_none_iff.mpr (.inl hy)
  | nextInit hfield h htype =>
      simp only [Exhausts, Ast.Node.evalInits, hfield]
      refine Bounded.bind_eq_none_iff.mpr (.inr ⟨_, _, h, ?_⟩)
      rw [if_pos htype]
      exact hy
  | arg =>
      simp only [Exhausts, Ast.Node.evalArgs]
      exact Bounded.bind_eq_none_iff.mpr (.inl hy)
  | nextArg h =>
      simp only [Exhausts, Ast.Node.evalArgs]
      exact Bounded.bind_eq_none_iff.mpr (.inr ⟨_, _, h, Bounded.bind_eq_none_iff.mpr (.inl hy)⟩)
  | defined | assigned | returned | statement =>
      simp only [Exhausts, Ast.Stmt.exec]
      exact Bounded.bind_eq_none_iff.mpr (.inl hy)
  | stmt =>
      simp only [Exhausts, Ast.Stmt.execAll]
      exact Bounded.bind_eq_none_iff.mpr (.inl hy)
  | nextStmt h =>
      simp only [Exhausts, Ast.Stmt.execAll]
      exact Bounded.bind_eq_none_iff.mpr (.inr ⟨_, _, h, hy⟩)
  | @body n name f args span m m' bindings calls scope hargs hpush hscope =>
      -- the frame is entered, and the bound is used up inside
      have hbody : f.body (.upTo strict n) bindings { m with calls := calls } = none :=
        Bounded.bind_eq_none_iff.mpr (.inr ⟨_, _, hscope, hy⟩)
      simp only [Exhausts, Closure.call_succ, hargs]
      change (Eval.inFrame _ (f.body (.upTo strict n) bindings) >>= _) m = none
      refine Bounded.bind_eq_none_iff.mpr (.inl ?_)
      simp only [Eval.inFrame, hpush, hbody]

/-- A moment uses up its bound if one that it reaches does. -/
theorem Reaches.exhausts {strict : Bool} {x y : Moment} (h : Reaches strict x y)
    (hy : y.Exhausts strict) : x.Exhausts strict := by
  induction h using Relation.ReflTransGen.head_induction_on with
  | refl => exact hy
  | head hstarts _ ih => exact hstarts.exhausts ih

/-- No evaluation has an endless sequence of moments each of which starts the next. -/
theorem wellFounded_starts (strict : Bool) : WellFounded fun y x => Starts strict x y := by
  let rank (x : Moment) : Nat × Nat := (x.bound, x.task.size)
  refine Subrelation.wf (fun {y x} h => ?_)
    (InvImage.wf rank (Prod.lex Nat.lt_wfRel Nat.lt_wfRel).wf)
  exact Prod.lex_def.mpr h.rank_lt

/-- An evaluation uses up its bound exactly if it reaches a call with no bound left. -/
theorem exhausts_iff {strict : Bool} {x : Moment} :
    x.Exhausts strict ↔ ∃ name f args span m, Reaches strict x ⟨0, .call name f args span, m⟩ := by
  constructor
  · induction x using (wellFounded_starts strict).induction with
    | _ x ih =>
        intro h
        rcases h.cases with ⟨name, f, args, span, m, rfl⟩ | ⟨y, hstarts, hy⟩
        · exact ⟨name, f, args, span, m, .refl⟩
        · obtain ⟨name, f, args, span, m, hreaches⟩ := ih y hstarts hy
          exact ⟨name, f, args, span, m, .head hstarts hreaches⟩
  · rintro ⟨name, f, args, span, m, h⟩
    have hlast : Exhausts strict ⟨0, .call name f args span, m⟩ := rfl
    exact h.exhausts hlast

end Moment
end StructScript
