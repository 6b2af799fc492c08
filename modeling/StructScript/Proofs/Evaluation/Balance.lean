import StructScript.Proofs.Evaluation.Backtrace
import StructScript.Proofs.Evaluation.Conformity
import StructScript.Proofs.Evaluation.Moment
import StructScript.Proofs.Evaluation.Termination

/-!
# Running calls at every moment

No step of an evaluation but the entering of a call changes the running calls, and that one asks
for room. So at every moment the calls that were running at first are running still, and no more
than the limit allows (`Moment.extends_of_reaches`); and between the runs of a session no calls are
running (`Session.Reachable.calls_eq`).

Main result: `calls_balanced`, with all that holds of running calls and backtraces.
-/

namespace StructScript

/-- What holds of the running calls `s` where those of `before` run: they are some made since and
then those of `before`, and no more than the limit allows. -/
structure CallStack.Extends (before s : CallStack) : Prop where
  frames : ∃ since, s.frames = since ++ before.frames
  limit : s.limit = before.limit
  within : ∀ limit, before.limit = some limit → before.depth ≤ limit → s.depth ≤ limit

/-- A stack of calls extends itself. -/
theorem CallStack.Extends.refl (s : CallStack) : s.Extends s :=
  ⟨⟨[], rfl⟩, rfl, fun _ _ h => h⟩

/-- One call more extends what was extended before. -/
theorem CallStack.Extends.push? {before s t : CallStack} {frame : Frame} (h : before.Extends s)
    (hpush : s.push? frame = .ok t) : before.Extends t := by
  rcases s.hasRoom_or_full with hroom | ⟨limit, hfull⟩
  · cases (CallStack.push?_of_hasRoom hroom frame).symm.trans hpush
    obtain ⟨since, hframes⟩ := h.frames
    refine ⟨⟨frame :: since, congrArg (frame :: ·) hframes⟩, h.limit, fun limit hlimit _ => ?_⟩
    exact hroom limit (h.limit.trans hlimit)
  · cases (CallStack.push?_of_full hfull frame).symm.trans hpush

namespace Moment

/-- The judgement of balanced evaluation, for any code. -/
def balance : Judgement := .tracing (fun _ => True) fun _ _ => trivial

/-- Balance is kept by every way of running up to a bound. -/
theorem balance_covers (strict : Bool) (n : Nat) :
    balance.Covers (.upTo strict n) (.upTo strict n) :=
  Judgement.tracing_covers _ _ strict n

/-- What the judgement of balanced evaluation holds of leaves the running calls alone. -/
theorem calls_eq_of_holds {α : Type} {m m' : Eval α} {post : α → Prop}
    (h : balance.Holds m m' post) {s t : Machine} {r : Except EvalError α}
    (hr : m s = some (r, t)) : t.calls = s.calls :=
  ((h s fun _ _ => trivial).1 r t hr).1

/-- From a moment to one that it starts the running calls stay as they are, or one is entered. -/
theorem Starts.calls {strict : Bool} {x y : Moment} (h : Starts strict x y) :
    y.machine.calls = x.machine.calls ∨
      ∃ frame, x.machine.calls.push? frame = .ok y.machine.calls := by
  have heval {n : Nat} {scope : ScopeId} {e : Ast.Expr} {m m' : Machine} {v : Value}
      (h : e.eval (.upTo strict n) scope m = some (.ok v, m')) : m'.calls = m.calls :=
    calls_eq_of_holds (balance.holds_eval (balance_covers strict n) scope e trivial) h
  cases h with
  | inits h => exact .inl (calls_eq_of_holds (balance.quiet (.instantiate _ _)) h)
  | operand => exact .inl rfl
  | left => exact .inl rfl
  | right h => exact .inl (heval h)
  | args => exact .inl rfl
  | @call n scope callee args span m m' m'' values f hargs _ hcallee =>
      have hread := calls_eq_of_holds (balance.holds_readPlace scope callee) hcallee
      have hvalues := calls_eq_of_holds
        (balance.holds_evalArgs (balance_covers strict n) scope args fun _ _ => trivial) hargs
      exact .inl (hread.trans hvalues)
  | init => exact .inl rfl
  | nextInit _ h _ => exact .inl (heval h)
  | arg => exact .inl rfl
  | nextArg h => exact .inl (heval h)
  | defined => exact .inl rfl
  | assigned => exact .inl rfl
  | returned => exact .inl rfl
  | statement => exact .inl rfl
  | stmt => exact .inl rfl
  | @nextStmt n scope stmt rest m m' h =>
      exact .inl <| calls_eq_of_holds
        (balance.holds_exec (balance_covers strict n) scope stmt trivial) h
  | body _ hpush hscope =>
      cases hscope
      exact .inr ⟨_, hpush⟩

/-- At every moment the calls that ran at first are running still, and no more than the limit
allows. -/
theorem extends_of_reaches {strict : Bool} {x y : Moment} (h : Reaches strict x y) :
    x.machine.calls.Extends y.machine.calls := by
  induction h with
  | refl => exact .refl _
  | tail _ hstarts ih =>
      rcases hstarts.calls with hsame | ⟨frame, hpush⟩
      · rw [hsame]
        exact ih
      · exact ih.push? hpush

end Moment

/-- An error at the limit on calls, where no calls ran at first, records as many calls as the limit
allows, and none if it allows none. -/
theorem EvalError.Traced.backtrace_of_empty {site : Frame → Prop} {before : CallStack}
    {e : EvalError} (h : e.Traced site before) (hempty : before.frames = []) {limit : Nat}
    (hcause : e.cause = .recursionLimitExceeded limit) :
    (limit = 0 ∧ e.backtrace = none) ∨
      0 < limit ∧ ∃ frames, e.backtrace = some frames ∧ frames.length = limit := by
  obtain ⟨-, hnone, hsome⟩ := h.limit limit hcause
  rcases hback : e.backtrace with _ | frames
  · have hdepth : before.depth = 0 := by rw [CallStack.depth, hempty]; rfl
    exact .inl ⟨by have := hnone hback; omega, rfl⟩
  · have hlength := hsome frames hback
    obtain ⟨since, hsince, rfl, -⟩ := h.recorded frames hback
    refine .inr ⟨?_, _, rfl, hlength⟩
    have hpos := List.length_pos_iff.mpr hsince
    rw [List.length_append] at hlength
    omega

namespace Session

/-- A run of a text leaves the running calls as it finds them, in whatever scope it runs. -/
theorem calls_runIn {s t : Session} {bound : Nat} {scope : ScopeId} {text : String}
    {r : Except Failure (Option Value)} (h : s.runIn bound scope text = some (r, t)) :
    t.machine.calls = s.machine.calls := by
  rcases hread : Ast.Program.ofSource (s.sources + 1) s.config.file text with failure | program
  · rw [runIn_of_unread hread] at h
    cases h
    rfl
  · rw [runIn_of_read hread] at h
    obtain ⟨⟨outcome, machine⟩, hrun, hend⟩ := Option.map_eq_some_iff.mp h
    cases hend
    exact (Machine.balanced_run _ bound scope program.stmts s.machine outcome machine hrun).1

/-- No calls are running between the runs of a session. -/
theorem Reachable.calls_eq {config : Config} {output : Output} {s : Session}
    (h : Reachable config output s) : s.machine.calls = .empty config.callLimit := by
  induction h with
  | new => rfl
  | run h hrun ih => exact (calls_runIn hrun).trans ih

end Session

/-- **Running calls and backtraces.** Let some calls be running at first.

However the evaluation of an expression or a run of statements ends, the same calls are running
afterwards, and an error that records calls records these below some more, each with the name and
the place of a call expression of the code that could run. At every moment of any evaluation the
calls that ran at first are running still, and no more than the limit allows.

So if no calls are running at first, an error at the limit on calls records as many of them as the
limit allows; and a run of a text leaves the running calls of a session as they are, however it
ends, so that none are running when the next text begins to run. -/
theorem calls_balanced (strict : Bool) (bound : Nat) (scope : ScopeId) (s : Machine) :
    (∀ e : Ast.Expr, (e.eval (.upTo strict bound) scope).Balanced
      (Frame.SiteIn (s.store.Runs (· = .expr e))) s) ∧
    (∀ stmts : List Ast.Stmt, (Machine.run strict bound scope stmts).Balanced
      (Frame.SiteIn (s.store.Runs fun part => ∃ stmt ∈ stmts, part = .stmt stmt)) s) ∧
    (∀ task moment, Moment.Reaches strict ⟨bound, task, s⟩ moment →
      s.calls.Extends moment.machine.calls) ∧
    (∀ stmts e t limit, s.calls.frames = [] →
      Machine.run strict bound scope stmts s = some (.error e, t) →
      e.cause = .recursionLimitExceeded limit →
      (limit = 0 ∧ e.backtrace = none) ∨
        0 < limit ∧ ∃ frames, e.backtrace = some frames ∧ frames.length = limit) ∧
    (∀ (a b : Session) text r, a.runIn bound scope text = some (r, b) →
      b.machine.calls = a.machine.calls) ∧
    ∀ config output session, Session.Reachable config output session →
      session.machine.calls = .empty config.callLimit := by
  refine ⟨fun e => e.balanced_eval strict bound scope s,
    fun stmts => Machine.balanced_run strict bound scope stmts s,
    fun task moment h => Moment.extends_of_reaches h,
    fun stmts e t limit hempty hrun hcause => ?_,
    fun a b text r hrun => Session.calls_runIn hrun,
    fun config output session h => h.calls_eq⟩
  have hbalanced := Machine.balanced_run strict bound scope stmts s
  exact ((hbalanced _ t hrun).2 e rfl).backtrace_of_empty hempty hcause

/-- A function that calls itself without end is called as often as the limit allows, and no calls
are running any more when it fails. -/
theorem calls_balanced_loop :
    ∃ e t frames, Machine.run false 9 ⟨0⟩ [.expr (.callOf "f")] (.withLoop 3) = some (.error e, t) ∧
      t.calls = .empty (some 3) ∧ e.backtrace = some frames ∧ frames.length = 3 := by
  obtain ⟨-, hrun, -, hlimit, -⟩ := calls_balanced false 9 ⟨0⟩ (.withLoop 3)
  obtain ⟨e, t, h, hcause⟩ : ∃ e t,
      Machine.run false 9 ⟨0⟩ [.expr (.callOf "f")] (.withLoop 3) = some (.error e, t) ∧
        e.cause = .recursionLimitExceeded 3 := ⟨_, _, rfl, rfl⟩
  obtain ⟨hzero, -⟩ | ⟨-, frames, hframes, hlength⟩ := hlimit _ e t 3 rfl h hcause
  · cases hzero
  · exact ⟨e, t, frames, h, (hrun _ _ t h).1, hframes, hlength⟩

end StructScript
