import StructScript.Proofs.Evaluation.Frames
import StructScript.Proofs.Evaluation.Judgement

/-!
# Running calls and backtraces

Whatever is evaluated and however it ends, the stack of running calls is left as it was found, and
an error that records calls records those that were running at the start below some more of its own
(`EvalError.Traced`). Each of these comes from a call expression of the code that could come to run
(`Frame.SiteIn`): it has the name that the function was called by and the place of the call. An
error at the limit on calls records as many calls as the limit allows.

Main results, from the judgement `Judgement.tracing`:

* `Ast.Expr.balanced_eval`, for the evaluation of an expression;
* `Machine.balanced_run`, for a run of statements.
-/

namespace StructScript

variable {code : Ast.Part → Prop} {site : Frame → Prop}

/-- The frame is that of a call expression of the code. -/
def Frame.SiteIn (code : Ast.Part → Prop) (frame : Frame) : Prop :=
  ∃ callee args span, code (.expr ⟨.call callee args, span⟩) ∧ frame = ⟨callee.written, some span⟩

/-- What an error says about the running calls when it arises where those of `before` run. The calls
that it records, the most recent first, are some made since and then those of `before`. If it is an
error at the limit on calls, as many calls as the limit allows are running. -/
structure EvalError.Traced (site : Frame → Prop) (before : CallStack) (e : EvalError) : Prop where
  recorded : ∀ frames, e.backtrace = some frames →
    ∃ since, since ≠ [] ∧ frames = since ++ before.frames ∧ ∀ frame ∈ since, site frame
  limit : ∀ limit, e.cause = .recursionLimitExceeded limit → before.limit = some limit ∧
    (e.backtrace = none → limit ≤ before.depth) ∧
    ∀ frames, e.backtrace = some frames → frames.length = limit

/-- From the machine `s`, however the computation ends, the running calls are left as they were, and
an error says about them what it should. -/
def Eval.Balanced {α : Type} (site : Frame → Prop) (m : Eval α) (s : Machine) : Prop :=
  ∀ r t, m s = some (r, t) → t.calls = s.calls ∧ ∀ e, r = .error e → e.Traced site s.calls

namespace EvalError

/-- An error of a step records no calls. -/
theorem OfStep.traced {e : EvalError} (h : e.OfStep) (before : CallStack) :
    e.Traced site before where
  recorded _ hframes := nomatch h.backtrace_eq.symm.trans hframes
  limit limit hcause := absurd hcause (h.cause_ne limit)

/-- Placing an error does not touch the calls that it records. -/
theorem Traced.locate {e : EvalError} {before : CallStack} (h : e.Traced site before)
    (span : Span) : (e.locate span).Traced site before where
  recorded frames hframes := h.recorded frames (by rwa [locate_backtrace] at hframes)
  limit limit hcause := by
    rw [locate_cause] at hcause
    rw [locate_backtrace]
    exact h.limit limit hcause

/-- A call that is refused records no calls. -/
theorem traced_tooDeep {before : CallStack} {limit : Nat} (h : before.Full limit) :
    (Eval.tooDeep limit).Traced site before where
  recorded _ hframes := nomatch hframes
  limit other hcause := by
    cases hcause
    exact ⟨h.1, fun _ => h.2, fun _ hframes => nomatch hframes⟩

/-- The running calls are recorded where none are yet. -/
theorem trace_of_none {e : EvalError} (h : e.backtrace = none) {frames : List Frame}
    (hframes : frames ≠ []) : (e.trace frames).backtrace = some frames := by
  cases frames with
  | nil => exact absurd rfl hframes
  | cons frame rest => simp [trace, h]

/-- What has been recorded stays. -/
theorem trace_of_some {e : EvalError} {recorded : List Frame} (h : e.backtrace = some recorded)
    (frames : List Frame) : e.trace frames = e := by
  simp [trace, h]

/-- The error of the body of a call, once the frame of the call is left. If it records no calls yet,
it records those that were running in the body. -/
theorem Traced.leave {e : EvalError} {before : CallStack} {frame : Frame} (hroom : before.HasRoom)
    (hsite : site frame) (h : e.Traced site (before.enter frame)) :
    (e.trace (before.enter frame).frames).Traced site before := by
  have hframes : (before.enter frame).frames ≠ [] := by simp
  rcases hback : e.backtrace with _ | recorded
  · have htrace := trace_of_none hback hframes
    refine ⟨fun frames heq => ?_, fun limit hcause => ?_⟩
    · cases htrace.symm.trans heq
      exact ⟨[frame], by simp, rfl, fun other hother => by
        rw [List.mem_singleton.mp hother]; exact hsite⟩
    · rw [trace_cause] at hcause
      obtain ⟨hlimit, hfull, -⟩ := h.limit limit hcause
      -- there was room for this call but none for the next
      have hlow : limit ≤ before.depth + 1 := hfull hback
      have hhigh : before.depth < limit := hroom limit hlimit
      refine ⟨hlimit, fun hnone => ?_, fun frames heq => ?_⟩
      · cases htrace.symm.trans hnone
      · cases htrace.symm.trans heq
        change before.depth + 1 = limit
        omega
  · rw [trace_of_some hback]
    refine ⟨fun frames heq => ?_, fun limit hcause => ?_⟩
    · obtain ⟨since, -, rfl, hsites⟩ := h.recorded frames heq
      refine ⟨since ++ [frame], by simp, by simp, fun other hother => ?_⟩
      rcases List.mem_append.mp hother with hother | hother
      · exact hsites other hother
      · rw [List.mem_singleton.mp hother]
        exact hsite
    · obtain ⟨hlimit, -, hlength⟩ := h.limit limit hcause
      exact ⟨hlimit, fun hnone => (nomatch hback.symm.trans hnone), hlength⟩

end EvalError

/-! ### The code that a machine could come to run -/

namespace Store

/-- The parts of code that could run could run. -/
theorem Runs.child {s : Store} {given : Ast.Part → Prop} {part whole : Ast.Part}
    (hchild : part.ChildOf whole) (h : s.Runs given whole) : s.Runs given part := by
  obtain ⟨top, htop, hin⟩ := h
  exact ⟨top, htop, .head hchild hin⟩

/-- What is run could run. -/
theorem Runs.of_given {s : Store} {given : Ast.Part → Prop} {part : Ast.Part} (h : given part) :
    s.Runs given part :=
  ⟨part, .inl h, .refl⟩

/-- The bodies of all functions of a store could run. -/
theorem codeIn_runs (s : Store) (given : Ast.Part → Prop) : s.CodeIn (s.Runs given) :=
  fun f hf => ⟨.func f.definition, .inr ⟨f, hf, rfl⟩, .refl⟩

end Store

/-! ### Every evaluation is balanced -/

/-- From every machine whose functions are those of the code, the computation leaves such a machine
with the same running calls, and its error says about them what it should. -/
def Judgement.tracing (code : Ast.Part → Prop)
    (hchild : ∀ {part whole : Ast.Part}, part.ChildOf whole → code whole → code part) :
    Judgement where
  code := code
  code_child := hchild
  Holds m _ post := ∀ s : Machine, s.store.CodeIn code →
    m.Balanced (Frame.SiteIn code) s ∧
      ∀ r t, m s = some (r, t) → t.store.CodeIn code ∧ ∀ a, r = .ok a → post a
  quiet hm s hs := by
    obtain ⟨q, store, text, hrun, hpost, herror⟩ := hm s.store
    refine ⟨fun r t hr => ?_, fun r t hr => ?_⟩
    · cases hr.symm.trans (hrun s.output s.calls)
      exact ⟨rfl, fun e he => (herror e he).traced _⟩
    · cases hr.symm.trans (hrun s.output s.calls)
      exact hpost hs
  bind hm hf s hs := by
    refine ⟨fun r t hr => ?_, fun r t hr => ?_⟩
    · rcases Bounded.cases_of_bind hr with ⟨e, he, rfl⟩ | ⟨a, u, ha, hr⟩
      · obtain ⟨hcalls, htraced⟩ := (hm s hs).1 _ t he
        exact ⟨hcalls, fun e' he' => by cases he'; exact htraced e rfl⟩
      · obtain ⟨hstore, hpost⟩ := (hm s hs).2 _ u ha
        obtain ⟨hcalls, -⟩ := (hm s hs).1 _ u ha
        rw [← hcalls]
        exact (hf a (hpost a rfl) u hstore).1 r t hr
    · rcases Bounded.cases_of_bind hr with ⟨e, he, rfl⟩ | ⟨a, u, ha, hr⟩
      · exact ⟨((hm s hs).2 _ t he).1, nofun⟩
      · obtain ⟨hstore, hpost⟩ := (hm s hs).2 _ u ha
        exact (hf a (hpost a rfl) u hstore).2 r t hr
  locate span hm s hs := by
    refine ⟨fun r t hr => ?_, fun r t hr => ?_⟩
    · cases r with
      | ok a =>
          obtain ⟨hcalls, -⟩ := (hm s hs).1 _ t (Bounded.mapError_eq_ok_iff.mp hr)
          exact ⟨hcalls, fun _ he => nomatch he⟩
      | error e =>
          obtain ⟨e', he', rfl⟩ := Bounded.mapError_eq_error_iff.mp hr
          obtain ⟨hcalls, htraced⟩ := (hm s hs).1 _ t he'
          exact ⟨hcalls, fun d hd => by cases hd; exact (htraced e' rfl).locate span⟩
    · obtain ⟨q, hq, hok⟩ := Bounded.exists_of_mapError hr
      obtain ⟨hstore, hpost⟩ := (hm s hs).2 q t hq
      exact ⟨hstore, fun a ha => hpost a (hok a ha)⟩

namespace Judgement

variable {hchild : ∀ {part whole : Ast.Part}, part.ChildOf whole → code whole → code part}
  {α : Type}

/-- Entering and leaving the frame of a call expression of the code. -/
theorem tracing_inFrame {body body' : Eval α} {post : α → Prop} {frame : Frame}
    (hsite : frame.SiteIn code) (h : (tracing code hchild).Holds body body' post) :
    (tracing code hchild).Holds (Eval.inFrame frame body) (Eval.inFrame frame body') post := by
  intro s hs
  rcases s.calls.hasRoom_or_full with hroom | ⟨limit, hfull⟩
  · -- what is left behind is what was entered, less the frame
    obtain ⟨hbalanced, hpost⟩ := h (s.enter frame) hs
    unfold Eval.Balanced
    rw [Eval.inFrame_of_hasRoom hroom]
    refine ⟨fun r t hr => ?_, fun r t hr => ?_⟩
    · obtain ⟨⟨q, u⟩, hq, hleave⟩ := Option.map_eq_some_iff.mp hr
      obtain ⟨hcalls, htraced⟩ := hbalanced q u hq
      cases hleave
      refine ⟨congrArg CallStack.pop hcalls, fun e he => ?_⟩
      cases q with
      | ok a => cases he
      | error e' =>
          cases he
          have hframes : u.calls.frames = (s.calls.enter frame).frames :=
            congrArg CallStack.frames hcalls
          rw [hframes]
          exact (htraced e' rfl).leave hroom hsite
    · obtain ⟨⟨q, u⟩, hq, hleave⟩ := Option.map_eq_some_iff.mp hr
      obtain ⟨hstore, hok⟩ := hpost q u hq
      cases hleave
      exact ⟨hstore, fun a ha => hok a (Eval.leave_fst_eq_ok_iff.mp ha)⟩
  · unfold Eval.Balanced
    rw [Eval.inFrame_of_full hfull]
    refine ⟨fun r t hr => ?_, fun r t hr => ?_⟩
    · cases hr
      exact ⟨rfl, fun e he => by cases he; exact EvalError.traced_tooDeep hfull⟩
    · cases hr
      exact ⟨hs, nofun⟩

/-- Every call expression of the code is balanced. -/
theorem tracing_covers (code : Ast.Part → Prop)
    (hchild : ∀ {part whole : Ast.Part}, part.ChildOf whole → code whole → code part)
    (strict : Bool) (n : Nat) : (tracing code hchild).Covers
      ⟨strict, Closure.call strict n⟩ ⟨strict, Closure.call strict n⟩ := by
  induction n with
  | zero =>
      refine ⟨fun type inst _ hfields => quiet _ (.buildStruct strict type inst hfields), ?_⟩
      intro callee args span f values _ _ _ s _
      exact ⟨fun _ _ hr => (nomatch hr), fun _ _ hr => (nomatch hr)⟩
  | succ n ih =>
      refine ⟨fun type inst _ hfields => quiet _ (.buildStruct strict type inst hfields),
        fun hcall hf hvalues => holds_call_succ hvalues fun bindings hb => ?_⟩
      exact tracing_inFrame ⟨_, _, _, hcall, rfl⟩ (holds_body ih hf hb)

end Judgement

/-- The evaluation of an expression is balanced. -/
theorem Ast.Expr.balanced_eval (strict : Bool) (bound : Nat) (scope : ScopeId) (e : Ast.Expr)
    (s : Machine) :
    (e.eval ⟨strict, Closure.call strict bound⟩ scope).Balanced
      (Frame.SiteIn (s.store.Runs (· = .expr e))) s := by
  have hcovers := Judgement.tracing_covers (s.store.Runs (· = .expr e)) Store.Runs.child strict
    bound
  have hholds := Judgement.holds_eval hcovers scope e (Store.Runs.of_given rfl)
  exact (hholds s (s.store.codeIn_runs _)).1

/-- A run of statements is balanced. -/
theorem Machine.balanced_run (strict : Bool) (bound : Nat) (scope : ScopeId)
    (stmts : List Ast.Stmt) (s : Machine) :
    (Machine.run strict bound scope stmts).Balanced
      (Frame.SiteIn (s.store.Runs fun part => ∃ stmt ∈ stmts, part = .stmt stmt)) s := by
  have hcovers := Judgement.tracing_covers
    (s.store.Runs fun part => ∃ stmt ∈ stmts, part = .stmt stmt) Store.Runs.child strict bound
  have hholds := Judgement.holds_execAll hcovers scope stmts fun stmt hstmt =>
    Store.Runs.of_given ⟨stmt, hstmt, rfl⟩
  exact (hholds s (s.store.codeIn_runs _)).1

end StructScript
