import StructScript.Proofs.Evaluation.Frames
import StructScript.Proofs.Evaluation.Isolation
import StructScript.Proofs.Evaluation.Judgement
import StructScript.Session

/-!
# Limits only refuse

The settings of a session refuse programs in two places: a call is refused where too many are
running, and a struct literal where a field is missing and all are asked for. Neither does anything
else. So a run that is not refused goes the same way under settings that refuse less
(`Judgement.leniency`, a simulation of one run by the other): it has the same result, with the same
span and the same running calls recorded if that is an error, and it leaves the same machine but for
the limit.

Main result: `Machine.run_withLimit`.
-/

namespace StructScript

/-- The cause is that a call or a struct literal was refused. -/
def EvalError.Cause.Refusal : EvalError.Cause → Prop
  | recursionLimitExceeded _ => True
  | missingField _ _ => True
  | _ => False

/-- The result is the error of a call or a struct literal that was refused. -/
def EvalError.Refused {α : Type} (r : Except EvalError α) : Prop :=
  ∃ e, r = .error e ∧ e.cause.Refusal

open EvalError (Refused)

/-- The machine with another limit on its running calls. -/
def Machine.withLimit (limit : Option Nat) (m : Machine) : Machine :=
  { m with calls := { m.calls with limit := limit } }

/-- The limit `limit'` is none, or not below the limit `limit`. -/
def CallStack.LimitLe (limit limit' : Option Nat) : Prop :=
  ∀ n', limit' = some n' → ∃ n, limit = some n ∧ n ≤ n'

/-- The settings `c'` allow what `c` allows. -/
structure Config.Le (c c' : Config) : Prop where
  callLimit : CallStack.LimitLe c.callLimit c'.callLimit
  strict : c'.strict = true → c.strict = true

/-- A stack with room has room under a greater limit. -/
theorem CallStack.HasRoom.withLimit {s : CallStack} {limit' : Option Nat} (h : s.HasRoom)
    (hle : LimitLe s.limit limit') : CallStack.HasRoom { s with limit := limit' } := by
  intro n' hn'
  obtain ⟨n, hn, hnle⟩ := hle n' hn'
  exact Nat.lt_of_lt_of_le (h n hn) hnle

/-- A struct literal gives the same with and without the demand for all fields, or a field is
missing and the literal is refused. -/
theorem Eval.buildStruct_cases {strict strict' : Bool} (hstrict : strict' = true → strict = true)
    (type : Ast.TypeExpr) (inst : Instantiation) (fields : NameMap Value) :
    buildStruct strict' type inst fields = buildStruct strict type inst fields ∨
      ∃ name, buildStruct strict type inst fields =
        .error (.missingField type.name.name name) := by
  cases strict with
  | false =>
      cases strict' with
      | false => exact .inl rfl
      | true => exact nomatch hstrict rfl
  | true =>
      rcases h : missingField? inst.type.fields fields with _ | name
      · exact .inl (by cases strict' <;> simp [buildStruct, h])
      · exact .inr ⟨name, by simp [buildStruct, h]⟩

/-- From every machine with the limit `limit`, the second computation ends under the limit `limit'`
as the first does under `limit`, unless the first is refused. -/
def Judgement.leniency (limit limit' : Option Nat) : Judgement where
  code _ := True
  code_child _ _ := trivial
  Holds m m' post := ∀ s r t, s.calls.limit = limit → m s = some (r, t) →
    t.calls.limit = limit ∧ (∀ a, r = .ok a → post a) ∧
      (¬ Refused r → m' (s.withLimit limit') = some (r, t.withLimit limit'))
  quiet hm s r t hlimit hr := by
    obtain ⟨q, store, text, hrun, hpost, -⟩ := hm s.store
    have hstore : s.store.CodeIn fun _ => True := fun _ _ => trivial
    cases hr.symm.trans (hrun s.output s.calls)
    exact ⟨hlimit, (hpost hstore).2, fun _ => hrun s.output _⟩
  bind hm hf s r t hlimit hr := by
    rcases Bounded.cases_of_bind hr with ⟨e, he, rfl⟩ | ⟨a, u, ha, hr⟩
    · obtain ⟨hlimit', -, hsame⟩ := hm s _ t hlimit he
      refine ⟨hlimit', nofun, fun hrefused => ?_⟩
      have he' := hsame fun ⟨e', heq, h⟩ => hrefused ⟨e', by cases heq; rfl, h⟩
      rw [Bounded.bind_apply, he']
    · obtain ⟨hlimit', hpost, hsame⟩ := hm s _ u hlimit ha
      obtain ⟨hlimit'', hpost', hsame'⟩ := hf a (hpost a rfl) u r t hlimit' hr
      refine ⟨hlimit'', hpost', fun hrefused => ?_⟩
      rw [Bounded.bind_apply, hsame fun ⟨_, heq, _⟩ => nomatch heq]
      exact hsame' hrefused
  locate span hm s r t hlimit hr := by
    cases r with
    | ok a =>
        obtain ⟨hlimit', hpost, hsame⟩ := hm s _ t hlimit (Bounded.mapError_eq_ok_iff.mp hr)
        refine ⟨hlimit', hpost, fun hrefused => ?_⟩
        exact Bounded.mapError_eq_ok_iff.mpr (hsame hrefused)
    | error e =>
        obtain ⟨e', he', rfl⟩ := Bounded.mapError_eq_error_iff.mp hr
        obtain ⟨hlimit', -, hsame⟩ := hm s _ t hlimit he'
        refine ⟨hlimit', nofun, fun hrefused => ?_⟩
        have hsame' := hsame fun ⟨d, heq, h⟩ => hrefused ⟨_, rfl, by cases heq; simpa using h⟩
        exact Bounded.mapError_eq_error_iff.mpr ⟨e', hsame', rfl⟩

namespace Judgement

variable {limit limit' : Option Nat} {strict strict' : Bool}

/-- A struct literal that is not refused is built also where less is refused. -/
theorem leniency_buildStruct (hstrict : strict' = true → strict = true) (type : Ast.TypeExpr)
    (inst : Instantiation) {fields : NameMap Value}
    (hfields : ∀ entry ∈ fields, entry.2.CodeIn (leniency limit limit').code) :
    (leniency limit limit').Holds (Eval.ofCause (Eval.buildStruct strict type inst fields))
      (Eval.ofCause (Eval.buildStruct strict' type inst fields))
      (Value.CodeIn (leniency limit limit').code) := by
  rcases Eval.buildStruct_cases hstrict type inst fields with hsame | ⟨name, hmissing⟩
  · rw [hsame]
    exact quiet _ (.buildStruct strict type inst hfields)
  · intro s r t hlimit hr
    rw [hmissing] at hr
    cases hr
    exact ⟨hlimit, nofun, fun hrefused => absurd ⟨_, rfl, trivial⟩ hrefused⟩

/-- A call for which there is room has room under a greater limit. -/
theorem leniency_inFrame (hle : CallStack.LimitLe limit limit') {α : Type} {body body' : Eval α}
    {post : α → Prop} (h : (leniency limit limit').Holds body body' post) (frame : Frame) :
    (leniency limit limit').Holds (Eval.inFrame frame body) (Eval.inFrame frame body') post := by
  intro s r t hlimit hr
  rcases s.calls.hasRoom_or_full with hroom | ⟨n, hfull⟩
  · rw [Eval.inFrame_of_hasRoom hroom] at hr
    obtain ⟨⟨q, u⟩, hq, hleave⟩ := Option.map_eq_some_iff.mp hr
    cases hleave
    obtain ⟨hlimit', hpost, hsame⟩ := h (s.enter frame) q u hlimit hq
    refine ⟨hlimit', fun a ha => hpost a (Eval.leave_fst_eq_ok_iff.mp ha), fun hrefused => ?_⟩
    have hroom' : (s.withLimit limit').calls.HasRoom := hroom.withLimit (hlimit ▸ hle)
    have hq' := hsame fun ⟨e, heq, he⟩ =>
      hrefused ⟨e.trace u.calls.frames, by rw [heq]; rfl, by rwa [EvalError.trace_cause]⟩
    change body' ((s.withLimit limit').enter frame) = _ at hq'
    rw [Eval.inFrame_of_hasRoom hroom', hq']
    rfl
  · rw [Eval.inFrame_of_full hfull] at hr
    cases hr
    exact ⟨hlimit, nofun, fun hrefused => absurd ⟨_, rfl, trivial⟩ hrefused⟩

/-- The calls of all code that are not refused go the same way where less is refused. -/
theorem leniency_covers (hle : CallStack.LimitLe limit limit')
    (hstrict : strict' = true → strict = true) {n n' : Nat} (hn : n ≤ n') :
    (leniency limit limit').Covers ⟨strict, Closure.call strict n⟩
      ⟨strict', Closure.call strict' n'⟩ := by
  induction n generalizing n' with
  | zero =>
      exact ⟨fun type inst _ hfields => leniency_buildStruct hstrict type inst hfields,
        fun _ _ _ _ _ _ _ hr => nomatch hr⟩
  | succ n ih =>
      obtain ⟨n', rfl⟩ : ∃ k, n' = k + 1 := ⟨n' - 1, by omega⟩
      have hcovers : (leniency limit limit').Covers ⟨strict, Closure.call strict n⟩
          ⟨strict', Closure.call strict' n'⟩ := ih (by omega)
      refine ⟨fun type inst _ hfields => leniency_buildStruct hstrict type inst hfields,
        fun _ hf hvalues => holds_call_succ hvalues fun bindings hb => ?_⟩
      exact leniency_inFrame hle (holds_body hcovers hf hb) _

end Judgement

/-- **Limits only refuse.** If a program runs to an end under the settings `c`, and no call and no
struct literal is refused, then under settings that allow as much it has the same result, span and
recorded calls included, and leaves the same machine, with the limit of those settings. -/
theorem Machine.run_withLimit {c c' : Config} (hle : c.Le c') {m m₁ : Machine}
    (hm : m.calls.limit = c.callLimit) {bound bound' : Nat} (hbound : bound ≤ bound')
    {root : ScopeId} {p : Ast.Program} {r : Except EvalError Outcome}
    (hrun : Machine.run c.strict bound root p.stmts m = some (r, m₁)) (hr : ¬ Refused r) :
    Machine.run c'.strict bound' root p.stmts (m.withLimit c'.callLimit) =
      some (r, m₁.withLimit c'.callLimit) := by
  have hcovers := Judgement.leniency_covers hle.callLimit hle.strict hbound
  have hholds := Judgement.holds_execAll hcovers root p.stmts fun _ _ => trivial
  exact (hholds m r m₁ hm hrun).2.2 hr

/-- A call that a limit of one allows has the same end without a limit. -/
theorem Machine.run_setter_withLimit :
    ∃ r m₁, Machine.run true 2 ⟨0⟩ [.expr (.callOf "f")] (Machine.withSetter.withLimit (some 1)) =
        some (r, m₁) ∧ m₁.store.lookupVariable ⟨0⟩ "x" = some (.int 2) ∧
      Machine.run false 5 ⟨0⟩ [.expr (.callOf "f")] Machine.withSetter =
        some (r, m₁.withLimit none) := by
  let c : Config := ⟨"", some 1, true⟩
  let c' : Config := ⟨"", none, false⟩
  obtain ⟨r, m₁, h, hr, hx⟩ : ∃ r m₁,
      Machine.run true 2 ⟨0⟩ [.expr (.callOf "f")] (Machine.withSetter.withLimit (some 1)) =
        some (r, m₁) ∧ r = .ok .completed ∧
      m₁.store.lookupVariable ⟨0⟩ "x" = some (.int 2) := ⟨_, _, rfl, rfl, rfl⟩
  have hle : c.Le c' := ⟨nofun, nofun⟩
  have hrefused : ¬ Refused r := fun ⟨_, he, _⟩ => nomatch hr.symm.trans he
  have hsame := Machine.run_withLimit (m := Machine.withSetter.withLimit c.callLimit) hle rfl
    (by decide : 2 ≤ 5) (p := ⟨[.expr (.callOf "f")]⟩) h hrefused
  exact ⟨r, m₁, h, hx, hsame⟩

end StructScript
