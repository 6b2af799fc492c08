import StructScript.Proofs.Evaluation.Frames
import StructScript.Proofs.Evaluation.Isolation
import StructScript.Proofs.Evaluation.Judgement
import StructScript.Session

/-!
# With a limit on calls every program ends

A call runs the body of a function that is found in the store, so the code at hand does not get
smaller, but the room on the stack of running calls does: a computation that may enter `room` more
calls ends if its calls, which may enter one fewer, end (`Judgement.ending`). Since every
computation leaves the stack as it was, the room is the same for each part of a sequence. Hence a
bound on the nesting of calls above the limit is never used up, and all such bounds lead to one and
the same end.

Main result: `Machine.run_ends`.
-/

namespace StructScript

/-- From every machine with room for at most `room` more calls under the limit, both computations
end, in the same way, and leave the running calls as they were. -/
def Judgement.ending (limit room : Nat) : Judgement where
  code _ := True
  code_child _ _ := trivial
  Holds m m' post := ∀ s : Machine, s.calls.limit = some limit → limit ≤ s.calls.depth + room →
    ∃ r t, m s = some (r, t) ∧ m' s = some (r, t) ∧ t.calls = s.calls ∧ ∀ a, r = .ok a → post a
  quiet hm s _ _ := by
    obtain ⟨r, store, text, hrun, hpost, -⟩ := hm s.store
    have hstore : s.store.CodeIn fun _ => True := fun _ _ => trivial
    exact ⟨r, _, hrun s.output s.calls, hrun s.output s.calls, rfl, (hpost hstore).2⟩
  bind hm hf s hlimit hroom := by
    obtain ⟨r, t, hr, hr', hcalls, hpost⟩ := hm s hlimit hroom
    cases r with
    | error e => exact ⟨.error e, t, by rw [Bounded.bind_apply, hr],
        by rw [Bounded.bind_apply, hr'], hcalls, nofun⟩
    | ok a =>
        rw [← hcalls] at hlimit hroom
        obtain ⟨q, u, hq, hq', hcalls', hpost'⟩ := hf a (hpost a rfl) t hlimit hroom
        exact ⟨q, u, by rw [Bounded.bind_apply, hr]; exact hq,
          by rw [Bounded.bind_apply, hr']; exact hq', hcalls'.trans hcalls, hpost'⟩
  locate span hm s hlimit hroom := by
    obtain ⟨r, t, hr, hr', hcalls, hpost⟩ := hm s hlimit hroom
    cases r with
    | error e => exact ⟨.error (e.locate span), t, by rw [Eval.locate, Bounded.mapError, hr],
        by rw [Eval.locate, Bounded.mapError, hr'], hcalls, nofun⟩
    | ok a => exact ⟨.ok a, t, by rw [Eval.locate, Bounded.mapError, hr],
        by rw [Eval.locate, Bounded.mapError, hr'], hcalls, hpost⟩

namespace Judgement

variable {limit room : Nat} {strict : Bool}

/-- Where there is no room a call ends at once. -/
theorem ending_inFrame_zero {α : Type} (frame : Frame) (body body' : Eval α) (post : α → Prop) :
    (ending limit 0).Holds (Eval.inFrame frame body) (Eval.inFrame frame body') post :=
  fun s hlimit hroom => ⟨_, s, Eval.inFrame_of_full ⟨hlimit, hroom⟩ frame body,
    Eval.inFrame_of_full ⟨hlimit, hroom⟩ frame body', rfl, nofun⟩

/-- In the frame of a call there is room for one call fewer. -/
theorem ending_inFrame_succ {α : Type} {body body' : Eval α} {post : α → Prop}
    (h : (ending limit room).Holds body body' post) (frame : Frame) :
    (ending limit (room + 1)).Holds (Eval.inFrame frame body) (Eval.inFrame frame body') post := by
  intro s hlimit hdepth
  rcases s.calls.hasRoom_or_full with hroom | ⟨n, hfull⟩
  · have henter : limit ≤ (s.calls.enter frame).depth + room := by
      rw [CallStack.depth_enter]
      omega
    obtain ⟨r, t, hr, hr', hcalls, hpost⟩ := h (s.enter frame) hlimit henter
    refine ⟨(Eval.leave (r, t)).1, (Eval.leave (r, t)).2, ?_, ?_, ?_, fun a ha => ?_⟩
    · rw [Eval.inFrame_of_hasRoom hroom, hr, Option.map_some]
    · rw [Eval.inFrame_of_hasRoom hroom, hr', Option.map_some]
    · exact congrArg CallStack.pop hcalls
    · exact hpost a (Eval.leave_fst_eq_ok_iff.mp ha)
  · exact ⟨_, s, Eval.inFrame_of_full hfull frame body, Eval.inFrame_of_full hfull frame body',
      rfl, nofun⟩

/-- With bounds above the room, the calls of all code end. -/
theorem ending_covers {n n' : Nat} (hn : room < n) (hn' : room < n') : (ending limit room).Covers
    ⟨strict, Closure.call strict n⟩ ⟨strict, Closure.call strict n'⟩ := by
  induction n generalizing room n' with
  | zero => omega
  | succ n ih =>
      obtain ⟨n', rfl⟩ : ∃ k, n' = k + 1 := ⟨n' - 1, by omega⟩
      refine ⟨fun type inst _ hfields => quiet _ (.buildStruct strict type inst hfields),
        fun _ hf hvalues => holds_call_succ hvalues fun bindings hb => ?_⟩
      cases room with
      | zero => exact ending_inFrame_zero _ _ _ _
      | succ room =>
          have hcovers : (ending limit room).Covers ⟨strict, Closure.call strict n⟩
              ⟨strict, Closure.call strict n'⟩ := ih (by omega) (by omega)
          exact ending_inFrame_succ (holds_body hcovers trivial fun _ _ _ _ => trivial) _

end Judgement

/-- **Programs end.** With a limit on the number of running calls, a program that runs on any
machine, whatever functions there are in its store, ends in a value, without one, or in an error,
and it does so in the same way for every bound on the nesting of calls that is above the limit. -/
theorem Machine.run_ends {c : Config} {limit : Nat} (hc : c.callLimit = some limit) {m : Machine}
    (hm : m.calls.limit = c.callLimit) (root : ScopeId) (program : Ast.Program) :
    ∃ r m', ∀ bound, c.callBound ≤ bound →
      Machine.run c.strict bound root program.stmts m = some (r, m') := by
  have hbound : c.callBound = limit + 1 := by rw [Config.callBound, hc]
  have hends : ∀ bound, c.callBound ≤ bound → ∃ r t,
      Machine.run c.strict c.callBound root program.stmts m = some (r, t) ∧
      Machine.run c.strict bound root program.stmts m = some (r, t) := by
    intro bound hle
    have hcovers : (Judgement.ending limit limit).Covers
        ⟨c.strict, Closure.call c.strict c.callBound⟩ ⟨c.strict, Closure.call c.strict bound⟩ :=
      Judgement.ending_covers (by omega) (by omega)
    obtain ⟨r, t, hr, hr', -⟩ := Judgement.holds_execAll hcovers root program.stmts
      (fun _ _ => trivial) m (hm.trans hc) (Nat.le_add_left _ _)
    exact ⟨r, t, hr, hr'⟩
  obtain ⟨r, m', hr, -⟩ := hends c.callBound (Nat.le_refl _)
  refine ⟨r, m', fun bound hle => ?_⟩
  obtain ⟨q, t, hq, hq'⟩ := hends bound hle
  rw [hr] at hq
  cases hq
  exact hq'

/-- A machine with a function `f` that calls itself, under a limit on calls. -/
def Machine.withLoop (limit : Nat) : Machine :=
  let f : Closure := ⟨⟨[], none, [.expr (.callOf "f")], default, 0⟩, ⟨0⟩⟩
  ⟨⟨#[⟨[], [("f", .func f)], none⟩]⟩, .silent, .empty (some limit)⟩

/-- A call of the function that calls itself ends at the limit. -/
theorem Machine.run_loop_ends :
    ∃ e m', e.cause = .recursionLimitExceeded 3 ∧ ∀ bound, 4 ≤ bound →
      Machine.run false bound ⟨0⟩ [.expr (.callOf "f")] (.withLoop 3) = some (.error e, m') := by
  let c : Config := ⟨"", some 3, false⟩
  obtain ⟨r, m', h⟩ := Machine.run_ends (c := c) rfl (m := .withLoop 3) rfl ⟨0⟩
    ⟨[.expr (.callOf "f")]⟩
  obtain ⟨e, t, heval, hcause⟩ : ∃ e t,
      Machine.run false 4 ⟨0⟩ [.expr (.callOf "f")] (.withLoop 3) = some (.error e, t) ∧
        e.cause = .recursionLimitExceeded 3 := ⟨_, _, rfl, rfl⟩
  cases (h 4 (Nat.le_refl 4)).symm.trans heval
  exact ⟨e, m', hcause, h⟩

end StructScript
