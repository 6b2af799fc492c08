import StructScript.Evaluation.Machine

/-!
# Entering and leaving the frame of a call

A stack of running calls has room for one more call, or as many run as its limit allows. In the
first case a computation in a frame is the computation on the machine with the frame entered, and
then the frame is left (`Eval.inFrame_of_hasRoom`); in the second it is an error that changes
nothing (`Eval.inFrame_of_full`).
-/

namespace StructScript

namespace CallStack

/-- Fewer calls are running than the limit allows. -/
def HasRoom (s : CallStack) : Prop := ∀ limit, s.limit = some limit → s.depth < limit

/-- As many calls are running as the limit allows. -/
def Full (s : CallStack) (limit : Nat) : Prop := s.limit = some limit ∧ limit ≤ s.depth

/-- The stack with one more running call. -/
def enter (frame : Frame) (s : CallStack) : CallStack := { s with frames := frame :: s.frames }

/-- The call that was entered last is the most recent one. -/
@[simp] theorem frames_enter (frame : Frame) (s : CallStack) :
    (s.enter frame).frames = frame :: s.frames := rfl

/-- One more call is running. -/
@[simp] theorem depth_enter (frame : Frame) (s : CallStack) :
    (s.enter frame).depth = s.depth + 1 := rfl

/-- Another call may run, or there is a limit and it is reached. -/
theorem hasRoom_or_full (s : CallStack) : s.HasRoom ∨ ∃ limit, s.Full limit := by
  rcases h : s.limit with _ | limit
  · exact .inl fun limit hlimit => by cases h.symm.trans hlimit
  · rcases Nat.lt_or_ge s.depth limit with hlt | hle
    · refine .inl fun other hother => ?_
      cases h.symm.trans hother
      exact hlt
    · exact .inr ⟨limit, h, hle⟩

/-- Where another call may run it is entered. -/
theorem push?_of_hasRoom {s : CallStack} (h : s.HasRoom) (frame : Frame) :
    s.push? frame = .ok (s.enter frame) := by
  obtain ⟨frames, limit⟩ := s
  cases limit with
  | none => rfl
  | some limit => exact if_neg (Nat.not_le.mpr (h limit rfl))

/-- Where the limit is reached it is given in place of a stack. -/
theorem push?_of_full {s : CallStack} {limit : Nat} (h : s.Full limit) (frame : Frame) :
    s.push? frame = .error limit := by
  rw [push?, h.1]
  exact if_pos h.2

end CallStack

/-- The machine with one more running call. -/
def Machine.enter (frame : Frame) (m : Machine) : Machine :=
  { m with calls := m.calls.enter frame }

namespace Eval

variable {α : Type}

/-- How a computation in a frame ends when the computation itself has ended so. -/
def leave (x : Except EvalError α × Machine) : Except EvalError α × Machine :=
  (x.1.mapError (·.trace x.2.calls.frames), { x.2 with calls := x.2.calls.pop })

/-- Leaving a frame keeps the values that computations give. -/
@[simp] theorem leave_fst_eq_ok_iff {x : Except EvalError α × Machine} {a : α} :
    (leave x).1 = .ok a ↔ x.1 = .ok a := by
  obtain ⟨_ | b, m⟩ := x
  · constructor
    · rintro ⟨⟩
    · rintro ⟨⟩
  · exact Iff.rfl

/-- The error of a call that is nested too deep. -/
def tooDeep (limit : Nat) : EvalError := .ofCause (.recursionLimitExceeded limit)

/-- With room for another call, a computation in a frame is run with the frame entered, which is
then left. -/
theorem inFrame_of_hasRoom {m : Machine} (h : m.calls.HasRoom) (frame : Frame) (body : Eval α) :
    inFrame frame body m = (body (m.enter frame)).map leave := by
  unfold inFrame
  rw [CallStack.push?_of_hasRoom h]
  simp only [Machine.enter]
  rcases body { m with calls := m.calls.enter frame } with _ | ⟨_ | _, _⟩ <;> rfl

/-- Without room a computation in a frame is not begun, and the machine stays as it is. -/
theorem inFrame_of_full {m : Machine} {limit : Nat} (h : m.calls.Full limit) (frame : Frame)
    (body : Eval α) : inFrame frame body m = some (.error (tooDeep limit), m) := by
  rw [inFrame, CallStack.push?_of_full h]
  rfl

end Eval

end StructScript
