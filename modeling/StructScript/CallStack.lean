import StructScript.Source.Position

/-!
# Call stacks

The calls that are running, the most recent first, with a limit on their number.

Main definitions:

* `Frame`, one running call;
* `CallStack`, with `CallStack.push?` and `CallStack.pop`.
-/

namespace StructScript

/-- A running call: the name it was made through and where it was made. -/
structure Frame where
  name : String
  span : Option Span
  deriving DecidableEq, Repr

/-- The running calls, the most recent first. No limit on their number is `none`. -/
structure CallStack where
  frames : List Frame
  limit : Option Nat
  deriving DecidableEq, Repr

namespace CallStack

/-- The stack without running calls. -/
def empty (limit : Option Nat) : CallStack := ⟨[], limit⟩

/-- How many calls are running. -/
def depth (s : CallStack) : Nat := s.frames.length

/-- Enter a call, unless as many are running as the limit allows; then the limit is given. -/
def push? (frame : Frame) (s : CallStack) : Except Nat CallStack :=
  match s.limit with
  | some limit =>
    if limit ≤ s.depth then .error limit else .ok { s with frames := frame :: s.frames }
  | none => .ok { s with frames := frame :: s.frames }

/-- Leave the most recent call. -/
def pop (s : CallStack) : CallStack := { s with frames := s.frames.tail }

end CallStack

end StructScript
