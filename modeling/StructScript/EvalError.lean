import StructScript.CallStack

/-!
# Evaluation errors

An evaluation error is a cause, the span of the innermost construct that failed, and the calls that
were running, if there were any.

Main definitions:

* `EvalError.Cause`, with its `Category`;
* `EvalError`, with `EvalError.locate`, `EvalError.trace` and `EvalError.message`.
-/

namespace StructScript

namespace EvalError

/-- What kind of fault an error is. -/
inductive Category where
  /-- A value does not have the type that is asked for, or a name is not bound. -/
  | type
  /-- Evaluation cannot go on for another reason. -/
  | runtime
  deriving DecidableEq, Repr

/-- What went wrong. -/
inductive Cause where
  | undefinedType (name : String)
  | undefinedVariable (name : String)
  | typeArgumentArity (typeName : String) (expected found : Nat)
  | unknownField (typeName field : String)
  | fieldTypeMismatch (field expected found : String)
  | missingField (typeName field : String)
  | setTypeMismatch (name expected found : String)
  | unsupportedUnary (op operand : String)
  | unsupportedBinary (op left right : String)
  | argumentCount (callee : String) (expected found : Nat)
  | argumentType (callee param expected found : String)
  | notCallable (name typeName : String)
  | invalidAssignmentTarget (field typeName : String)
  | integerOverflow (op : String)
  | recursionLimitExceeded (limit : Nat)
  | invalidLiteral (lexeme : String)
  deriving DecidableEq, Repr

namespace Cause

/-- The kind of fault. -/
def category : Cause → Category
  | integerOverflow _ | recursionLimitExceeded _ | invalidLiteral _ => .runtime
  | _ => .type

/-- The cause in words. -/
def message : Cause → String
  | undefinedType name => "type `" ++ name ++ "` not found"
  | undefinedVariable name => "variable `" ++ name ++ "` not defined"
  | typeArgumentArity typeName expected found =>
    "type `" ++ typeName ++ "` takes " ++ toString expected ++ " type argument(s), got " ++
      toString found
  | unknownField typeName field => "field `" ++ field ++ "` not found in type `" ++ typeName ++ "`"
  | fieldTypeMismatch field expected found =>
    "unexpected type for field `" ++ field ++ "`: got `" ++ found ++ "`, want `" ++ expected ++ "`"
  | missingField typeName field =>
    "struct literal for `" ++ typeName ++ "` is missing field `" ++ field ++ "`"
  | setTypeMismatch name expected found =>
    "cannot set `" ++ name ++ "` of type `" ++ expected ++ "` to a value of type `" ++ found ++ "`"
  | unsupportedUnary op operand =>
    "unsupported operator `" ++ op ++ "` for operand type `" ++ operand ++ "`"
  | unsupportedBinary op left right =>
    "unsupported operator `" ++ op ++ "` for operand types `" ++ left ++ "` and `" ++ right ++ "`"
  | argumentCount callee expected found =>
    "function `" ++ callee ++ "` takes " ++ toString expected ++ " argument(s), got " ++
      toString found
  | argumentType callee param expected found =>
    "argument `" ++ param ++ "` of `" ++ callee ++ "` wants `" ++ expected ++ "`, got `" ++ found ++
      "`"
  | notCallable name typeName => "`" ++ name ++ "` is a `" ++ typeName ++ "`, not a function"
  | invalidAssignmentTarget field typeName =>
    "cannot set field `" ++ field ++ "` on a value of type `" ++ typeName ++ "`"
  | integerOverflow op => "integer overflow in `" ++ op ++ "`"
  | recursionLimitExceeded limit =>
    "maximum recursion depth exceeded (limit: " ++ toString limit ++ ")"
  | invalidLiteral lexeme => "invalid literal `" ++ lexeme ++ "`"

end Cause

end EvalError

/-- A cause, the span of the innermost construct that failed, and the calls that were running, the
most recent first. -/
structure EvalError where
  cause : EvalError.Cause
  span : Option Span
  backtrace : Option (List Frame)
  deriving DecidableEq, Repr

namespace EvalError

/-- An error that is not placed yet. -/
def ofCause (cause : Cause) : EvalError := ⟨cause, none, none⟩

/-- An error at a construct. -/
def atSpan (span : Span) (cause : Cause) : EvalError := ⟨cause, some span, none⟩

/-- Place an error at a construct, unless it is placed already. -/
def locate (span : Span) (e : EvalError) : EvalError :=
  match e.span with
  | some _ => e
  | none => { e with span := some span }

/-- Record the running calls, unless there are none or some are recorded already. -/
def trace (frames : List Frame) (e : EvalError) : EvalError :=
  match e.backtrace with
  | some _ => e
  | none => if frames.isEmpty then e else { e with backtrace := some frames }

/-- One line of a backtrace. -/
def frameText (index : Nat) (frame : Frame) : String :=
  "  " ++ toString index ++ ": " ++ frame.name ++
    (match frame.span with
      | some span => " at " ++ span.text
      | none => "") ++ "\n"

/-- The running calls, one a line, below a heading; nothing if there are none. -/
def backtraceText (frames : List Frame) : String :=
  if frames.isEmpty then ""
  else "stack backtrace:\n" ++ String.join (frames.zipIdx.map (fun f => frameText f.2 f.1))

/-- The cause, the place, and the running calls below it. -/
def message (e : EvalError) : String :=
  e.cause.message ++
    (match e.span with
      | some span => " at " ++ span.text
      | none => "") ++
    (match e.backtrace with
      | some frames => "\n" ++ backtraceText frames
      | none => "")

/-- Giving an error a place keeps its cause. -/
@[simp] theorem locate_cause (span : Span) (e : EvalError) : (e.locate span).cause = e.cause := by
  unfold locate; split <;> rfl

/-- Giving an error a place keeps its backtrace. -/
@[simp] theorem locate_backtrace (span : Span) (e : EvalError) :
    (e.locate span).backtrace = e.backtrace := by
  unfold locate; split <;> rfl

/-- An error that has been placed stays where it is. -/
theorem locate_of_span {span place : Span} {e : EvalError} (h : e.span = some place) :
    e.locate span = e := by
  unfold locate; rw [h]

/-- Giving an error a backtrace keeps its cause. -/
@[simp] theorem trace_cause (frames : List Frame) (e : EvalError) :
    (e.trace frames).cause = e.cause := by
  unfold trace; split
  · rfl
  · split <;> rfl

/-- Giving an error a backtrace keeps its place. -/
@[simp] theorem trace_span (frames : List Frame) (e : EvalError) :
    (e.trace frames).span = e.span := by
  unfold trace; split
  · rfl
  · split <;> rfl

end EvalError

end StructScript
