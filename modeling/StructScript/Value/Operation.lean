import StructScript.Value

/-!
# Operations on values

What the operators do. Each operator asks a capability of its operands, each kind of value has some
capabilities, and both operands of a binary operator are of one kind. Integers are 64 bits wide; a
result that does not fit is an error, and a division by zero gives zero. Taking one string from
another removes every occurrence.

Main definitions:

* `Capability`, with `Capability.supportedBy`;
* `Value.applyUnary`, `Value.applyBinary`.
-/

namespace StructScript

/-- What an operator asks of its operands. -/
inductive Capability where
  /-- A sign. -/
  | neg
  /-- Addition and subtraction. -/
  | sum
  /-- Multiplication and division. -/
  | product
  /-- Comparison. -/
  | cmp
  /-- Logic. -/
  | log
  deriving DecidableEq, Repr

namespace Capability

/-- What a unary operator asks for. -/
def ofUnary : UnaryOp → Capability
  | .pos | .neg => neg
  | .not => log

/-- What a binary operator asks for. -/
def ofBinary : BinaryOp → Capability
  | .add | .sub => sum
  | .mul | .div => product
  | .gt | .gtEq | .lt | .ltEq | .eq => cmp
  | .and | .or => log

/-- Whether values of this kind have the capability. -/
def supportedBy (c : Capability) : Value → Bool
  | .int _ | .float _ => c ≠ log
  | .str _ => c = sum || c = cmp
  | .bool _ => c = log
  | .nil | .struct _ | .func _ => false

end Capability

namespace Value

/-- The integer `n`, if 64 bits hold it; else the operator overflows. -/
def ofInt (op : String) (n : Int) : Except EvalError.Cause Value :=
  if Int64.minValue.toInt ≤ n ∧ n ≤ Int64.maxValue.toInt then .ok (int (Int64.ofInt n))
  else .error (.integerOverflow op)

/-- Apply a unary operator. -/
def applyUnary (op : UnaryOp) (operand : Value) : Except EvalError.Cause Value :=
  match op, operand with
  | .pos, int n => .ok (int n)
  | .neg, int n => ofInt op.symbol (-n.toInt)
  | .pos, float x => .ok (float x)
  | .neg, float x => .ok (float (-x))
  | .not, bool b => .ok (bool !b)
  | _, v => .error (.unsupportedUnary op.symbol v.typeName)

/-- Remove every occurrence of a text from `cs`, from left to right, after passing over the first
`skip` characters. -/
def removeAll (text : List Char) : Nat → List Char → List Char
  | _, [] => []
  | skip + 1, _ :: rest => removeAll text skip rest
  | 0, c :: rest =>
    if text.isPrefixOf (c :: rest) then removeAll text (text.length - 1) rest
    else c :: removeAll text 0 rest

/-- The string `a` without the occurrences of `b`. Of an empty string there are none. -/
def subtractString (a b : String) : String :=
  if b = "" then a else String.ofList (removeAll b.toList 0 a.toList)

/-- Compare two integers, or apply arithmetic to them. -/
def applyInt (op : BinaryOp) (a b : Int) : Except EvalError.Cause Value :=
  match op with
  | .add => ofInt op.symbol (a + b)
  | .sub => ofInt op.symbol (a - b)
  | .mul => ofInt op.symbol (a * b)
  | .div => if b = 0 then .ok (int 0) else ofInt op.symbol (a.tdiv b)
  | .gt => .ok (bool (b < a))
  | .gtEq => .ok (bool (b ≤ a))
  | .lt => .ok (bool (a < b))
  | .ltEq => .ok (bool (a ≤ b))
  | _ => .ok (bool (a = b))

/-- Compare two floats, or apply arithmetic to them. -/
def applyFloat (op : BinaryOp) (a b : Float) : Value :=
  match op with
  | .add => float (a + b)
  | .sub => float (a - b)
  | .mul => float (a * b)
  | .div => float (a / b)
  | .gt => bool (b < a)
  | .gtEq => bool (b ≤ a)
  | .lt => bool (a < b)
  | .ltEq => bool (a ≤ b)
  | _ => bool (a == b)

/-- Compare two strings by their characters, join them, or subtract one. -/
def applyString (op : BinaryOp) (a b : String) : Value :=
  match op with
  | .add => str (a ++ b)
  | .sub => str (subtractString a b)
  | .gt => bool (b < a)
  | .gtEq => bool (b ≤ a)
  | .lt => bool (a < b)
  | .ltEq => bool (a ≤ b)
  | _ => bool (a = b)

/-- Combine two truth values. -/
def applyBool (op : BinaryOp) (a b : Bool) : Value :=
  match op with
  | .or => bool (a || b)
  | _ => bool (a && b)

/-- Apply a binary operator. -/
def applyBinary (op : BinaryOp) (left right : Value) : Except EvalError.Cause Value :=
  let unsupported := .error (.unsupportedBinary op.symbol left.typeName right.typeName)
  let capability := Capability.ofBinary op
  if capability.supportedBy left && capability.supportedBy right then
    match left, right with
    | int a, int b => applyInt op a.toInt b.toInt
    | float a, float b => .ok (applyFloat op a b)
    | str a, str b => .ok (applyString op a b)
    | bool a, bool b => .ok (applyBool op a b)
    | _, _ => unsupported
  else unsupported

end Value

end StructScript
