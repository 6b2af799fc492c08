import StructScript.Value

/-!
# Program output

Where printed text goes, and the built-in functions that print.

Main definitions:

* `Output`, with `Output.write`;
* `Builtin`, with `Builtin.printed`.
-/

namespace StructScript

/-- Where printed text goes. -/
inductive Output where
  /-- It is kept. -/
  | buffer (text : String)
  /-- It is dropped. -/
  | silent
  deriving DecidableEq, Repr

namespace Output

/-- Print a text. -/
def write (text : String) : Output → Output
  | buffer before => buffer (before ++ text)
  | silent => silent

/-- Print a text and a newline. -/
def writeLine (text : String) (out : Output) : Output := (out.write text).write "\n"

/-- All that has been kept. -/
def text : Output → String
  | buffer text => text
  | silent => ""

/-- Drop what has been kept. -/
def clear : Output → Output
  | buffer _ => buffer ""
  | silent => silent

/-- Printing a text appends it to a buffer. -/
@[simp] theorem text_write_buffer (before text : String) :
    ((buffer before).write text).text = before ++ text := rfl

end Output

/-- A built-in function. Each prints its arguments and gives nil. -/
inductive Builtin where
  /-- Prints its arguments one after the other. -/
  | print
  /-- Prints each argument on a line of its own. -/
  | println
  deriving DecidableEq, Repr

namespace Builtin

/-- How the function is called. -/
def name : Builtin → String
  | print => "print"
  | println => "println"

/-- The built-in function of this name, if there is one. -/
def ofName? (name : String) : Option Builtin :=
  if name = "print" then some print else if name = "println" then some println else none

/-- The text that a call prints. Without arguments, `println` prints an empty line. -/
def printed (f : Builtin) (args : List Value) : String :=
  match f with
  | print => String.join (args.map Value.printed)
  | println =>
    if args.isEmpty then "\n" else String.join (args.map (fun v => v.printed ++ "\n"))

end Builtin

end StructScript
