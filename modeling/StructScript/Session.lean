import StructScript.Ast.OfParseTree
import StructScript.Evaluation.Call
import StructScript.Reading.Program
import StructScript.Token.Scan

/-!
# Sessions

A session runs source texts one after the other against one outermost scope, so what one text
defines is there for the next. A text that cannot be read is not run at all; a text that fails while
it runs keeps what it has done.

Main definitions:

* `Failure`, any failure on the way from a text to its result;
* `Ast.Program.ofSource`, reading a text;
* `Config` and `Session`, with `Session.run` and `Session.callFunction`.
-/

namespace StructScript

/-- A failure on the way from a source text to its result. -/
inductive Failure where
  | scan (e : ScanError)
  | parse (e : ParseError)
  | eval (e : EvalError)
  deriving DecidableEq, Repr

/-- The failure in words. -/
def Failure.message : Failure → String
  | scan e => "lex error: " ++ e.message
  | parse e => "parse error: " ++ e.message
  | eval e => "evaluation error: " ++ e.message

/-- The program that a source text writes. The number tells its function literals from those of
other texts. -/
def Ast.Program.ofSource (number : Nat) (file text : String) : Except Failure Ast.Program :=
  match Token.scan text file with
  | .error e => .error (.scan e)
  | .ok tokens =>
    match ParseTree.Program.ofTokens (Token.dropComments tokens) .standard with
    | .error e => .error (.parse e)
    | .ok tree => .ok (tree.toAst number)

/-- How sources are named and run. -/
structure Config where
  /-- The file that positions name. -/
  file : String := ""
  /-- How many calls may run inside one another; no limit is `none`. -/
  callLimit : Option Nat := some 1024
  /-- Whether a struct literal has to give every field. -/
  strict : Bool := false
  deriving DecidableEq, Repr

/-- A bound on the nesting of calls. With a limit, one more than the limit is never used up; without
one, the bound is beyond what any machine can hold. -/
def Config.callBound (c : Config) : Nat :=
  match c.callLimit with
  | some limit => limit + 1
  | none => 0x4000000000000000

/-- A machine with its outermost scope and the number of source texts it has read. -/
structure Session where
  config : Config
  root : ScopeId
  machine : Machine
  sources : Nat

namespace Session

/-- A session that begins with a store and an outermost scope in it. -/
def ofStore (config : Config) (output : Output) (root : ScopeId) (store : Store) : Session :=
  ⟨config, root, ⟨store, output, CallStack.empty config.callLimit⟩, 0⟩

/-- A session without bindings. -/
def new (config : Config) (output : Output) : Session :=
  let (root, store) := Store.empty.addRoot
  ofStore config output root store

/-- Run a computation on the machine. -/
def onMachine {α : Type} (s : Session) (m : Eval α) : Option (Except EvalError α × Session) :=
  match m s.machine with
  | none => none
  | some (result, machine) => some (result, { s with machine := machine })

/-- Run a source text in a scope, with at most `bound` calls inside one another. The result is the
value of a return outside of all functions, if one ran. -/
def runIn (bound : Nat) (scope : ScopeId) (text : String) (s : Session) :
    Option (Except Failure (Option Value) × Session) :=
  let number := s.sources + 1
  let s := { s with sources := number }
  match Ast.Program.ofSource number s.config.file text with
  | .error e => some (.error e, s)
  | .ok program =>
    match s.onMachine (Machine.run s.config.strict bound scope program.stmts) with
    | none => none
    | some (.error e, s) => some (.error (.eval e), s)
    | some (.ok outcome, s) => some (.ok outcome.returned?, s)

/-- Run a source text in the outermost scope. -/
def run (bound : Nat) (text : String) (s : Session) :
    Option (Except Failure (Option Value) × Session) :=
  s.runIn bound s.root text

/-- Call a function from outside of any program. -/
def callFunction (bound : Nat) (name : String) (f : Closure) (args : List Value) (span : Span)
    (s : Session) : Option (Except EvalError Value × Session) :=
  s.onMachine (Closure.call s.config.strict bound name f args span)

/-- All text that has been printed and kept. -/
def output (s : Session) : String := s.machine.output.text

end Session

end StructScript
