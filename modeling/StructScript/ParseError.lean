import StructScript.Token

/-!
# Parse errors

A parse error is a cause, the place of the token that shows it, and the constructs that were being
read, the innermost first.

Main definitions:

* `Construct`, the constructs that an error can lie in;
* `ParseError`, with `ParseError.within` and `ParseError.message`.
-/

namespace StructScript

/-- A construct of the language, as named by parse errors. -/
inductive Construct where
  | stmt | typeDef | define | assign | returnStmt | exprStmt | place
  | type | typeArgs | typeParams | structDef | structFields | nameList
  | unaryOperator | binaryOperator | group | structLiteral | structLiteralFields | fieldAccess
  | call | func | funcParams | funcBody
  deriving DecidableEq, Repr, Inhabited

namespace Construct

/-- The name of a construct in messages. -/
def description : Construct → String
  | stmt => "stmt"
  | typeDef => "typedef"
  | define => "vardef"
  | assign => "varset"
  | returnStmt => "return stmt"
  | exprStmt => "expr stmt"
  | place => "lvalue"
  | type => "type"
  | typeArgs => "type arguments"
  | typeParams => "type parameters"
  | structDef => "structdef"
  | structFields => "struct fields"
  | nameList => "name list"
  | unaryOperator => "prefix operator"
  | binaryOperator => "infix operator"
  | group => "grouping"
  | structLiteral => "struct literal"
  | structLiteralFields => "struct literal fields"
  | fieldAccess => "field access"
  | call => "function call"
  | func => "function literal"
  | funcParams => "function parameters"
  | funcBody => "function body"

/-- A construct as a place where an error lies. -/
def text (c : Construct) : String := "in " ++ c.description

end Construct

/-- What went wrong. -/
inductive ParseError.Cause where
  /-- The token is none of those that may stand here. -/
  | unexpectedToken (expected found : String)
  /-- The token begins no expression. -/
  | noLeadingRule (found : String)
  /-- The token continues no expression. -/
  | noTrailingRule (found : String)
  /-- The callee of a call is neither a name nor a field. -/
  | calleeNotPlace
  /-- A name list begins with something else than a name. -/
  | emptyNameList
  /-- There are no more tokens. -/
  | outOfTokens
  deriving DecidableEq, Repr

/-- The cause in words. -/
def ParseError.Cause.message : ParseError.Cause → String
  | unexpectedToken expected found => "expected " ++ expected ++ ", found `" ++ found ++ "`"
  | noLeadingRule found => "no prefix rule for token `" ++ found ++ "`"
  | noTrailingRule found => "no infix rule for token `" ++ found ++ "`"
  | calleeNotPlace => "expected an identifier or field access as the callee of a call"
  | emptyNameList => "a struct field needs at least one name"
  | outOfTokens => "out of tokens"

/-- A cause, the place of the token that shows it, and the constructs that were being read, the
innermost first. -/
structure ParseError where
  cause : ParseError.Cause
  position : Option Position
  context : List Construct
  deriving DecidableEq, Repr

namespace ParseError

/-- An error at a token, with no construct around it yet. -/
def atToken (token : Token) (cause : Cause) : ParseError := ⟨cause, some token.position, []⟩

/-- A token stands where one of `kinds` has to stand. -/
def unexpected (kinds : List TokenKind) (token : Token) : ParseError :=
  .atToken token (.unexpectedToken
    (" or ".intercalate (kinds.map (fun kind => "`" ++ kind.description ++ "`"))) token.found)

/-- A token stands where something else, given in words, has to stand. -/
def unexpectedDescribed (expected : String) (token : Token) : ParseError :=
  .atToken token (.unexpectedToken expected token.found)

/-- A token begins no expression. -/
def noLeadingRule (token : Token) : ParseError := .atToken token (.noLeadingRule token.found)

/-- A token continues no expression. -/
def noTrailingRule (token : Token) : ParseError := .atToken token (.noTrailingRule token.found)

/-- Record that the error lies in a construct, around those recorded before. -/
def within (construct : Construct) (e : ParseError) : ParseError :=
  { e with context := e.context ++ [construct] }

/-- The constructs around the error, the outermost first. -/
def chain (e : ParseError) : List Construct := e.context.reverse

/-- The constructs from the outside in, the cause, and the place. -/
def message (e : ParseError) : String :=
  String.join (e.chain.map (fun c => c.text ++ ": ")) ++ e.cause.message ++
    match e.position with
    | some p => " at " ++ p.text
    | none => ""

/-- A construct around an error keeps its cause. -/
@[simp] theorem within_cause (c : Construct) (e : ParseError) : (e.within c).cause = e.cause := rfl

/-- A construct around an error keeps its position. -/
@[simp] theorem within_position (c : Construct) (e : ParseError) :
    (e.within c).position = e.position := rfl

/-- A construct around an error comes first in its chain. -/
@[simp] theorem chain_within (c : Construct) (e : ParseError) :
    (e.within c).chain = c :: e.chain := by
  simp [chain, within]

end ParseError

end StructScript
