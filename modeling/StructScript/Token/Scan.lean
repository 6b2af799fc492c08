import StructScript.Token.Pattern

/-!
# Scanning

Splits a source text into tokens. Gaps between tokens are skipped; each token is the longest text
that a rule of the language takes. The tokens end with one of kind `eof` behind the last character.
Scanning stops at the first place where no rule takes anything.

Main definitions:

* `ScanError`, the two ways in which scanning can stop;
* `Token.scan`, the tokens of a source text;
* `Token.dropComments`.
-/

namespace StructScript

/-- Why no token could be taken. -/
inductive ScanError.Cause where
  /-- The character begins no token. -/
  | unexpectedChar (c : Char)
  /-- A string literal is never closed. -/
  | unterminatedString
  deriving DecidableEq, Repr

/-- A place where no token could be taken. -/
structure ScanError where
  cause : ScanError.Cause
  position : Position
  deriving DecidableEq, Repr

namespace ScanError

/-- The cause in words. -/
def Cause.message : Cause → String
  | unexpectedChar c => "unexpected character `" ++ c.toString ++ "`"
  | unterminatedString => "unterminated string literal"

/-- The cause and the place. -/
def message (e : ScanError) : String := e.cause.message ++ " at " ++ e.position.text

end ScanError

namespace Token

/-- The cause for which no token can be taken at a place where the text goes on with `c`. -/
def scanFailure (c : Char) : ScanError.Cause :=
  if c = '"' then .unterminatedString else .unexpectedChar c

/-- Scan the characters `cs`, the first of which stands at `p`, with at most `fuel` steps. The
tokens taken so far stand before the others in reverse order. Each step takes a character at least,
so as many steps as there are characters are enough. -/
def scanFrom (fuel : Nat) (taken : List Token) (p : Position) (cs : List Char) :
    Except ScanError (List Token) :=
  match fuel, cs with
  | _, [] => .ok (⟨.eof, "", p⟩ :: taken).reverse
  | 0, c :: _ => .error ⟨scanFailure c, p⟩
  | fuel + 1, c :: rest =>
    if isGap c then scanFrom fuel taken (p.next c) rest
    else
      match Rule.best? (c :: rest) Rule.all with
      | none => .error ⟨scanFailure c, p⟩
      | some (kind, n) =>
        let lexeme := (c :: rest).take n
        scanFrom fuel (⟨kind, String.ofList lexeme, p⟩ :: taken) (p.after lexeme)
          ((c :: rest).drop n)

/-- The tokens of a source text, which `file` names in their positions. -/
def scan (source file : String) : Except ScanError (List Token) :=
  scanFrom source.toList.length [] (Position.start file) source.toList

/-- The tokens that are not comments. -/
def dropComments (tokens : List Token) : List Token := tokens.filter (·.kind ≠ .comment)

end Token

end StructScript
