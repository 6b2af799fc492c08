import StructScript.Token

/-!
# Token patterns

The shapes of lexemes. A pattern is a set of non-empty texts; `Pattern.longest` gives the length of
the longest text of the set that some characters begin with. The rules of the language pair each
pattern with the kind of its tokens; where two rules take equally much, the earlier one counts, so
keywords stand before names.

Main definitions:

* `Pattern`, `Pattern.longest`;
* `Rule`, `Rule.all`, the rules of the language;
* `Rule.best?`, the rule that takes most of some characters.
-/

namespace StructScript

/-- Whether a character is between two tokens: space, tab, line feed, form feed, carriage return. -/
def isGap (c : Char) : Bool := c = ' ' || c = '\t' || c = '\n' || c = '\x0c' || c = '\r'

/-- Whether a character may begin a name. -/
def isNameStart (c : Char) : Bool := c.isAlpha || c = '_'

/-- Whether a character may continue a name. -/
def isNameChar (c : Char) : Bool := c.isAlphanum || c = '_'

/-- The shape of a lexeme. -/
inductive Pattern where
  /-- One text and no other. -/
  | exact (text : List Char)
  /-- Two slashes and all that follows on the line. -/
  | comment
  /-- Digits. -/
  | digits
  /-- Digits, a point, digits. -/
  | decimal
  /-- A quoted text. A backslash takes in the character after it, which may not be a newline. -/
  | quoted
  /-- A letter or an underscore, then letters, digits and underscores. -/
  | name
  deriving DecidableEq, Repr

namespace Pattern

/-- How many characters at the front satisfy `p`. -/
def countWhile (p : Char → Bool) : List Char → Nat
  | [] => 0
  | c :: rest => if p c then countWhile p rest + 1 else 0

/-- How many characters there are up to and with the closing quote, for text behind an opening
quote. -/
def closing? : List Char → Option Nat
  | [] => none
  | '"' :: _ => some 1
  | ['\\'] => none
  | '\\' :: c :: rest => if c = '\n' then none else (closing? rest).map (· + 2)
  | _ :: rest => (closing? rest).map (· + 1)

/-- The length of the longest text of the pattern that `cs` begins with, if it begins with one. -/
def longest : Pattern → List Char → Option Nat
  | exact text, cs => if text.isPrefixOf cs then some text.length else none
  | comment, '/' :: '/' :: rest => some (countWhile (· ≠ '\n') rest + 2)
  | comment, _ => none
  | digits, cs =>
    match countWhile Char.isDigit cs with
    | 0 => none
    | n + 1 => some (n + 1)
  | decimal, cs =>
    match countWhile Char.isDigit cs with
    | 0 => none
    | n + 1 =>
      match cs.drop (n + 1) with
      | '.' :: rest =>
        match countWhile Char.isDigit rest with
        | 0 => none
        | m + 1 => some (n + 1 + 1 + (m + 1))
      | _ => none
  | quoted, '"' :: rest => (closing? rest).map (· + 1)
  | quoted, _ => none
  | name, c :: rest => if isNameStart c then some (countWhile isNameChar rest + 1) else none
  | name, [] => none

end Pattern

/-- A pattern with the kind of its tokens. -/
structure Rule where
  kind : TokenKind
  pattern : Pattern
  deriving DecidableEq, Repr

namespace Rule

/-- The rule that takes exactly one spelling. -/
def ofSpelling (entry : String × TokenKind) : Rule := ⟨entry.2, .exact entry.1.toList⟩

/-- The rules of the language. -/
def all : List Rule :=
  ⟨.comment, .comment⟩ :: TokenKind.keywords.map ofSpelling ++ TokenKind.symbols.map ofSpelling ++
    [⟨.int, .digits⟩, ⟨.float, .decimal⟩, ⟨.string, .quoted⟩, ⟨.ident, .name⟩]

/-- The kind and the length of what the rules take most of, the earlier rule winning a tie. -/
def best? (cs : List Char) : List Rule → Option (TokenKind × Nat)
  | [] => none
  | rule :: rest =>
    match rule.pattern.longest cs, best? cs rest with
    | none, later => later
    | some n, none => some (rule.kind, n)
    | some n, some (kind, m) => if m ≤ n then some (rule.kind, n) else some (kind, m)

end Rule

end StructScript
