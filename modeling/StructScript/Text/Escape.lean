/-!
# Escapes in string literals

The value of a string literal: its lexeme without the surrounding quotes, with the escapes replaced
by the characters they stand for. A backslash before any other character stays, as does a backslash
at the end.

Main definitions:

* `Escape.resolve?`, the character that a letter stands for after a backslash;
* `Escape.decode`, the value of the characters between the quotes;
* `Escape.value`, the value of a lexeme.
-/

namespace StructScript.Escape

/-- The character that a letter stands for after a backslash, if it stands for one. -/
def resolve? (letter : Char) : Option Char :=
  if letter = 'n' then some '\n'
  else if letter = 'r' then some '\r'
  else if letter = 't' then some '\t'
  else if letter = '\\' then some '\\'
  else if letter = '"' then some '"'
  else if letter = '0' then some '\x00'
  else none

/-- Replace escapes by the characters they stand for. -/
def decode : List Char → List Char
  | [] => []
  | '\\' :: letter :: rest =>
    match resolve? letter with
    | some c => c :: decode rest
    | none => '\\' :: letter :: decode rest
  | c :: rest => c :: decode rest

/-- The characters between the two quotes of a lexeme; text that is not enclosed in two quotes is
taken whole. -/
def body (lexeme : List Char) : List Char :=
  match lexeme with
  | '"' :: rest => if rest.getLast? = some '"' then rest.dropLast else lexeme
  | _ => lexeme

/-- The value of a string literal's lexeme. -/
def value (lexeme : String) : String := String.ofList (decode (body lexeme.toList))

end StructScript.Escape
