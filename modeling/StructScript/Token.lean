import StructScript.Source.Position

/-!
# Tokens

A token is a piece of source text with the kind it was recognised as and the place where it begins.

Main definitions:

* `TokenKind`, with its spelling in diagnostics, `TokenKind.description`;
* `TokenKind.keyword?`, the keywords of the language;
* `Token`.
-/

namespace StructScript

/-- What a token is. Every keyword and every symbol is a kind of its own. -/
inductive TokenKind where
  | comment | eof
  | ident | int | float | string
  | structKw | typeKw | letKw | setKw | trueKw | falseKw | nilKw | funcKw | returnKw
  | andKw | orKw | notKw
  | lbracket | rbracket | lbrace | rbrace | lparen | rparen
  | period | comma | semicolon | colon | eq | eqEq | arrow
  | plus | minus | star | slash | gt | gtEq | lt | ltEq
  deriving DecidableEq, Repr, Inhabited

namespace TokenKind

/-- Every keyword with its spelling. -/
def keywords : List (String × TokenKind) :=
  [("struct", structKw), ("type", typeKw), ("let", letKw), ("set", setKw), ("true", trueKw),
   ("false", falseKw), ("nil", nilKw), ("func", funcKw), ("return", returnKw), ("and", andKw),
   ("or", orKw), ("not", notKw)]

/-- Every symbol with its spelling. -/
def symbols : List (String × TokenKind) :=
  [("[", lbracket), ("]", rbracket), ("\x7b", lbrace), ("\x7d", rbrace), ("(", lparen),
   (")", rparen), (".", period), (",", comma), (";", semicolon), (":", colon), ("==", eqEq),
   ("=", eq), ("->", arrow), ("+", plus), ("-", minus), ("*", star), ("/", slash), (">=", gtEq),
   (">", gt), ("<=", ltEq), ("<", lt)]

/-- The keyword spelled `text`, if there is one. -/
def keyword? (text : String) : Option TokenKind := List.lookup text keywords

/-- The kinds of tokens that are literals. -/
def literals : List TokenKind := [int, float, string, trueKw, falseKw, nilKw]

/-- Whether tokens of this kind are literals. -/
def isLiteral (kind : TokenKind) : Bool := literals.contains kind

/-- How diagnostics call a kind: keywords and symbols by their spelling. -/
def description : TokenKind → String
  | comment => "comment"
  | eof => "end of file"
  | ident => "identifier"
  | int => "integer literal"
  | float => "float literal"
  | string => "string literal"
  | structKw => "struct"
  | typeKw => "type"
  | letKw => "let"
  | setKw => "set"
  | trueKw => "true"
  | falseKw => "false"
  | nilKw => "nil"
  | funcKw => "func"
  | returnKw => "return"
  | andKw => "and"
  | orKw => "or"
  | notKw => "not"
  | lbracket => "["
  | rbracket => "]"
  | lbrace => "\x7b"
  | rbrace => "\x7d"
  | lparen => "("
  | rparen => ")"
  | period => "."
  | comma => ","
  | semicolon => ";"
  | colon => ":"
  | eq => "="
  | eqEq => "=="
  | arrow => "->"
  | plus => "+"
  | minus => "-"
  | star => "*"
  | slash => "/"
  | gt => ">"
  | gtEq => ">="
  | lt => "<"
  | ltEq => "<="

/-- The tag under which a token of this kind is listed. -/
def tag : TokenKind → String
  | comment => "Comment"
  | eof => "Eof"
  | ident => "Ident"
  | int => "Int"
  | float => "Float"
  | string => "String"
  | structKw => "Struct"
  | typeKw => "Type"
  | letKw => "Let"
  | setKw => "Set"
  | trueKw => "True"
  | falseKw => "False"
  | nilKw => "Nil"
  | funcKw => "Func"
  | returnKw => "Return"
  | andKw => "And"
  | orKw => "Or"
  | notKw => "Not"
  | lbracket => "LBracket"
  | rbracket => "RBracket"
  | lbrace => "LBrace"
  | rbrace => "RBrace"
  | lparen => "LParen"
  | rparen => "RParen"
  | period => "Period"
  | comma => "Comma"
  | semicolon => "Semicolon"
  | colon => "Colon"
  | eq => "Eq"
  | eqEq => "EqEq"
  | arrow => "Arrow"
  | plus => "Plus"
  | minus => "Minus"
  | star => "Star"
  | slash => "Slash"
  | gt => "Gt"
  | gtEq => "GtEq"
  | lt => "Lt"
  | ltEq => "LtEq"

/-- Every kind, in the order of declaration. -/
def all : List TokenKind :=
  [comment, eof, ident, int, float, string, structKw, typeKw, letKw, setKw, trueKw, falseKw, nilKw,
   funcKw, returnKw, andKw, orKw, notKw, lbracket, rbracket, lbrace, rbrace, lparen, rparen, period,
   comma, semicolon, colon, eq, eqEq, arrow, plus, minus, star, slash, gt, gtEq, lt, ltEq]

/-- The kind listed under a tag, if there is one. -/
def ofTag? (text : String) : Option TokenKind := all.find? (fun kind => kind.tag == text)

/-- Every kind is in the list of all kinds. -/
theorem mem_all (kind : TokenKind) : kind ∈ all := by cases kind <;> decide

end TokenKind

/-- A piece of source text, recognised as a kind and placed. -/
structure Token where
  kind : TokenKind
  lexeme : String
  position : Position
  deriving DecidableEq, Repr, Inhabited

namespace Token

/-- The tag, the lexeme and the place of a token. -/
def text (t : Token) : String :=
  "\x7b" ++ t.kind.tag ++ ", `" ++ t.lexeme ++ "`, " ++ t.position.text ++ "\x7d"

/-- The span of one token. -/
def span (t : Token) : Span := ⟨t.position, t.position⟩

/-- The span from this token to `last`. -/
def spanTo (first last : Token) : Span := ⟨first.position, last.position⟩

/-- How diagnostics show a token: by its lexeme, or, where the text ends, in words. -/
def found (t : Token) : String := if t.kind = .eof then t.kind.description else t.lexeme

end Token

end StructScript
