import StructScript.Bounded
import StructScript.ParseError

/-!
# Token cursors

A cursor stands between two tokens of a buffer. The basic readers look at the token behind it or
take that token; a reader that fails leaves the cursor where it failed.

Main definitions:

* `Cursor`, with `Cursor.ofTokens` and `Cursor.back`;
* `Parse`, the readers of syntax;
* `Parse.peek`, `Parse.advance`, `Parse.check`, `Parse.expect`, `Parse.within`.
-/

namespace StructScript

/-- A place between two tokens of a buffer: those before it, the nearest first, and those behind
it. -/
structure Cursor where
  consumed : List Token
  remaining : List Token
  deriving DecidableEq, Repr

namespace Cursor

/-- The place before the first token. -/
def ofTokens (tokens : List Token) : Cursor := ⟨[], tokens⟩

/-- All tokens of the buffer. -/
def tokens (c : Cursor) : List Token := c.consumed.reverse ++ c.remaining

/-- Whether a token is left. -/
def hasMore (c : Cursor) : Bool := !c.remaining.isEmpty

/-- Go back over the token taken last. -/
def back (c : Cursor) : Cursor :=
  match c.consumed with
  | [] => c
  | token :: rest => ⟨rest, token :: c.remaining⟩

/-- The last token of the buffer. -/
def last? (c : Cursor) : Option Token := c.remaining.getLast?.or c.consumed.head?

/-- The error of a reader that finds no token left. It is placed at the last token of the buffer. -/
def outOfTokens (c : Cursor) : ParseError := ⟨.outOfTokens, c.last?.map (·.position), []⟩

end Cursor

/-- A reader of syntax: it moves a cursor and gives a tree or an error. -/
abbrev Parse (α : Type) : Type := Bounded Cursor ParseError α

namespace Parse

variable {α : Type}

/-- The next token, which is not taken. -/
def peek : Parse Token := fun c =>
  match c.remaining with
  | [] => some (.error c.outOfTokens, c)
  | token :: _ => some (.ok token, c)

/-- Take the next token. -/
def advance : Parse Token := fun c =>
  match c.remaining with
  | [] => some (.error c.outOfTokens, c)
  | token :: rest => some (.ok token, ⟨token :: c.consumed, rest⟩)

/-- Whether the next token is of one of `kinds`. -/
def checkAny (kinds : List TokenKind) : Parse Bool := do
  let token ← peek
  return kinds.contains token.kind

/-- Whether the next token is of this kind. -/
def check (kind : TokenKind) : Parse Bool := checkAny [kind]

/-- Take the next token, which has to be of one of `kinds`. A wrong token is taken too. -/
def expectAny (kinds : List TokenKind) : Parse Token := do
  let token ← advance
  if kinds.contains token.kind then return token else Bounded.fail (.unexpected kinds token)

/-- Take the next token, which has to be of this kind. -/
def expect (kind : TokenKind) : Parse Token := expectAny [kind]

/-- Read a construct, which errors name. -/
def within (construct : Construct) (p : Parse α) : Parse α :=
  Bounded.mapError (ParseError.within construct) p

/-! ### How the basic readers move a cursor -/

/-- Looking ahead gives the first token that remains, and moves nothing. -/
theorem peek_eq_ok_iff {c c' : Cursor} {token : Token} :
    peek c = some (.ok token, c') ↔ c' = c ∧ c.remaining.head? = some token := by
  unfold peek
  split <;> rename_i h <;> simp [h, and_comm, eq_comm]

/-- Taking a token moves it from behind the cursor to before it. -/
theorem advance_eq_ok_iff {c c' : Cursor} {token : Token} :
    advance c = some (.ok token, c') ↔
      c.remaining = token :: c'.remaining ∧ c'.consumed = token :: c.consumed := by
  unfold advance
  split <;> rename_i h
  · simp [h]
  · obtain ⟨consumed', remaining'⟩ := c'
    simp only [h, Option.some.injEq, Prod.mk.injEq, Except.ok.injEq, Cursor.mk.injEq,
      List.cons.injEq]
    constructor
    · rintro ⟨rfl, rfl, rfl⟩
      simp
    · rintro ⟨⟨rfl, rfl⟩, rfl⟩
      simp

/-- There is nothing to take just where no token remains. -/
theorem advance_eq_error_iff {c c' : Cursor} {e : ParseError} :
    advance c = some (.error e, c') ↔ c' = c ∧ c.remaining = [] ∧ e = c.outOfTokens := by
  unfold advance
  split <;> rename_i h
  · simp only [h, Option.some.injEq, Prod.mk.injEq, Except.error.injEq, true_and]
    constructor
    · rintro ⟨rfl, rfl⟩
      simp
    · rintro ⟨rfl, rfl⟩
      simp
  · simp [h]

end Parse

end StructScript
