/-!
# Positions and spans

A position says where a character of a source text stands; a span runs from the first to the last
token of a construct. Lines and columns count from one, columns in characters, offsets in bytes.
Lines and columns are numbers of 32 bits: one that goes beyond them goes on at zero.

Main definitions:

* `Position`, with `Position.start` and `Position.after`, the position behind a piece of text;
* `Span`, with `Span.join`, which joins two spans.
-/

namespace StructScript

/-- The number that 32 bits stand for. -/
scoped instance numberOfWord : Coe UInt32 Nat := ⟨UInt32.toNat⟩

/-- The lowest 32 bits of a number. -/
scoped instance wordOfNumber : Coe Nat UInt32 := ⟨UInt32.ofNat⟩

/-- A place in a source text. The file name is empty for text that comes from no file. -/
structure Position where
  file : String
  offset : Nat
  line : UInt32
  col : UInt32
  deriving DecidableEq, Repr, Inhabited

namespace Position

/-- The first place of a file. -/
def start (file : String) : Position := ⟨file, 0, 1, 1⟩

/-- The place behind one character: a newline starts the next line, any other character takes one
column. -/
def next (p : Position) (c : Char) : Position :=
  if c = '\n' then { p with offset := p.offset + c.utf8Size, line := p.line + 1, col := 1 }
  else { p with offset := p.offset + c.utf8Size, col := p.col + 1 }

/-- The place behind a piece of text that begins at `p`. -/
def after (p : Position) (text : List Char) : Position := text.foldl next p

/-- The line and the column, after the file name if there is one. -/
def text (p : Position) : String :=
  let place := toString p.line ++ ":" ++ toString p.col
  if p.file = "" then place else p.file ++ ":" ++ place

/-- Behind no text is where it began. -/
@[simp] theorem after_nil (p : Position) : p.after [] = p := rfl

/-- The first character is passed first. -/
@[simp] theorem after_cons (p : Position) (c : Char) (cs : List Char) :
    p.after (c :: cs) = (p.next c).after cs := rfl

/-- Behind two pieces of text is behind the second from behind the first. -/
theorem after_append (p : Position) (cs ds : List Char) :
    p.after (cs ++ ds) = (p.after cs).after ds := List.foldl_append

end Position

/-- The places of the first and the last token of a construct. -/
structure Span where
  start : Position
  stop : Position
  deriving DecidableEq, Repr, Inhabited

namespace Span

/-- The span from the start of `a` to the end of `b`. -/
def join (a b : Span) : Span := ⟨a.start, b.stop⟩

/-- The start alone if both ends are one place, else the start and the line and column of the
end. -/
def text (s : Span) : String :=
  if s.start = s.stop then s.start.text
  else s.start.text ++ ".." ++ toString s.stop.line ++ ":" ++ toString s.stop.col

end Span

end StructScript
