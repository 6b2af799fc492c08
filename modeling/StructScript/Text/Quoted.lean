import StructScript.Text.DefaultIgnorable
import StructScript.Text.GraphemeExtend
import StructScript.Text.Unprintable

/-!
# Quoted text

Text written between double quotes. The quote, the backslash and four controls are written with a
backslash and a letter; a character without a visible form, or one that would join the character
before it, is written as its code point; every other character stands as it is.

Main definitions:

* `Quoted.isHidden` and `Quoted.hexEscaped`, the characters written as their code points;
* `Quoted.encode` over characters, and `Quoted.text` over strings.
-/

namespace StructScript.Quoted

/-- The letter that stands for a character after a backslash, if it has one. -/
def letter? (c : Char) : Option Char :=
  if c = '\x00' then some '0'
  else if c = '\t' then some 't'
  else if c = '\r' then some 'r'
  else if c = '\n' then some 'n'
  else if c = '"' then some '"'
  else if c = '\\' then some '\\'
  else none

/-- Whether a character is one of the two sound marks of halfwidth katakana. They extend the
character before them, and yet stand beside it in a column of their own. -/
def isHalfwidthSoundMark (c : Char) : Bool := c = '\uff9e' || c = '\uff9f'

/-- Whether a character would not be seen by itself: it has no visible form, or it would be drawn
on the character before it. -/
def isHidden (c : Char) : Bool :=
  isUnprintable c || isDefaultIgnorable c || (isGraphemeExtend c && !isHalfwidthSoundMark c)

/-- Whether a character is written as its code point. -/
def hexEscaped (c : Char) : Bool := (letter? c).isNone && isHidden c

/-- A code point in braces, in lower case and without leading zeros. -/
def codePoint (c : Char) : List Char :=
  '\\' :: 'u' :: '\x7b' :: (Nat.toDigits 16 c.toNat ++ ['\x7d'])

/-- One character, as it stands between the quotes. -/
def encodeChar (c : Char) : List Char :=
  match letter? c with
  | some l => ['\\', l]
  | none => if isHidden c then codePoint c else [c]

/-- The characters between the quotes. -/
def encode (cs : List Char) : List Char := cs.flatMap encodeChar

/-- A string between double quotes. -/
def text (s : String) : String := String.ofList ('"' :: (encode s.toList ++ ['"']))

end StructScript.Quoted
