import StructScript.Cursor
import StructScript.ParseTree

/-!
# Separated lists

Readers of lists. They differ in how the end of the list is found: a *chain* ends where no separator
follows, a *closed* list where the closing token follows an item, and an *open* list also where the
closing token follows a separator. Each list has a bound on the number of its items.

Main definitions: `Parse.chain`, `Parse.closedList`, `Parse.openList`.
-/

namespace StructScript.Parse

open ParseTree

variable {α : Type}

/-- Items as long as the separator follows, one item at least. -/
def chain (separator : TokenKind) (item : Parse α) : Nat → Parse (Separated α)
  | 0 => Bounded.exhausted
  | n + 1 => do
    let value ← item
    if ← check separator then
      let token ← expect separator
      let rest ← chain separator item n
      return ⟨value, some token⟩ :: rest
    else return [⟨value, none⟩]

/-- Items up to the closing token, one item at least. The closing token is not taken. -/
def closedItems (separator close : TokenKind) (item : Parse α) : Nat → Parse (Separated α)
  | 0 => Bounded.exhausted
  | n + 1 => do
    let value ← item
    if ← check close then return [⟨value, none⟩]
    else
      let token ← expect separator
      let rest ← closedItems separator close item n
      return ⟨value, some token⟩ :: rest

/-- Items up to the closing token, which does not follow a separator. -/
def closedList (separator close : TokenKind) (item : Parse α) (n : Nat) : Parse (Separated α) := do
  if ← check close then return []
  else closedItems separator close item n

/-- Items up to the closing token, which may follow a separator. -/
def openList (separator close : TokenKind) (item : Parse α) : Nat → Parse (Separated α)
  | 0 => Bounded.exhausted
  | n + 1 => do
    if ← check close then return []
    else
      let value ← item
      if ← check close then return [⟨value, none⟩]
      else
        let token ← expect separator
        let rest ← openList separator close item n
        return ⟨value, some token⟩ :: rest

end StructScript.Parse
