import StructScript.Reading.Separated

/-!
# Reading types, places and struct definitions

The constructs that hold no expressions. Where a construct begins with a name, the reader of what
follows the name takes the name as an argument, so that no token is read twice.

Main definitions: `Parse.typeRef`, `Parse.place`, `Parse.structDef`.
-/

namespace StructScript.Parse

open ParseTree

/-- The kinds of tokens that name a type. -/
def typeNameKinds : List TokenKind := [.ident, .nilKw]

/-- What follows the name of a type: arguments in brackets, or nothing. -/
def typeArgs (type : Parse TypeRef) (n : Nat) (name : Token) : Parse TypeRef := do
  if ← check .lbracket then
    within .typeArgs do
      let lbracket ← expect .lbracket
      let args ← chain .comma type n
      let rbracket ← expect .rbracket
      return .applied name lbracket args rbracket
  else return .plain name

/-- A type. -/
def typeRef : Nat → Parse TypeRef
  | 0 => Bounded.exhausted
  | n + 1 => within .type do
    let name ← expectAny typeNameKinds
    typeArgs (typeRef n) n name

/-- Fields behind a place. -/
def fields : Nat → Place → Parse Place
  | 0, _ => Bounded.exhausted
  | n + 1, base => do
    if ← check .arrow then
      let arrow ← expect .arrow
      let name ← expect .ident
      fields n (.field base arrow name)
    else return base

/-- The place that begins with a variable. -/
def placeFrom (n : Nat) (name : Token) : Parse Place := do
  if ← check .arrow then within .fieldAccess (fields n (.var name))
  else return .var name

/-- A place to be assigned to. -/
def place (n : Nat) : Parse Place := within .place do
  let name ← expect .ident
  placeFrom n name

/-- Names with commas between them, one name at least. -/
def nameList (n : Nat) : Parse (Separated Token) := within .nameList do
  let first ← peek
  if first.kind = .ident then chain .comma (expect .ident) n
  else Bounded.fail (.atToken first .emptyNameList)

/-- The parameters of a struct definition. -/
def typeParams (n : Nat) : Parse TypeParams := within .typeParams do
  let lbracket ← expect .lbracket
  let names ← nameList n
  let rbracket ← expect .rbracket
  return ⟨lbracket, names, rbracket⟩

/-- The names and the type of a group of fields. -/
def fieldGroup (n : Nat) : Parse (Separated Token × TypeRef) := do
  let names ← nameList n
  let type ← typeRef n
  return (names, type)

/-- The groups of fields of a struct definition. -/
def fieldGroups (n : Nat) : Parse (List FieldGroup) := within .structFields do
  let groups ← openList .semicolon .rbrace (fieldGroup n) n
  return groups.map (fun g => ⟨g.value.1, g.value.2, g.separator⟩)

/-- A struct definition. -/
def structDef (n : Nat) : Parse StructDef := within .structDef do
  let structKw ← expect .structKw
  let params ← if ← check .lbracket then some <$> typeParams n else pure none
  let lbrace ← expect .lbrace
  let groups ← fieldGroups n
  let rbrace ← expect .rbrace
  return ⟨structKw, params, lbrace, groups, rbrace⟩

end StructScript.Parse
