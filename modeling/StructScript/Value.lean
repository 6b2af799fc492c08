import StructScript.Ast.Text
import StructScript.Decimal.Text
import StructScript.StructType
import StructScript.Text.Quoted

/-!
# Values

What expressions evaluate to. A struct value carries the type it was written with, the bindings of
the type's parameters and the types of its fields; a field that was not given is absent. A function
value is a function literal with the scope it was evaluated in.

Main definitions:

* `Record`, `Closure`, `Value`;
* `Value.typeName`, the name that type checks compare;
* `Value.get`, reading a field;
* `Value.text` and `Value.printed`, a value as text.
-/

namespace StructScript

/-- The name of a scope in a store. -/
structure ScopeId where
  index : Nat
  deriving DecidableEq, Repr

/-- A function literal with the scope it was evaluated in. -/
structure Closure where
  definition : Ast.FuncDef
  scope : ScopeId

namespace Closure

/-- How many arguments the function takes. -/
def arity (f : Closure) : Nat := f.definition.params.length

/-- Functions are equal when they share the function literal and the scope. -/
instance : BEq Closure := ⟨fun f g => f.definition.sameAs g.definition && f.scope == g.scope⟩

end Closure

/-- An instance of a struct type, with fields in `α`. -/
structure Record (α : Type) where
  /-- The type as it was written. -/
  type : TypeName
  /-- What each parameter of the type stands for. -/
  params : NameMap TypeName
  /-- The types of all fields. -/
  fieldTypes : NameMap TypeName
  /-- The fields that have been given. -/
  fields : List (String × α)

/-- What an expression evaluates to. -/
inductive Value where
  | int (n : Int64)
  | float (x : Float)
  | bool (b : Bool)
  | str (s : String)
  | nil
  | struct (record : Record Value)
  | func (closure : Closure)

namespace Value

/-- The name of a value's kind. -/
def kindName : Value → String
  | int _ => "int"
  | float _ => "float"
  | bool _ => "bool"
  | str _ => "string"
  | nil => "nil"
  | struct _ => "struct"
  | func _ => "func"

/-- The name that type checks compare: that of the struct type, or of the kind. -/
def typeName : Value → String
  | struct record => record.type.name
  | v => v.kindName

/-- Read a field of a value that is neither a struct nor a function: the value itself, the name of
its type, or its length. A string with more characters than the largest integer has that length. -/
def getPrimitive (v : Value) (field : String) : Value :=
  if field = "v" then v
  else if field = "name" then str v.typeName
  else if field = "len" then
    match v with
    | str s => int (Int64.ofInt (min s.length Int64.maxValue.toInt))
    | _ => int 0
  else nil

/-- Read a field. One that is absent reads as nil. -/
def get (v : Value) (field : String) : Value :=
  match v with
  | struct record => (NameMap.find? record.fields field).getD nil
  | func _ => nil
  | v => v.getPrimitive field

mutual

/-- A value as it is shown, with strings in quotes. -/
def text : Value → String
  | int n => toString n.toInt
  | float x => Decimal.floatText x
  | bool true => "true"
  | bool false => "false"
  | str s => Quoted.text s
  | nil => "nil"
  | struct ⟨type, _, _, fields⟩ =>
    type.text ++ "\x7b" ++ ", ".intercalate (fieldTexts fields) ++ "\x7d"
  | func f => f.definition.signature

/-- The fields of a struct value in turn. -/
def fieldTexts : List (String × Value) → List String
  | [] => []
  | (name, v) :: rest => (name ++ ": " ++ v.text) :: fieldTexts rest

end

/-- Fields are shown one by one, each after its name. -/
theorem fieldTexts_eq (fields : List (String × Value)) :
    fieldTexts fields = fields.map fun field => field.1 ++ ": " ++ field.2.text := by
  induction fields with
  | nil => rfl
  | cons field rest ih => exact congrArg (_ :: ·) ih

/-- A struct is shown as its type with its fields in braces. -/
theorem text_struct (record : Record Value) : (struct record).text =
    record.type.text ++ "\x7b" ++
      ", ".intercalate (record.fields.map fun field => field.1 ++ ": " ++ field.2.text) ++
        "\x7d" := by
  obtain ⟨type, params, fieldTypes, fields⟩ := record
  rw [text, fieldTexts_eq]

/-- A value as programs print it: a string as it is. -/
def printed : Value → String
  | str s => s
  | v => v.text

/-- Whether two maps from names to types have the same entries. -/
def sameTypes : List (String × TypeName) → List (String × TypeName) → Bool
  | [], [] => true
  | (name, type) :: rest, (name', type') :: rest' =>
    name == name' && type == type' && sameTypes rest rest'
  | _, _ => false

mutual

/-- Whether two values are equal: floats as numbers, so that a NaN differs from itself, structs with
their types, functions by their literal and scope. -/
def beq : Value → Value → Bool
  | int a, int b => a == b
  | float a, float b => a == b
  | bool a, bool b => a == b
  | str a, str b => a == b
  | nil, nil => true
  | struct ⟨type, params, fieldTypes, fields⟩, struct ⟨type', params', fieldTypes', fields'⟩ =>
    type == type' && sameTypes params params' && sameTypes fieldTypes fieldTypes' &&
      beqFields fields fields'
  | func f, func g => f == g
  | _, _ => false

/-- Whether two maps from names to values have the same names bound to equal values. -/
def beqFields : List (String × Value) → List (String × Value) → Bool
  | [], [] => true
  | (name, v) :: rest, (name', v') :: rest' =>
    name == name' && beq v v' && beqFields rest rest'
  | _, _ => false

end

instance : BEq Value := ⟨beq⟩

end Value

end StructScript
