import StructScript.Value

/-!
# Stores of scopes

A scope binds names to types and to variables, and may stand inside another scope, its parent. All
scopes that have been made are kept in a store and are named by their place in it; a parent is older
than the scopes inside it. The *chain* of a scope leads from it through its parents to a scope
without a parent. A name is looked up in the scopes of the chain in turn.

Main definitions:

* `Scope` and `Store`;
* `Store.chain`, `Store.depth`;
* `Store.lookupVariable`, `Store.lookupType`;
* `Store.defineVariable`, `Store.defineType`, `Store.assign`.
-/

namespace StructScript

/-- The bindings of one scope, and the scope around it. -/
structure Scope where
  types : NameMap StructType
  vars : NameMap Value
  parent : Option ScopeId

/-- All scopes that have been made. -/
structure Store where
  scopes : Array Scope

/-- Why a variable cannot be given another value. -/
inductive AssignError where
  /-- No scope of the chain binds the name. -/
  | undefined
  /-- The new value is of another type than the old one. -/
  | typeMismatch (expected found : String)
  deriving DecidableEq, Repr

namespace Store

/-- The store without scopes. -/
def empty : Store := ⟨#[]⟩

/-- The scope of this name, if there is one. -/
def scope? (s : Store) (id : ScopeId) : Option Scope := s.scopes[id.index]?

/-- Add a scope without bindings. -/
def add (s : Store) (parent : Option ScopeId) : ScopeId × Store :=
  (⟨s.scopes.size⟩, ⟨s.scopes.push ⟨[], [], parent⟩⟩)

/-- Add a scope without a parent. -/
def addRoot (s : Store) : ScopeId × Store := s.add none

/-- Add a scope inside another one. -/
def addChild (s : Store) (parent : ScopeId) : ScopeId × Store := s.add (some parent)

/-- Change one scope. -/
def modifyScope (s : Store) (id : ScopeId) (f : Scope → Scope) : Store :=
  ⟨s.scopes.modify id.index f⟩

/-- Bind a type in a scope, replacing a type of that name there. -/
def defineType (s : Store) (id : ScopeId) (name : String) (type : StructType) : Store :=
  s.modifyScope id (fun scope => { scope with types := scope.types.insert name type })

/-- Bind a variable in a scope, replacing a variable of that name there. -/
def defineVariable (s : Store) (id : ScopeId) (name : String) (v : Value) : Store :=
  s.modifyScope id (fun scope => { scope with vars := scope.vars.insert name v })

/-- The first scopes of the chain of a scope, at most `n`. -/
def chainUpTo (s : Store) : Nat → ScopeId → List ScopeId
  | 0, _ => []
  | n + 1, id =>
    match s.scope? id with
    | none => []
    | some scope =>
      match scope.parent with
      | none => [id]
      | some parent => id :: s.chainUpTo n parent

/-- The scope, its parent, and so on. A scope is younger than its parents, so its chain has no more
scopes than its place in the store allows. -/
def chain (s : Store) (id : ScopeId) : List ScopeId := s.chainUpTo (id.index + 1) id

/-- How many scopes there are from this one to the outermost one. -/
def depth (s : Store) (id : ScopeId) : Nat := (s.chain id).length

/-- The types that a scope itself binds. -/
def types (s : Store) (id : ScopeId) : NameMap StructType :=
  match s.scope? id with
  | some scope => scope.types
  | none => []

/-- The variables that a scope itself binds. -/
def vars (s : Store) (id : ScopeId) : NameMap Value :=
  match s.scope? id with
  | some scope => scope.vars
  | none => []

/-- The type of this name in the innermost scope that binds it. -/
def lookupType (s : Store) (id : ScopeId) (name : String) : Option StructType :=
  (s.chain id).findSome? (fun scope => (s.types scope).find? name)

/-- The value of the variable of this name in the innermost scope that binds it. -/
def lookupVariable (s : Store) (id : ScopeId) (name : String) : Option Value :=
  (s.chain id).findSome? (fun scope => (s.vars scope).find? name)

/-- The innermost scope that binds the variable, with its value. -/
def binder? (s : Store) (id : ScopeId) (name : String) : Option (ScopeId × Value) :=
  (s.chain id).findSome? (fun scope => ((s.vars scope).find? name).map (fun v => (scope, v)))

/-- Give a variable another value of the same type, in the innermost scope that binds it. -/
def assign (s : Store) (id : ScopeId) (name : String) (v : Value) : Except AssignError Store :=
  match s.binder? id name with
  | none => .error .undefined
  | some (scope, old) =>
    if old.typeName = v.typeName then .ok (s.defineVariable scope name v)
    else .error (.typeMismatch old.typeName v.typeName)

/-- What a scope binds, without the values: `has_parent` tells whether it stands inside another
scope. -/
def summary (s : Store) (id : ScopeId) : String :=
  let list (names : List String) := "[" ++ ", ".intercalate (names.map Quoted.text) ++ "]"
  let hasParent := match s.scope? id with
    | some scope => scope.parent.isSome
    | none => false
  "Environment \x7b variables: " ++ list (s.vars id).names ++ ", types: " ++
    list (s.types id).names ++ ", has_parent: " ++ toString hasParent ++ " \x7d"

end Store

end StructScript
