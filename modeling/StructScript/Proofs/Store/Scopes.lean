import StructScript.Store

/-!
# What the operations on a store do to its scopes

Every operation on a store is described by the scope that it leaves under each name
(`Store.scope?_add`, `Store.scope?_defineVariable`, `Store.scope?_defineType`), so that later
proofs need not look at the array of scopes. What is read through the chain of a scope lies in one
of the scopes of the chain (`Store.exists_of_lookupVariable`, `Store.exists_of_binder?`), and a set
of scopes that is closed under parents holds the whole chain of each of its members
(`Store.chain_subset`).
-/

namespace StructScript

namespace NameMap

variable {α : Type}

/-- What a map reads under a name is one of its entries. -/
theorem mem_of_find? {m : NameMap α} {name : String} {a : α} (h : m.find? name = some a) :
    (name, a) ∈ m := by
  induction m with
  | nil => cases h
  | cons entry rest ih =>
      obtain ⟨key, b⟩ := entry
      rw [find?_cons] at h
      split at h
      · rename_i hkey
        cases h
        exact hkey ▸ List.mem_cons_self
      · exact List.mem_cons_of_mem _ (ih h)

/-- A name is bound exactly when the map reads something under it. -/
theorem mem_names_iff {m : NameMap α} {name : String} :
    name ∈ m.names ↔ ∃ a, m.find? name = some a := by
  induction m with
  | nil => simp [names]
  | cons entry rest ih =>
      obtain ⟨key, b⟩ := entry
      rw [find?_cons]
      split
      · rename_i hkey
        simp [names, hkey]
      · rename_i hkey
        rw [← ih]
        simp [names, hkey]

/-- The entries of the map of a list of bindings are among the bindings. -/
theorem mem_of_mem_ofList {entry : String × α} {bindings : List (String × α)}
    (h : entry ∈ ofList bindings) : entry ∈ bindings := by
  have hfold (m : NameMap α) (h : entry ∈ bindings.foldl (fun m b => insert b.1 b.2 m) m) :
      entry ∈ m ∨ entry ∈ bindings := by
    clear ‹entry ∈ ofList bindings›
    induction bindings generalizing m with
    | nil => exact .inl h
    | cons b rest ih =>
        rcases ih _ h with hm | hrest
        · rcases mem_insert hm with rfl | hm
          · exact .inr List.mem_cons_self
          · exact .inl hm
        · exact .inr (List.mem_cons_of_mem _ hrest)
  exact (hfold [] h).resolve_left List.not_mem_nil

end NameMap

namespace Store

variable {s : Store} {id other : ScopeId} {name : String}

/-! ### The scope under each name -/

/-- Two stores with the same scopes are equal. -/
theorem ext_scope? {s t : Store} (h : ∀ id, s.scope? id = t.scope? id) : s = t := by
  obtain ⟨scopes⟩ := s
  obtain ⟨scopes'⟩ := t
  exact congrArg mk (Array.ext_getElem? fun i => h ⟨i⟩)

/-- Making a scope leaves all others as they are. -/
theorem scope?_add (s : Store) (parent : Option ScopeId) (id : ScopeId) :
    (s.add parent).2.scope? id =
      if id.index = s.scopes.size then some ⟨[], [], parent⟩ else s.scope? id := by
  simp only [scope?, add, Array.getElem?_push]

/-- Changing a scope leaves all others as they are. -/
theorem scope?_modifyScope (s : Store) (id other : ScopeId) (f : Scope → Scope) :
    (s.modifyScope id f).scope? other =
      if other = id then (s.scope? id).map f else s.scope? other := by
  obtain ⟨i⟩ := id
  obtain ⟨j⟩ := other
  simp only [scope?, modifyScope, Array.getElem?_modify, ScopeId.mk.injEq, eq_comm (a := i)]
  split
  · rename_i h
    rw [h]
  · rfl

/-- A scope more is one more. -/
@[simp] theorem size_add (s : Store) (parent : Option ScopeId) :
    (s.add parent).2.scopes.size = s.scopes.size + 1 := by
  simp [add]

/-- Defining a variable adds no scope. -/
@[simp] theorem size_defineVariable (s : Store) (id : ScopeId) (name : String) (v : Value) :
    (s.defineVariable id name v).scopes.size = s.scopes.size := by
  simp [defineVariable, modifyScope]

/-- Defining a type adds no scope. -/
@[simp] theorem size_defineType (s : Store) (id : ScopeId) (name : String) (type : StructType) :
    (s.defineType id name type).scopes.size = s.scopes.size := by
  simp [defineType, modifyScope]

/-- Binding a variable changes the variables of one scope. -/
theorem scope?_defineVariable (s : Store) (id other : ScopeId) (name : String) (v : Value) :
    (s.defineVariable id name v).scope? other =
      if other = id then
        (s.scope? id).map fun scope => { scope with vars := scope.vars.insert name v }
      else s.scope? other :=
  scope?_modifyScope s id other _

/-- Binding a type changes the types of one scope. -/
theorem scope?_defineType (s : Store) (id other : ScopeId) (name : String) (type : StructType) :
    (s.defineType id name type).scope? other =
      if other = id then
        (s.scope? id).map fun scope => { scope with types := scope.types.insert name type }
      else s.scope? other :=
  scope?_modifyScope s id other _

/-- The store with some variables defined in a scope, one after the other. -/
def defineAll (id : ScopeId) (bindings : List (String × Value)) (s : Store) : Store :=
  bindings.foldl (fun s b => s.defineVariable id b.1 b.2) s

/-- The scopes of a store are those below its size. -/
theorem lt_size_of_scope? {scope : Scope} (h : s.scope? id = some scope) :
    id.index < s.scopes.size :=
  (Array.getElem?_eq_some_iff.mp h).1

/-! ### What is read through a chain -/

/-- What a scope binds itself is read from the scope under its name. -/
theorem exists_of_find?_vars {v : Value} (h : (s.vars id).find? name = some v) :
    ∃ scope, s.scope? id = some scope ∧ scope.vars.find? name = some v := by
  unfold vars at h
  split at h
  · rename_i scope hscope
    exact ⟨scope, hscope, h⟩
  · cases h

/-- A set of scopes that is closed under parents holds the first scopes of the chain of a
member. -/
theorem chainUpTo_subset {p : ScopeId → Prop}
    (hparent : ∀ id scope parent, p id → s.scope? id = some scope → scope.parent = some parent →
      p parent) (n : Nat) (id : ScopeId) (hid : p id) : ∀ other ∈ s.chainUpTo n id, p other := by
  induction n generalizing id with
  | zero => simp [chainUpTo]
  | succ n ih =>
      intro other hother
      unfold chainUpTo at hother
      split at hother
      · cases hother
      · rename_i scope hscope
        split at hother
        · exact List.mem_singleton.mp hother ▸ hid
        · rename_i parent hp
          rcases List.mem_cons.mp hother with rfl | hother
          · exact hid
          · exact ih parent (hparent id scope parent hid hscope hp) other hother

/-- A set of scopes that is closed under parents holds the chain of a member. -/
theorem chain_subset {p : ScopeId → Prop}
    (hparent : ∀ id scope parent, p id → s.scope? id = some scope → scope.parent = some parent →
      p parent) (hid : p id) : ∀ other ∈ s.chain id, p other :=
  chainUpTo_subset hparent _ id hid

/-- The value of a variable is bound by a scope of the chain. -/
theorem exists_of_lookupVariable {v : Value} (h : s.lookupVariable id name = some v) :
    ∃ binder ∈ s.chain id, ∃ scope, s.scope? binder = some scope ∧
      scope.vars.find? name = some v := by
  obtain ⟨binder, hmem, hfind⟩ := List.exists_of_findSome?_eq_some h
  exact ⟨binder, hmem, exists_of_find?_vars hfind⟩

/-- A type that is found is bound by some scope. -/
theorem exists_of_lookupType {type : StructType} (h : s.lookupType id name = some type) :
    ∃ binder scope, s.scope? binder = some scope ∧ scope.types.find? name = some type := by
  obtain ⟨binder, -, hfind⟩ := List.exists_of_findSome?_eq_some h
  unfold types at hfind
  split at hfind
  · rename_i scope hscope
    exact ⟨binder, scope, hscope, hfind⟩
  · cases hfind

/-- The scope that binds a variable is one of the chain, and it binds the variable. -/
theorem exists_of_binder? {v : Value} (h : s.binder? id name = some (other, v)) :
    other ∈ s.chain id ∧ ∃ scope, s.scope? other = some scope ∧
      scope.vars.find? name = some v := by
  obtain ⟨binder, hmem, hfind⟩ := List.exists_of_findSome?_eq_some h
  obtain ⟨value, hvalue, heq⟩ := Option.map_eq_some_iff.mp hfind
  cases heq
  exact ⟨hmem, exists_of_find?_vars hvalue⟩

/-- An assignment that succeeds binds the variable anew where it is bound, to a value of the same
type. -/
theorem exists_of_assign {t : Store} {v : Value} (h : s.assign id name v = .ok t) :
    ∃ binder old, s.binder? id name = some (binder, old) ∧ old.typeName = v.typeName ∧
      t = s.defineVariable binder name v := by
  unfold assign at h
  split at h
  · cases h
  · rename_i binder old hbinder
    split at h
    · rename_i htype
      cases h
      exact ⟨binder, old, hbinder, htype, rfl⟩
    · cases h

end Store

end StructScript
