import StructScript.Proofs.Store.Assignment

/-!
# What is read after a binding

Binding a variable or a type changes one entry of one scope. It leaves the chains of all scopes as
they are, so it can be told for each scope and each name what is read there afterwards. Two bindings
may be made in any order, unless they are of the same name in the same scope, where only the later
one counts.
-/

namespace StructScript

namespace NameMap

variable {α : Type}

/-- Of two values that are bound to a name the later counts. -/
theorem insert_insert_self (name : String) (a b : α) (m : NameMap α) :
    insert name a (insert name b m) = insert name a m := by
  induction m with
  | nil => simp [insert]
  | cons entry rest ih =>
      obtain ⟨key, c⟩ := entry
      by_cases hlt : name < key
      · simp [insert, hlt]
      · by_cases heq : name = key
        · subst heq
          simp [insert]
        · simp [insert, hlt, heq, ih]

/-- Two names may be bound in any order, the lesser one given. -/
theorem insert_comm_of_lt {name other : String} (h : name < other) (a b : α) (m : NameMap α) :
    insert name a (insert other b m) = insert other b (insert name a m) := by
  have hne : other ≠ name := fun heq => String.lt_irrefl name (heq ▸ h)
  have hge : ¬ other < name := String.lt_asymm h
  induction m with
  | nil => simp [insert, h, hge, hne]
  | cons entry rest ih =>
      obtain ⟨key, c⟩ := entry
      -- where each of the two names stands against that of the first entry
      by_cases hother : other < key
      · have hname : name < key := String.lt_trans h hother
        simp [insert, hother, hname, h, hge, hne]
      · by_cases hkey : other = key
        · subst hkey
          simp [insert, h, hge, hne]
        · by_cases hname : name < key
          · simp [insert, hother, hkey, hname, hge, hne]
          · by_cases hkey' : name = key
            · subst hkey'
              simp [insert, hge, hne]
            · simp [insert, hother, hkey, hname, hkey', ih]

/-- Two names may be bound in any order. -/
theorem insert_comm {name other : String} (h : name ≠ other) (a b : α) (m : NameMap α) :
    insert name a (insert other b m) = insert other b (insert name a m) := by
  by_cases hlt : name < other
  · exact insert_comm_of_lt hlt a b m
  · have hle : other ≤ name := String.not_lt.mp hlt
    have hlt' : other < name := Decidable.byContradiction fun hge =>
      h (String.le_antisymm (String.not_lt.mp hge) hle)
    exact (insert_comm_of_lt hlt' b a m).symm

end NameMap

namespace Store

variable {s : Store} {id other : ScopeId} {name key : String} {f g : Scope → Scope}

/-! ### Changing one scope -/

/-- A change that keeps the parents keeps the way up. -/
theorem chainUpTo_modifyScope (hf : ∀ scope, (f scope).parent = scope.parent) (s : Store)
    (id : ScopeId) (n : Nat) (other : ScopeId) :
    (s.modifyScope id f).chainUpTo n other = s.chainUpTo n other := by
  induction n generalizing other with
  | zero => rfl
  | succ n ih =>
      simp only [chainUpTo, scope?_modifyScope, ih]
      by_cases hother : other = id
      · subst hother
        rw [if_pos rfl]
        cases s.scope? other with
        | none => rfl
        | some scope => simp only [Option.map_some, hf]
      · rw [if_neg hother]

/-- A scope that keeps its parent keeps its chain, and those of all others. -/
theorem chain_modifyScope (hf : ∀ scope, (f scope).parent = scope.parent) (s : Store)
    (id other : ScopeId) : (s.modifyScope id f).chain other = s.chain other :=
  chainUpTo_modifyScope hf s id _ other

/-- A change of one scope leaves the variables of the others. -/
theorem vars_modifyScope (s : Store) (id other : ScopeId) (f : Scope → Scope) :
    (s.modifyScope id f).vars other =
      if other = id then ((s.scope? id).map f).elim [] Scope.vars else s.vars other := by
  simp only [vars, scope?_modifyScope]
  by_cases hother : other = id
  · rw [if_pos hother, if_pos hother]
    cases s.scope? id <;> rfl
  · rw [if_neg hother, if_neg hother]

/-- A change of one scope leaves the types of the others. -/
theorem types_modifyScope (s : Store) (id other : ScopeId) (f : Scope → Scope) :
    (s.modifyScope id f).types other =
      if other = id then ((s.scope? id).map f).elim [] Scope.types else s.types other := by
  simp only [types, scope?_modifyScope]
  by_cases hother : other = id
  · rw [if_pos hother, if_pos hother]
    cases s.scope? id <;> rfl
  · rw [if_neg hother, if_neg hother]

/-- Two changes may be made in any order, if they may in one scope. -/
theorem modifyScope_comm (h : id = other → ∀ scope, f (g scope) = g (f scope)) (s : Store) :
    (s.modifyScope id f).modifyScope other g = (s.modifyScope other g).modifyScope id f := by
  refine ext_scope? fun place => ?_
  simp only [scope?_modifyScope]
  by_cases hplace : place = other
  · subst hplace
    by_cases hid : place = id
    · subst hid
      simp only [if_true, Option.map_map]
      exact congrArg (Option.map · _) (funext fun scope => (h rfl scope).symm)
    · simp only [if_true, if_neg hid]
  · by_cases hid : place = id
    · subst hid
      simp only [if_true, if_neg hplace]
    · simp only [if_neg hplace, if_neg hid]

/-- A change of a scope may be made before a scope is added, or after. -/
theorem modifyScope_add (hid : id.index < s.scopes.size) (parent : Option ScopeId) :
    (s.modifyScope id f).add parent = ((s.add parent).1, (s.add parent).2.modifyScope id f) := by
  have hsize : (s.modifyScope id f).scopes.size = s.scopes.size := Array.size_modify
  refine Prod.ext (congrArg ScopeId.mk hsize) (ext_scope? fun other => ?_)
  simp only [scope?_add, scope?_modifyScope, hsize]
  have hne : id.index ≠ s.scopes.size := Nat.ne_of_lt hid
  by_cases hother : other.index = s.scopes.size
  · have hother' : other ≠ id := fun heq => hne (heq ▸ hother)
    simp only [if_pos hother, if_neg hother']
  · simp only [if_neg hother, if_neg hne]

/-- A new scope binds nothing, as if it had not been made. -/
theorem vars_add (s : Store) (parent : Option ScopeId) (id : ScopeId) :
    (s.add parent).2.vars id = s.vars id := by
  rw [vars, vars, scope?_add]
  by_cases hid : id.index = s.scopes.size
  · have hnone : s.scope? id = none := Array.getElem?_eq_none (Nat.le_of_eq hid.symm)
    rw [if_pos hid, hnone]
  · rw [if_neg hid]

/-! ### Binding variables and types -/

section

variable (s : Store) (id other : ScopeId) (name key : String) (v : Value) (type : StructType)

/-- Defining a variable keeps what scopes are visible. -/
@[simp] theorem chain_defineVariable : (s.defineVariable id name v).chain other = s.chain other := by
  rw [defineVariable, chain_modifyScope]
  exact fun _ => rfl

/-- So does defining a type. -/
@[simp] theorem chain_defineType : (s.defineType id name type).chain other = s.chain other := by
  rw [defineType, chain_modifyScope]
  exact fun _ => rfl

/-- Defining a variable leaves all types. -/
@[simp] theorem types_defineVariable : (s.defineVariable id name v).types other = s.types other := by
  rw [defineVariable, types_modifyScope]
  split
  · rename_i heq
    subst heq
    rw [types]
    cases s.scope? other <;> rfl
  · rfl

/-- Defining a type leaves all variables. -/
@[simp] theorem vars_defineType : (s.defineType id name type).vars other = s.vars other := by
  rw [defineType, vars_modifyScope]
  split
  · rename_i heq
    subst heq
    rw [vars]
    cases s.scope? other <;> rfl
  · rfl

/-- Types are not affected by variables. -/
@[simp] theorem lookupType_defineVariable :
    (s.defineVariable id name v).lookupType other key = s.lookupType other key := by
  simp only [lookupType, chain_defineVariable, types_defineVariable]

/-- Variables are not affected by types. -/
@[simp] theorem lookupVariable_defineType :
    (s.defineType id name type).lookupVariable other key = s.lookupVariable other key := by
  simp only [lookupVariable, chain_defineType, vars_defineType]

/-- Variables are found where they were found before a type was defined. -/
@[simp] theorem binder?_defineType :
    (s.defineType id name type).binder? other key = s.binder? other key := by
  simp only [binder?, chain_defineType, vars_defineType]

end

/-- What a scope binds of a name, after another name has been bound or another scope has been
changed. -/
theorem find?_vars_defineVariable_of_ne (h : other = id → key ≠ name) (s : Store) (v : Value) :
    ((s.defineVariable id name v).vars other).find? key = (s.vars other).find? key := by
  rw [defineVariable, vars_modifyScope]
  split
  · rename_i heq
    subst heq
    rw [vars]
    cases s.scope? other with
    | none => rfl
    | some scope => exact NameMap.find?_insert_of_ne (h rfl) v scope.vars
  · rfl

/-- A variable that has been defined has its value. -/
theorem find?_vars_defineVariable_self (h : id.index < s.scopes.size) (name : String) (v : Value) :
    ((s.defineVariable id name v).vars id).find? name = some v := by
  have hscope : s.scope? id = some s.scopes[id.index] := Array.getElem?_eq_getElem h
  rw [defineVariable, vars_modifyScope, if_pos rfl, hscope]
  exact NameMap.find?_insert_self name v _

/-- Types by other names stay as they are. -/
theorem find?_types_defineType_of_ne (h : key ≠ name) (s : Store) (id other : ScopeId)
    (type : StructType) :
    ((s.defineType id name type).types other).find? key = (s.types other).find? key := by
  rw [defineType, types_modifyScope]
  split
  · rename_i heq
    subst heq
    rw [types]
    cases s.scope? other with
    | none => rfl
    | some scope => exact NameMap.find?_insert_of_ne h type scope.types
  · rfl

/-- Variables by other names are found where they were. -/
theorem binder?_defineVariable_of_ne (h : key ≠ name) (s : Store) (id other : ScopeId) (v : Value) :
    (s.defineVariable id name v).binder? other key = s.binder? other key := by
  simp only [binder?, chain_defineVariable, find?_vars_defineVariable_of_ne fun _ => h]

/-- A variable of another name has the value that it had. -/
theorem lookupVariable_defineVariable_of_ne (h : key ≠ name) (s : Store) (id other : ScopeId)
    (v : Value) :
    (s.defineVariable id name v).lookupVariable other key = s.lookupVariable other key := by
  rw [lookupVariable_eq, lookupVariable_eq, binder?_defineVariable_of_ne h]

/-- Types by other names are found where they were. -/
theorem lookupType_defineType_of_ne (h : key ≠ name) (s : Store) (id other : ScopeId)
    (type : StructType) :
    (s.defineType id name type).lookupType other key = s.lookupType other key := by
  simp only [lookupType, chain_defineType, find?_types_defineType_of_ne h]

/-- A variable that is bound anew where it is bound already is bound by the same scope as before, for
every chain. -/
theorem binder?_defineVariable_of_bound {old : Value} (h : (s.vars id).find? name = some old)
    (v : Value) (other : ScopeId) :
    (s.defineVariable id name v).binder? other name =
      (s.binder? other name).map fun b => (b.1, if b.1 = id then v else b.2) := by
  obtain ⟨scope, hscope, -⟩ := exists_of_find?_vars h
  have hsize := lt_size_of_scope? hscope
  simp only [binder?, chain_defineVariable, List.map_findSome?]
  refine congrArg (List.findSome? · _) (funext fun place => ?_)
  rw [Function.comp_apply, Option.map_map]
  by_cases hplace : place = id
  · subst hplace
    rw [find?_vars_defineVariable_self hsize, h]
    simp
  · rw [find?_vars_defineVariable_of_ne fun heq => absurd heq hplace]
    refine congrArg (Option.map · _) (funext fun w => ?_)
    simp [hplace]

/-- Of two values that are bound to a variable of a scope the later counts. -/
theorem defineVariable_defineVariable_self (s : Store) (id : ScopeId) (name : String)
    (v w : Value) :
    (s.defineVariable id name v).defineVariable id name w = s.defineVariable id name w := by
  refine ext_scope? fun other => ?_
  simp only [scope?_defineVariable]
  by_cases hother : other = id
  · simp only [if_pos hother, if_true, Option.map_map]
    refine congrArg (Option.map · _) (funext fun scope => ?_)
    exact congrArg (Scope.mk scope.types · scope.parent) (NameMap.insert_insert_self name w v _)
  · simp only [if_neg hother]

end Store

end StructScript
