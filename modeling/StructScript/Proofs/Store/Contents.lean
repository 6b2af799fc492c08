import StructScript.Proofs.Store.Scopes

/-!
# What all scopes hold

A property of values and one of types hold throughout a store (`Store.Every`) if they hold of all
that its scopes bind. They go on to hold when scopes are added and when such values and types are
bound, and they hold of what is read through any chain.
-/

namespace StructScript.Store

/-- All variables are bound to such values, and all types under names that go with them. -/
def Every (value : Value → Prop) (type : String → StructType → Prop) (s : Store) : Prop :=
  ∀ id scope, s.scope? id = some scope →
    (∀ entry ∈ scope.vars, value entry.2) ∧ ∀ entry ∈ scope.types, type entry.1 entry.2

namespace Every

variable {value : Value → Prop} {type : String → StructType → Prop} {s : Store}

/-- A store without scopes has no entries. -/
theorem empty (value : Value → Prop) (type : String → StructType → Prop) :
    Store.empty.Every value type := by
  intro id scope hscope
  simp [Store.scope?, Store.empty] at hscope

/-- A new scope has no entries. -/
theorem add (h : s.Every value type) (parent : Option ScopeId) :
    (s.add parent).2.Every value type := by
  intro id scope hscope
  rw [scope?_add] at hscope
  split at hscope
  · cases hscope
    exact ⟨nofun, nofun⟩
  · exact h id scope hscope

/-- A variable may be defined with a value that has the property. -/
theorem defineVariable (h : s.Every value type) (id : ScopeId) (name : String) {v : Value}
    (hv : value v) : (s.defineVariable id name v).Every value type := by
  intro other scope hscope
  rw [scope?_defineVariable] at hscope
  split at hscope
  · obtain ⟨before, hbefore, rfl⟩ := Option.map_eq_some_iff.mp hscope
    obtain ⟨hvars, htypes⟩ := h id before hbefore
    refine ⟨fun entry hentry => ?_, htypes⟩
    rcases NameMap.mem_insert hentry with rfl | hentry
    · exact hv
    · exact hvars entry hentry
  · exact h other scope hscope

/-- A type that has the property may be defined. -/
theorem defineType (h : s.Every value type) (id : ScopeId) {name : String} {t : StructType}
    (ht : type name t) : (s.defineType id name t).Every value type := by
  intro other scope hscope
  rw [scope?_defineType] at hscope
  split at hscope
  · obtain ⟨before, hbefore, rfl⟩ := Option.map_eq_some_iff.mp hscope
    obtain ⟨hvars, htypes⟩ := h id before hbefore
    refine ⟨hvars, fun entry hentry => ?_⟩
    rcases NameMap.mem_insert hentry with rfl | hentry
    · exact ht
    · exact htypes entry hentry
  · exact h other scope hscope

/-- The value of a variable that is found has the property. -/
theorem lookupVariable (h : s.Every value type) {id : ScopeId} {name : String} {v : Value}
    (hv : s.lookupVariable id name = some v) : value v := by
  obtain ⟨binder, -, scope, hscope, hfind⟩ := exists_of_lookupVariable hv
  exact (h binder scope hscope).1 _ (NameMap.mem_of_find? hfind)

/-- So has one that is found with its scope. -/
theorem binder? (h : s.Every value type) {id other : ScopeId} {name : String} {v : Value}
    (hv : s.binder? id name = some (other, v)) : value v := by
  obtain ⟨-, scope, hscope, hfind⟩ := exists_of_binder? hv
  exact (h other scope hscope).1 _ (NameMap.mem_of_find? hfind)

/-- A type that is found has the property. -/
theorem lookupType (h : s.Every value type) {id : ScopeId} {name : String} {t : StructType}
    (ht : s.lookupType id name = some t) : type name t := by
  obtain ⟨binder, scope, hscope, hfind⟩ := exists_of_lookupType ht
  exact (h binder scope hscope).2 _ (NameMap.mem_of_find? hfind)

end Every

end StructScript.Store
