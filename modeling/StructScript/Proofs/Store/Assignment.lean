import StructScript.Evaluation.Place
import StructScript.Proofs.Store.Scopes

/-!
# What an assignment does

An assignment to a place that succeeds binds the root anew where it is bound, to its old value with
the field at the end of the path replaced; a place without fields is the case of an empty path
(`Store.exists_of_assignPlace`). The new value of the root is of the type of the old one.
-/

namespace StructScript.Store

variable {s t : Store} {scope id other : ScopeId} {name : String} {v : Value}

/-- The value of a variable is the one of the scope that binds it. -/
theorem lookupVariable_eq (s : Store) (id : ScopeId) (name : String) :
    s.lookupVariable id name = (s.binder? id name).map (·.2) := by
  unfold lookupVariable binder?
  rw [List.map_findSome?]
  refine congrArg (List.findSome? · _) (funext fun scope => ?_)
  rw [Function.comp_apply, Option.map_map]
  exact Option.map_id'.symm

/-- The scope that binds a variable binds it to its value. -/
theorem find?_vars_of_binder? (h : s.binder? id name = some (other, v)) :
    (s.vars other).find? name = some v := by
  obtain ⟨binder, -, hfind⟩ := List.exists_of_findSome?_eq_some h
  obtain ⟨value, hvalue, heq⟩ := Option.map_eq_some_iff.mp hfind
  cases heq
  exact hvalue

/-- What a scope binds after a variable has been bound. -/
theorem cases_of_find?_defineVariable {key : String} {w : Value}
    (h : ((s.defineVariable id name v).vars other).find? key = some w) :
    other = id ∧ key = name ∧ w = v ∨ (s.vars other).find? key = some w := by
  unfold vars at h ⊢
  rw [scope?_defineVariable] at h
  by_cases hid : other = id
  · subst hid
    rw [if_pos rfl] at h
    rcases hscope : s.scope? other with _ | scope
    · rw [hscope] at h
      cases h
    · rw [hscope] at h
      by_cases hkey : key = name
      · subst hkey
        refine .inl ⟨rfl, rfl, ?_⟩
        change NameMap.find? (NameMap.insert key v scope.vars) key = some w at h
        rw [NameMap.find?_insert_self] at h
        exact (Option.some.inj h).symm
      · change NameMap.find? (NameMap.insert name v scope.vars) key = some w at h
        rw [NameMap.find?_insert_of_ne hkey] at h
        exact .inr h
  · rw [if_neg hid] at h
    exact .inr h

/-- A variable that is assigned had a binder, with a value of a type of the same name. -/
theorem exists_of_assignRoot {root : Ast.Ident} (h : s.assignRoot scope root v = .ok t) :
    ∃ binder old, s.binder? scope root.name = some (binder, old) ∧ old.typeName = v.typeName ∧
      t = s.defineVariable binder root.name v := by
  unfold assignRoot at h
  split at h
  · rename_i s' hassign
    cases h
    exact exists_of_assign hassign
  · cases h
  · cases h

/-- An assignment to a place gives its root another value, of the same type. -/
theorem exists_of_assignPlace {target : Ast.Place} (h : s.assignPlace scope target v = .ok t) :
    ∃ binder old new, s.binder? scope target.root.name = some (binder, old) ∧
      old.setPath target.path v = .ok new ∧ old.typeName = new.typeName ∧
        t = s.defineVariable binder target.root.name new := by
  unfold assignPlace at h
  split at h
  · rename_i name
    obtain ⟨binder, old, hbinder, htype, ht⟩ := exists_of_assignRoot h
    exact ⟨binder, old, v, hbinder, by rw [Ast.Place.path, Value.setPath], htype, ht⟩
  · split at h
    · cases h
    · rename_i current hcurrent
      split at h
      · cases h
      · rename_i new hnew
        obtain ⟨binder, old, hbinder, htype, ht⟩ := exists_of_assignRoot h
        rw [lookupVariable_eq, hbinder] at hcurrent
        cases hcurrent
        exact ⟨binder, old, new, hbinder, hnew, htype, ht⟩

end StructScript.Store
