import StructScript.Proofs.Evaluation.Discipline

/-!
# The code that a machine holds

What a machine can come to run is the code that it is given and the code of the functions in its
store (`Store.Runs`). A set of pieces is named by a predicate; that all functions of a value, or of
a store, belong to it is `Value.CodeIn` and `Store.CodeIn`. Reading, binding and assigning lead to
no other functions than those that are there.
-/

namespace StructScript

/-- The value holds the function, at any depth. -/
inductive Value.Contains : Value → Closure → Prop where
  | func (f : Closure) : Contains (.func f) f
  | field {record : Record Value} {entry : String × Value} {f : Closure}
      (hentry : entry ∈ record.fields) (h : entry.2.Contains f) : Contains (.struct record) f

/-- Some variable of the store holds the function. -/
def Store.Contains (s : Store) (f : Closure) : Prop :=
  ∃ id scope, s.scope? id = some scope ∧ ∃ entry ∈ scope.vars, entry.2.Contains f

/-- The code that can come to run where `given` does: the given pieces and the functions in the
store, with all that stands in them. -/
def Store.Runs (s : Store) (given : Ast.Part → Prop) (part : Ast.Part) : Prop :=
  ∃ whole, (given whole ∨ ∃ f, s.Contains f ∧ whole = .func f.definition) ∧ part.In whole

variable {code : Ast.Part → Prop}

/-! ### Values of some code -/

/-- All functions in the value belong to the code. -/
def Value.CodeIn (code : Ast.Part → Prop) (v : Value) : Prop :=
  ∀ f, v.Contains f → code (.func f.definition)

namespace Value

/-- A value without parts holds no functions. -/
theorem Plain.codeIn {v : Value} (hv : v.Plain) : v.CodeIn code := by
  intro f h
  cases h with
  | func => exact hv.elim
  | field => exact hv.elim

/-- A function value holds one function. -/
theorem codeIn_func_iff {f : Closure} : (func f).CodeIn code ↔ code (.func f.definition) := by
  constructor
  · exact fun h => h f (.func f)
  · intro h g hg
    cases hg
    exact h

/-- A struct value holds the functions of its fields. -/
theorem codeIn_struct_iff {record : Record Value} :
    (struct record).CodeIn code ↔ ∀ entry ∈ record.fields, entry.2.CodeIn code := by
  constructor
  · exact fun h entry hentry f hf => h f (.field hentry hf)
  · intro h f hf
    cases hf with
    | field hentry hf => exact h _ hentry f hf

/-- The pseudo-fields of a plain value are plain. -/
theorem Plain.getPrimitive {v : Value} (hv : v.Plain) (field : String) :
    (v.getPrimitive field).Plain := by
  unfold Value.getPrimitive
  repeat' split
  all_goals first
    | exact hv
    | trivial

/-- A field of a value holds no other functions than the value. -/
theorem CodeIn.get {v : Value} (hv : v.CodeIn code) (field : String) :
    (v.get field).CodeIn code := by
  have hplain : ∀ w : Value, w.Plain → (w.getPrimitive field).CodeIn code :=
    fun w hw => (hw.getPrimitive field).codeIn
  cases v with
  | struct record =>
      rcases h : NameMap.find? record.fields field with _ | w
      · simpa [Value.get, h] using Plain.codeIn (v := .nil) trivial
      · simpa [Value.get, h] using codeIn_struct_iff.mp hv _ (NameMap.mem_of_find? h)
  | func f => exact Plain.codeIn (v := .nil) trivial
  | _ => exact hplain _ trivial

/-- Binding a field to a value of the code. -/
theorem CodeIn.insert {record : Record Value} (hrecord : (struct record).CodeIn code)
    {v : Value} (hv : v.CodeIn code) (name : String) :
    (struct { record with fields := NameMap.insert name v record.fields }).CodeIn code := by
  refine codeIn_struct_iff.mpr fun entry hentry => ?_
  rcases NameMap.mem_insert hentry with rfl | hentry
  · exact hv
  · exact codeIn_struct_iff.mp hrecord entry hentry

/-- Replacing a field at the end of a path. -/
theorem CodeIn.setPath {v : Value} (hv : v.CodeIn code) (path : List Ast.Ident)
    {target new : Value} (htarget : target.CodeIn code)
    (hset : target.setPath path v = .ok new) : new.CodeIn code := by
  induction path generalizing target new with
  | nil =>
      cases hset
      exact hv
  | cons field rest ih =>
      unfold Value.setPath at hset
      split at hset
      · rename_i record
        split at hset
        · repeat' split at hset
          all_goals cases hset
          exact htarget.insert hv field.name
        · rename_i next rest
          split at hset
          · cases hset
          · rename_i inner hinner
            cases hset
            exact htarget.insert (ih (htarget.get field.name) hinner) field.name
      · cases hset

end Value

/-! ### Stores of some code -/

/-- All functions in the store belong to the code. -/
def Store.CodeIn (code : Ast.Part → Prop) (s : Store) : Prop :=
  ∀ f, s.Contains f → code (.func f.definition)

namespace Store.CodeIn

variable {s : Store}

/-- A variable that is found holds functions of the code. -/
theorem lookupVariable (h : s.CodeIn code) {id : ScopeId} {name : String} {v : Value}
    (hv : s.lookupVariable id name = some v) : v.CodeIn code := by
  obtain ⟨binder, -, scope, hscope, hfind⟩ := exists_of_lookupVariable hv
  exact fun f hf => h f ⟨binder, scope, hscope, _, NameMap.mem_of_find? hfind, hf⟩

/-- A value of the code may be defined. -/
theorem defineVariable (h : s.CodeIn code) {v : Value} (hv : v.CodeIn code) (id : ScopeId)
    (name : String) : (s.defineVariable id name v).CodeIn code := by
  rintro f ⟨other, scope, hscope, entry, hentry, hf⟩
  rw [scope?_defineVariable] at hscope
  split at hscope
  · obtain ⟨before, hbefore, rfl⟩ := Option.map_eq_some_iff.mp hscope
    rcases NameMap.mem_insert hentry with rfl | hentry
    · exact hv f hf
    · exact h f ⟨id, before, hbefore, entry, hentry, hf⟩
  · exact h f ⟨other, scope, hscope, entry, hentry, hf⟩

/-- Types hold no functions. -/
theorem defineType (h : s.CodeIn code) (id : ScopeId) (name : String) (type : StructType) :
    (s.defineType id name type).CodeIn code := by
  rintro f ⟨other, scope, hscope, entry, hentry, hf⟩
  rw [scope?_defineType] at hscope
  split at hscope
  · obtain ⟨before, hbefore, rfl⟩ := Option.map_eq_some_iff.mp hscope
    exact h f ⟨id, before, hbefore, entry, hentry, hf⟩
  · exact h f ⟨other, scope, hscope, entry, hentry, hf⟩

/-- Nor does a new scope. -/
theorem addChild (h : s.CodeIn code) (parent : ScopeId) : (s.addChild parent).2.CodeIn code := by
  rintro f ⟨other, scope, hscope, entry, hentry, hf⟩
  rw [Store.addChild, scope?_add] at hscope
  split at hscope
  · cases hscope
    cases hentry
  · exact h f ⟨other, scope, hscope, entry, hentry, hf⟩

/-- Binding several variables in turn. -/
theorem defineAll (h : s.CodeIn code) (id : ScopeId) {bindings : List (String × Value)}
    (hb : ∀ b ∈ bindings, b.2.CodeIn code) :
    (bindings.foldl (fun s b => s.defineVariable id b.1 b.2) s).CodeIn code := by
  induction bindings generalizing s with
  | nil => exact h
  | cons b rest ih =>
      have hfirst := h.defineVariable (hb b List.mem_cons_self) id b.1
      exact ih hfirst fun c hc => hb c (List.mem_cons_of_mem _ hc)

/-- A value of the code may be assigned to a variable. -/
theorem assignRoot (h : s.CodeIn code) {t : Store} {scope : ScopeId} {root : Ast.Ident} {v : Value}
    (hv : v.CodeIn code) (hassign : s.assignRoot scope root v = .ok t) : t.CodeIn code := by
  unfold Store.assignRoot at hassign
  split at hassign
  · rename_i s' hs'
    obtain ⟨binder, old, -, -, rfl⟩ := exists_of_assign hs'
    cases hassign
    exact h.defineVariable hv binder root.name
  · cases hassign
  · cases hassign

/-- A value of the code may be assigned to a place. -/
theorem assignPlace (h : s.CodeIn code) {t : Store} {scope : ScopeId} {target : Ast.Place}
    {v : Value} (hv : v.CodeIn code) (hassign : s.assignPlace scope target v = .ok t) :
    t.CodeIn code := by
  unfold Store.assignPlace at hassign
  split at hassign
  · exact h.assignRoot hv hassign
  · split at hassign
    · cases hassign
    · rename_i current hcurrent
      split at hassign
      · cases hassign
      · rename_i new hnew
        exact h.assignRoot (hv.setPath _ (h.lookupVariable hcurrent) hnew) hassign

end Store.CodeIn

end StructScript
