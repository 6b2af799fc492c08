import StructScript.Proofs.Evaluation.Code
import StructScript.Proofs.Evaluation.Frames
import StructScript.Proofs.Layout.Ast

/-!
# Relocating machines

Of all that a machine holds, only functions and running calls are relocated: a function keeps its
code with the number of its source text, a running call the place where it was made. So everything
that is read off values and stores commutes with relocation, and text does not change with it.
-/

namespace StructScript

variable (g : Relocation)

/-! ### Maps from names -/

namespace NameMap

variable {α : Type} [Relocatable α]

/-- What is found in a relocated map is what was found, relocated. -/
theorem find?_relocate (m : NameMap α) (name : String) :
    find? (relocate g m) name = relocate g (find? m name) := by
  induction m with
  | nil => rfl
  | cons entry rest ih =>
      obtain ⟨key, a⟩ := entry
      simp only [relocate_cons, relocate_pair, find?_cons, relocate_string, ih]
      split <;> rfl

/-- Which names a map binds does not depend on positions. -/
theorem contains_relocate (m : NameMap α) (name : String) :
    contains (relocate g m) name = contains m name := by
  rw [contains, find?_relocate, contains]
  cases find? m name <;> rfl

/-- Values can be bound before or after they are relocated. -/
theorem insert_relocate (name : String) (a : α) (m : NameMap α) :
    insert name (relocate g a) (relocate g m) = relocate g (insert name a m) := by
  induction m with
  | nil => rfl
  | cons entry rest ih =>
      obtain ⟨key, b⟩ := entry
      simp only [relocate_cons, relocate_pair, insert, relocate_string, ih]
      split
      · rfl
      · split <;> rfl

end NameMap

/-! ### The text of code -/

namespace Ast

mutual

/-- A type is written the same wherever it stands. -/
theorem TypeExpr.text_relocate : (type : TypeExpr) → (relocate g type).text = type.text
  | .mk name args span => by
      have hargs := TypeExpr.argTexts_relocate args
      have hempty : (relocate g args).isEmpty = args.isEmpty := List.isEmpty_map
      simp [text, hargs, hempty]

/-- So are the arguments of a type. -/
theorem TypeExpr.argTexts_relocate : (args : List TypeExpr) →
    text.argTexts (relocate g args) = text.argTexts args
  | [] => rfl
  | type :: rest => by
      have htype := TypeExpr.text_relocate type
      have hrest := TypeExpr.argTexts_relocate rest
      simp [text.argTexts, htype, hrest]

end

/-- A function is shown by its parameters and its result type, so the same wherever it stands and
whichever text it comes from. -/
theorem FuncDef.signature_relocate (f : FuncDef) : (relocate g f).signature = f.signature := by
  have hparams : (relocate g f.params).map (fun p => p.name.name ++ " " ++ p.type.text) =
      f.params.map fun p => p.name.name ++ " " ++ p.type.text := by
    have hparam (p : Param) : (relocate g p).name.name ++ " " ++ (relocate g p).type.text =
        p.name.name ++ " " ++ p.type.text := by
      obtain ⟨name, type⟩ := p
      simp [TypeExpr.text_relocate]
    simp only [relocate_list, List.map_map, Function.comp_def, hparam]
  simp only [signature, params_relocate, result_relocate, hparams]
  cases f.result with
  | none => rfl
  | some type => simp [TypeExpr.text_relocate]

end Ast

/-! ### Types -/

namespace TypeName

mutual

/-- The name of a type does not depend on where the type is written. -/
theorem ofExpr_relocate : (type : Ast.TypeExpr) → ofExpr (relocate g type) = ofExpr type
  | .mk name args span => by
      have hargs := ofExprs_relocate args
      simp [ofExpr, hargs]

/-- So it is for the arguments of a type. -/
theorem ofExprs_relocate : (args : List Ast.TypeExpr) →
    ofExpr.ofExprs (relocate g args) = ofExpr.ofExprs args
  | [] => rfl
  | type :: rest => by
      have htype := ofExpr_relocate type
      have hrest := ofExprs_relocate rest
      simp [ofExpr.ofExprs, htype, hrest]

end

end TypeName

/-- The type that a relocated definition declares. -/
theorem StructType.ofDefinition_relocate (name : String) (d : Ast.StructDef) :
    ofDefinition name (relocate g d) = ofDefinition name d := by
  obtain ⟨params, groups, span⟩ := d
  have hparams : (relocate g params).map (·.name) = params.map (·.name) := by
    simp [relocate_list, Function.comp_def]
  have hgroups : declaredFields (relocate g groups) = declaredFields groups := by
    have hgroup (f : Ast.FieldGroup) :
        (relocate g f).names.map (fun field => (field.name, TypeName.ofExpr (relocate g f).type)) =
          f.names.map fun field => (field.name, TypeName.ofExpr f.type) := by
      obtain ⟨names, type, span⟩ := f
      simp [relocate_list, Function.comp_def, TypeName.ofExpr_relocate]
    simp only [declaredFields, relocate_list, List.flatMap_map, hgroup]
  simp [ofDefinition, hparams, hgroups]

/-! ### Values -/

instance : Relocatable ScopeId := ⟨fun _ id => id⟩

instance : Relocatable Closure := ⟨fun g f => ⟨relocate g f.definition, f.scope⟩⟩

namespace Value

mutual

/-- A value with the code of its functions relocated. -/
def relocateCode : Value → Value
  | int n => int n
  | float x => float x
  | bool b => bool b
  | str s => str s
  | nil => nil
  | struct ⟨type, params, fieldTypes, fields⟩ =>
    struct ⟨type, params, fieldTypes, fieldsRelocated fields⟩
  | func f => func (relocate g f)

/-- The fields of a struct value in turn. -/
def fieldsRelocated : List (String × Value) → List (String × Value)
  | [] => []
  | (name, v) :: rest => (name, v.relocateCode) :: fieldsRelocated rest

end

instance : Relocatable Value := ⟨relocateCode⟩

instance : Relocatable (Record Value) := ⟨fun g r => { r with fields := relocate g r.fields }⟩

/-- The fields of a struct value are relocated as any map is. -/
theorem fieldsRelocated_eq (fields : List (String × Value)) :
    fieldsRelocated g fields = relocate g fields := by
  induction fields with
  | nil => rfl
  | cons field rest ih => exact congrArg (_ :: ·) ih

/-- A struct value is relocated in its fields. -/
@[simp] theorem relocate_struct (record : Record Value) :
    relocate g (struct record) = struct (relocate g record) := by
  obtain ⟨type, params, fieldTypes, fields⟩ := record
  change struct ⟨type, params, fieldTypes, fieldsRelocated g fields⟩ = _
  rw [fieldsRelocated_eq]
  rfl

/-- The type of a struct value holds no position. -/
@[simp] theorem type_relocate (record : Record Value) :
    (relocate g record).type = record.type := rfl

/-- Nor do the declared types of its fields. -/
@[simp] theorem fieldTypes_relocate (record : Record Value) :
    (relocate g record).fieldTypes = record.fieldTypes := rfl

/-- The fields of a relocated record. -/
@[simp] theorem fields_relocate (record : Record Value) :
    (relocate g record).fields = relocate g record.fields := rfl

/-- Binding a field of a relocated record. -/
theorem insert_relocate (record : Record Value) (name : String) (v : Value) :
    struct { relocate g record with
        fields := NameMap.insert name (relocate g v) (relocate g record.fields) } =
      relocate g (struct { record with fields := NameMap.insert name v record.fields }) := by
  rw [relocate_struct]
  exact congrArg (fun fields => struct { record with fields := fields })
    (NameMap.insert_relocate g name v record.fields)

/-- A function value is relocated in its code. -/
@[simp] theorem relocate_func (f : Closure) : relocate g (func f) = func (relocate g f) := rfl

/-- A value goes by the same type name. -/
@[simp] theorem typeName_relocate (v : Value) : (relocate g v).typeName = v.typeName := by
  cases v with
  | struct record =>
      rw [relocate_struct]
      rfl
  | _ => rfl

/-- A value without parts is its own image. -/
theorem Plain.relocate_eq {v : Value} (hv : v.Plain) : relocate g v = v := by
  cases v with
  | struct record => exact hv.elim
  | func f => exact hv.elim
  | _ => rfl

/-- A field of a relocated value is the field relocated. -/
theorem get_relocate (v : Value) (field : String) :
    (relocate g v).get field = relocate g (v.get field) := by
  have hplain (w : Value) (hw : w.Plain) :
      w.getPrimitive field = relocate g (w.getPrimitive field) :=
    ((hw.getPrimitive field).relocate_eq g).symm
  cases v with
  | struct record =>
      have hfind : NameMap.find? (relocate g record.fields) field =
          relocate g (NameMap.find? record.fields field) := NameMap.find?_relocate ..
      rw [relocate_struct]
      change (NameMap.find? (relocate g record.fields) field).getD nil =
        relocate g ((NameMap.find? record.fields field).getD nil)
      rw [hfind]
      cases NameMap.find? record.fields field <;> rfl
  | func f => rfl
  | _ => exact hplain _ trivial

mutual

/-- A value is shown the same. -/
theorem text_relocate : (v : Value) → (relocate g v).text = v.text
  | int _ => rfl
  | float _ => rfl
  | bool _ => rfl
  | str _ => rfl
  | nil => rfl
  | struct ⟨type, params, fieldTypes, fields⟩ => by
      have hfields := fieldTexts_relocate fields
      rw [relocate_struct]
      change text (struct ⟨type, params, fieldTypes, relocate g fields⟩) = _
      rw [text, text, hfields]
  | func f => by
      have hsignature := Ast.FuncDef.signature_relocate g f.definition
      rw [relocate_func, text, text]
      exact hsignature

/-- So are the fields of a struct value. -/
theorem fieldTexts_relocate : (fields : List (String × Value)) →
    fieldTexts (relocate g fields) = fieldTexts fields
  | [] => rfl
  | (name, v) :: rest => by
      have hv := text_relocate v
      have hrest := fieldTexts_relocate rest
      rw [relocate_cons, relocate_pair, fieldTexts, fieldTexts, hv, hrest]
      rfl

end

/-- A value is printed the same. -/
theorem printed_relocate (v : Value) : (relocate g v).printed = v.printed := by
  cases v with
  | str s => rfl
  | struct record =>
      have htext := text_relocate g (struct record)
      rw [relocate_struct] at htext ⊢
      exact htext
  | func f => exact text_relocate g (func f)
  | _ => rfl

end Value

/-- The code of a function is relocated with it. -/
theorem Closure.definition_relocate (f : Closure) :
    (relocate g f).definition = relocate g f.definition := rfl

/-- A function keeps the number of its parameters. -/
theorem Closure.arity_relocate (f : Closure) : (relocate g f).arity = f.arity := by
  rw [arity, definition_relocate, Ast.FuncDef.params_relocate, length_relocate]
  rfl

/-! ### Stores -/

instance : Relocatable Scope := ⟨fun g s => { s with vars := relocate g s.vars }⟩

instance : Relocatable Store := ⟨fun g s => ⟨s.scopes.map (relocate g)⟩⟩

namespace Store

/-- The scopes of a relocated store are those of the store, relocated. -/
theorem scope?_relocate (s : Store) (id : ScopeId) :
    (relocate g s).scope? id = relocate g (s.scope? id) := Array.getElem?_map

/-- The links to parents stay, so that the way up from a scope leads through the same scopes. -/
theorem chainUpTo_relocate (s : Store) (n : Nat) (id : ScopeId) :
    (relocate g s).chainUpTo n id = s.chainUpTo n id := by
  induction n generalizing id with
  | zero => rfl
  | succ n ih =>
      simp only [chainUpTo, scope?_relocate]
      rcases s.scope? id with _ | ⟨types, vars, _ | parent⟩
      · rfl
      · rfl
      · exact congrArg (id :: ·) (ih parent)

/-- The scopes that are visible from a scope stay the same. -/
theorem chain_relocate (s : Store) (id : ScopeId) : (relocate g s).chain id = s.chain id :=
  chainUpTo_relocate g s _ id

/-- The types that a scope defines hold no positions. -/
theorem types_relocate (s : Store) (id : ScopeId) : (relocate g s).types id = s.types id := by
  simp only [types, scope?_relocate]
  cases s.scope? id <;> rfl

/-- The variables of a scope are relocated in their values. -/
theorem vars_relocate (s : Store) (id : ScopeId) :
    (relocate g s).vars id = relocate g (s.vars id) := by
  simp only [vars, scope?_relocate]
  cases s.scope? id <;> rfl

/-- A type is found where it was found. -/
theorem lookupType_relocate (s : Store) (id : ScopeId) (name : String) :
    (relocate g s).lookupType id name = s.lookupType id name := by
  simp only [lookupType, chain_relocate, types_relocate]

/-- A variable that is found has its value relocated. -/
theorem lookupVariable_relocate (s : Store) (id : ScopeId) (name : String) :
    (relocate g s).lookupVariable id name = relocate g (s.lookupVariable id name) := by
  simp only [lookupVariable, chain_relocate, vars_relocate, NameMap.find?_relocate]
  exact (List.map_findSome? ..).symm

/-- A variable is found in the same scope, with its value relocated. -/
theorem binder?_relocate (s : Store) (id : ScopeId) (name : String) :
    (relocate g s).binder? id name = relocate g (s.binder? id name) := by
  simp only [binder?, chain_relocate, vars_relocate, NameMap.find?_relocate]
  have hscope (scope : ScopeId) :
      (relocate g ((s.vars scope).find? name)).map (fun v => (scope, v)) =
        relocate g (((s.vars scope).find? name).map fun v => (scope, v)) := by
    cases (s.vars scope).find? name <;> rfl
  simp only [hscope]
  exact (List.map_findSome? ..).symm

/-- A change of one scope commutes if its function does. -/
theorem modifyScope_relocate {f f' : Scope → Scope}
    (hf : ∀ scope, f' (relocate g scope) = relocate g (f scope)) (s : Store) (id : ScopeId) :
    (relocate g s).modifyScope id f' = relocate g (s.modifyScope id f) := by
  refine ext_scope? fun other => ?_
  simp only [scope?_relocate, scope?_modifyScope]
  split
  · cases s.scope? id with
    | none => rfl
    | some scope => exact congrArg some (hf scope)
  · rfl

/-- Defining a type in a relocated store. -/
theorem defineType_relocate (s : Store) (id : ScopeId) (name : String) (type : StructType) :
    (relocate g s).defineType id name type = relocate g (s.defineType id name type) := by
  refine modifyScope_relocate g (fun scope => ?_) s id
  rfl

/-- Defining a variable in a relocated store. -/
theorem defineVariable_relocate (s : Store) (id : ScopeId) (name : String) (v : Value) :
    (relocate g s).defineVariable id name (relocate g v) =
      relocate g (s.defineVariable id name v) := by
  refine modifyScope_relocate g (fun scope => ?_) s id
  exact congrArg (Scope.mk _ · _) (NameMap.insert_relocate g name v scope.vars)

/-- A new scope gets the same identity, and has nothing in it to relocate. -/
theorem addChild_relocate (s : Store) (parent : ScopeId) :
    (relocate g s).addChild parent = relocate g (s.addChild parent) := by
  obtain ⟨scopes⟩ := s
  have hsize : (scopes.map (relocate g)).size = scopes.size := Array.size_map
  have hpush : (scopes.map (relocate g)).push ⟨[], [], some parent⟩ =
      (scopes.push ⟨[], [], some parent⟩).map (relocate g) := by
    rw [Array.map_push]
    rfl
  change (ScopeId.mk (scopes.map (relocate g)).size,
    Store.mk ((scopes.map (relocate g)).push ⟨[], [], some parent⟩)) = _
  rw [hsize, hpush]
  rfl

/-- Defining some variables in turn, by induction on them. -/
theorem defineAll_relocate (id : ScopeId) (bindings : List (String × Value)) (s : Store) :
    (relocate g s).defineAll id (relocate g bindings) = relocate g (s.defineAll id bindings) := by
  induction bindings generalizing s with
  | nil => rfl
  | cons b rest ih =>
      calc (relocate g s).defineAll id (relocate g (b :: rest))
          = ((relocate g s).defineVariable id b.1 (relocate g b.2)).defineAll id
              (relocate g rest) := rfl
        _ = (relocate g (s.defineVariable id b.1 b.2)).defineAll id (relocate g rest) := by
            rw [defineVariable_relocate]
        _ = relocate g ((s.defineVariable id b.1 b.2).defineAll id rest) := ih _

instance : Relocatable AssignError := ⟨fun _ e => e⟩

/-- Assigning to a variable fails for the same causes, or changes the same scope. -/
theorem assign_relocate (s : Store) (id : ScopeId) (name : String) (v : Value) :
    (relocate g s).assign id name (relocate g v) = relocate g (s.assign id name v) := by
  simp only [assign, binder?_relocate]
  rcases s.binder? id name with _ | ⟨scope, old⟩
  · rfl
  · simp only [relocate_some, relocate_pair, Value.typeName_relocate]
    split
    · exact congrArg Except.ok (defineVariable_relocate g s scope name v)
    · rfl

end Store

/-! ### Errors, running calls and machines -/

instance : Relocatable Frame := ⟨fun g f => ⟨f.name, relocate g f.span⟩⟩

instance : Relocatable CallStack := ⟨fun g s => ⟨relocate g s.frames, s.limit⟩⟩

instance : Relocatable EvalError.Cause := ⟨fun _ c => c⟩

instance : Relocatable EvalError :=
  ⟨fun g e => ⟨e.cause, relocate g e.span, relocate g e.backtrace⟩⟩

instance : Relocatable Machine := ⟨fun g m => ⟨relocate g m.store, m.output, relocate g m.calls⟩⟩

instance : Relocatable Outcome where
  relocate g
    | .completed => .completed
    | .returned v => .returned (relocate g v)

instance : Relocatable Instantiation := ⟨fun _ i => i⟩

/-- As many calls are running, wherever they were made. -/
theorem CallStack.depth_relocate (s : CallStack) : (relocate g s).depth = s.depth :=
  length_relocate g s.frames

/-- Where another call may run, it may run in the relocated machine. -/
theorem CallStack.HasRoom.relocate {s : CallStack} (h : s.HasRoom) :
    (StructScript.relocate g s).HasRoom := by
  intro limit hlimit
  rw [depth_relocate]
  exact h limit hlimit

/-- Where no more calls may run, none may in the relocated machine. -/
theorem CallStack.Full.relocate {s : CallStack} {limit : Nat} (h : s.Full limit) :
    (StructScript.relocate g s).Full limit := by
  refine ⟨h.1, ?_⟩
  rw [depth_relocate]
  exact h.2

/-- Leaving the most recent call. -/
theorem CallStack.pop_relocate (s : CallStack) : (relocate g s).pop = relocate g s.pop := by
  obtain ⟨frames, limit⟩ := s
  cases frames <;> rfl

/-- An error gets a place only if it has none. -/
theorem EvalError.locate_relocate (span : Span) (e : EvalError) :
    (relocate g e).locate (relocate g span) = relocate g (e.locate span) := by
  obtain ⟨cause, _ | place, backtrace⟩ := e <;> rfl

/-- The running calls are recorded in an error only once. -/
theorem EvalError.trace_relocate (frames : List Frame) (e : EvalError) :
    (relocate g e).trace (relocate g frames) = relocate g (e.trace frames) := by
  obtain ⟨cause, span, _ | recorded⟩ := e
  · cases frames <;> rfl
  · rfl

/-- The value of a call that ended in this way is relocated. -/
theorem Outcome.value_relocate (outcome : Outcome) :
    (relocate g outcome).value = relocate g outcome.value := by
  cases outcome <;> rfl

/-- What a text returns, if it returns anything, is relocated. -/
theorem Outcome.returned?_relocate (outcome : Outcome) :
    (relocate g outcome).returned? = relocate g outcome.returned? := by
  cases outcome <;> rfl

end StructScript
