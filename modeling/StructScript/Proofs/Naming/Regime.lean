import StructScript.Proofs.Evaluation.Code
import StructScript.Proofs.Store.Contents

/-!
# The names that values carry

A struct value carries the name of the type that it was written with and the names of the types of
its fields. All of them come from the code that has run. A `Naming` says which names may be written
as types and which may be defined; the pieces of code that respect it are `Naming.Code`. The values
that such code comes to bind, and the types that it comes to define, respect it as well
(`Naming.OfValue`, `Naming.OfStore`): this is the regime `Naming.regime`.

What a value says of its name: it is the name of its kind, or the value is a struct and the name is
one that may be defined (`Naming.OfValue.typeName`).
-/

namespace StructScript

/-- Which names may be used for types. -/
structure Naming where
  /-- The names that may be written where a type is asked for. -/
  written : String → Prop
  /-- The names that types may be defined under. -/
  defined : String → Prop

namespace Naming

variable {N : Naming} {strict : Bool}

/-- The types written in a piece of code, outside of the pieces that stand in it, have such
names. -/
def OfPart (N : Naming) : Ast.Part → Prop
  | .expr ⟨.struct type _, _⟩ => ∀ arg ∈ type.args, N.written arg.name.name
  | .func f => ∀ param ∈ f.params, N.written param.type.name.name
  | .stmt (.typeDef type definition _) =>
    N.defined type.name.name ∧ ∀ group ∈ definition.groups, N.written group.type.name.name
  | _ => True

/-- The types written in a piece of code have such names, at any depth. -/
def Code (N : Naming) (whole : Ast.Part) : Prop := ∀ part : Ast.Part, part.In whole → N.OfPart part

/-- The names that the structs in a value carry are such names, and the functions in it are of code
that respects the naming. -/
inductive OfValue (N : Naming) : Value → Prop where
  | plain {v : Value} (hv : v.Plain) : OfValue N v
  | func {f : Closure} (hcode : N.Code (.func f.definition)) : OfValue N (.func f)
  | struct {record : Record Value} (htype : N.defined record.type.name)
      (htypes : ∀ entry ∈ record.fieldTypes, N.written entry.2.name)
      (hnames : ∀ entry ∈ record.fields, N.written entry.2.typeName)
      (hfields : ∀ entry ∈ record.fields, OfValue N entry.2) : OfValue N (.struct record)

/-- The fields of a struct type have types of such names. -/
def OfType (N : Naming) (type : StructType) : Prop :=
  ∀ entry ∈ type.fields, N.written entry.2.name

/-- The variables and types of all scopes respect the naming. -/
def OfStore (N : Naming) (s : Store) : Prop :=
  ∀ id scope, s.scope? id = some scope → (∀ entry ∈ scope.vars, N.OfValue entry.2) ∧
    ∀ entry ∈ scope.types, N.defined entry.1 ∧ N.OfType entry.2

/-! ### Code -/

/-- A piece of code respects the naming if it does so itself and its parts do. -/
theorem code_of_parts {whole : Ast.Part} (hwhole : N.OfPart whole)
    (hparts : ∀ part : Ast.Part, part.ChildOf whole → N.Code part) : N.Code whole := by
  intro part hin
  rcases Relation.ReflTransGen.cases_tail hin with rfl | ⟨child, hin, hchild⟩
  · exact hwhole
  · exact hparts child hchild part hin

/-- The parts of code that respects a naming do so. -/
theorem Code.child {part whole : Ast.Part} (h : N.Code whole) (hchild : part.ChildOf whole) :
    N.Code part := fun other hin => h other (.tail hin hchild)

/-- Code that respects a naming does so at its root. -/
theorem Code.ofPart {whole : Ast.Part} (h : N.Code whole) : N.OfPart whole := h whole .refl

/-! ### Values -/

/-- The code of a function value respects the naming. -/
theorem OfValue.code {f : Closure} (h : N.OfValue (.func f)) : N.Code (.func f.definition) := by
  cases h with
  | plain hv => exact hv.elim
  | func hcode => exact hcode

/-- A struct value respects a naming if its type is one that is defined, its fields have written
types, and their values respect the naming. -/
theorem ofValue_struct_iff {record : Record Value} : N.OfValue (.struct record) ↔
    N.defined record.type.name ∧ (∀ entry ∈ record.fieldTypes, N.written entry.2.name) ∧
      (∀ entry ∈ record.fields, N.written entry.2.typeName) ∧
        ∀ entry ∈ record.fields, N.OfValue entry.2 := by
  constructor
  · intro h
    cases h with
    | plain hv => exact hv.elim
    | struct htype htypes hnames hfields => exact ⟨htype, htypes, hnames, hfields⟩
  · exact fun ⟨htype, htypes, hnames, hfields⟩ => .struct htype htypes hnames hfields

/-- The name of a value is that of its kind, or that of a type which may be defined. -/
theorem OfValue.typeName {v : Value} (h : N.OfValue v) :
    v.typeName = v.kindName ∨ v.kindName = "struct" ∧ N.defined v.typeName := by
  cases v with
  | struct record => exact .inr ⟨rfl, (ofValue_struct_iff.mp h).1⟩
  | _ => exact .inl rfl

/-- Replacing a field by a value of a written name. -/
theorem OfValue.insert {record : Record Value} (h : N.OfValue (.struct record)) (name : String)
    {v : Value} (hv : N.OfValue v) (hname : N.written v.typeName) :
    N.OfValue (.struct { record with fields := NameMap.insert name v record.fields }) := by
  obtain ⟨htype, htypes, hnames, hfields⟩ := ofValue_struct_iff.mp h
  refine .struct htype htypes (fun entry hentry => ?_) fun entry hentry => ?_
  · rcases NameMap.mem_insert hentry with rfl | hentry
    · exact hname
    · exact hnames entry hentry
  · rcases NameMap.mem_insert hentry with rfl | hentry
    · exact hv
    · exact hfields entry hentry

/-! ### Types -/

/-- The types of a definition are those written in it. -/
theorem ofType_ofDefinition {definition : Ast.StructDef} (name : String)
    (h : ∀ group ∈ definition.groups, N.written group.type.name.name) :
    N.OfType (StructType.ofDefinition name definition) := by
  intro entry hentry
  obtain ⟨group, hgroup, hentry⟩ := List.mem_flatMap.mp (NameMap.mem_of_mem_ofList hentry)
  obtain ⟨field, -, rfl⟩ := List.mem_map.mp hentry
  rw [TypeName.name_ofExpr]
  exact h group hgroup

/-- The types that a type is applied to are those written there. -/
theorem written_args {type : Ast.TypeExpr} (h : ∀ arg ∈ type.args, N.written arg.name.name) :
    ∀ arg ∈ (TypeName.ofExpr type).args, N.written arg.name := by
  obtain ⟨name, args, span⟩ := type
  intro arg harg
  change arg ∈ TypeName.ofExpr.ofExprs args at harg
  change ∀ arg ∈ args, N.written arg.name.name at h
  induction args with
  | nil => cases harg
  | cons first rest ih =>
      obtain ⟨hfirst, hrest⟩ := List.forall_mem_cons.mp h
      rcases List.mem_cons.mp harg with rfl | harg
      · rwa [TypeName.name_ofExpr]
      · exact ih harg hrest

/-- Replacing the parameters of a type by types of such names. -/
theorem ofType_instantiate {template : StructType} {args : List TypeName} {i : Instantiation}
    (h : N.OfType template) (hargs : ∀ arg ∈ args, N.written arg.name)
    (hi : template.instantiate args = .ok i) : N.OfType i.type := by
  unfold StructType.instantiate at hi
  split at hi
  · cases hi
    intro entry hentry
    obtain ⟨field, hfield, rfl⟩ := List.mem_map.mp hentry
    have hdeclared := h field hfield
    simp only [StructType.substitute]
    split
    · rename_i type hfind
      split
      · have hbound := NameMap.mem_of_mem_ofList (NameMap.mem_of_find? hfind)
        exact hargs type (List.of_mem_zip hbound).2
      · exact hdeclared
    · exact hdeclared
  · cases hi

/-! ### Stores -/

namespace OfStore

variable {s : Store}

/-- Stores that respect a naming are those whose values and types all do. -/
theorem iff_every :
    N.OfStore s ↔ s.Every N.OfValue fun name type => N.defined name ∧ N.OfType type := .rfl

/-- A store without scopes holds nothing to respect it. -/
theorem empty (N : Naming) : N.OfStore .empty :=
  iff_every.mpr (.empty _ _)

/-- A new scope holds nothing to respect it. -/
theorem add (h : N.OfStore s) (parent : Option ScopeId) : N.OfStore (s.add parent).2 :=
  iff_every.mpr ((iff_every.mp h).add parent)

/-- A variable may be defined with a value that respects the naming. -/
theorem defineVariable (h : N.OfStore s) (id : ScopeId) (name : String) {v : Value}
    (hv : N.OfValue v) : N.OfStore (s.defineVariable id name v) :=
  iff_every.mpr ((iff_every.mp h).defineVariable id name hv)

/-- A type may be defined under a name of the naming. -/
theorem defineType (h : N.OfStore s) (id : ScopeId) {name : String} {type : StructType}
    (hname : N.defined name) (htype : N.OfType type) : N.OfStore (s.defineType id name type) :=
  iff_every.mpr ((iff_every.mp h).defineType id ⟨hname, htype⟩)

/-- A variable that is found respects the naming. -/
theorem lookupVariable (h : N.OfStore s) {id : ScopeId} {name : String} {v : Value}
    (hv : s.lookupVariable id name = some v) : N.OfValue v :=
  (iff_every.mp h).lookupVariable hv

/-- So does one that is found with its scope. -/
theorem binder? (h : N.OfStore s) {id other : ScopeId} {name : String} {v : Value}
    (hv : s.binder? id name = some (other, v)) : N.OfValue v :=
  (iff_every.mp h).binder? hv

/-- A type that is found goes by a defined name. -/
theorem lookupType (h : N.OfStore s) {id : ScopeId} {name : String} {type : StructType}
    (ht : s.lookupType id name = some type) : N.defined name ∧ N.OfType type :=
  (iff_every.mp h).lookupType ht

end OfStore

/-- Code that respects a naming runs over stores that do, and its values do. -/
def regime (N : Naming) (strict : Bool) : Regime strict where
  code := N.Code
  store := N.OfStore
  value := N.OfValue
  readable _ := True
  writable _ := True
  inst type i := N.defined type.name.name ∧ N.OfType i.type
  code_child hchild hwhole := hwhole.child hchild
  readable_of_writable _ := trivial
  value_plain hv := .plain hv
  value_func hcode _ := .func hcode
  code_func hf := hf.code
  inst_of_instantiate hcode hs _ htemplate hi := by
    obtain ⟨hname, htype⟩ := hs.lookupType htemplate
    exact ⟨hname, ofType_instantiate htype (written_args hcode.ofPart) hi⟩
  value_struct {type i fields} hinst _ hfields hdeclared _ := by
    obtain ⟨hname, htypes⟩ := hinst
    refine .struct ?_ htypes (fun entry hentry => ?_) hfields
    · rwa [TypeName.name_ofExpr]
    · obtain ⟨declared, hfind, hentryName⟩ := hdeclared entry hentry
      exact hentryName ▸ htypes _ (NameMap.mem_of_find? hfind)
  value_field hv := (ofValue_struct_iff.mp hv).2.2.2
  value_update {record name v} hrecord hv htype := by
    obtain ⟨-, htypes, hnames, -⟩ := ofValue_struct_iff.mp hrecord
    refine hrecord.insert name hv ?_
    rcases htype with ⟨declared, hfind, hname⟩ | ⟨old, hfind, hname⟩
    · exact hname ▸ htypes _ (NameMap.mem_of_find? hfind)
    · exact hname ▸ hnames _ (NameMap.mem_of_find? hfind)
  value_lookup hs _ hv := hs.lookupVariable hv
  store_define name _ hs _ hv := hs.defineVariable _ name hv
  store_defineType hcode hs _ :=
    hs.defineType _ hcode.ofPart.1 (ofType_ofDefinition _ hcode.ofPart.2)
  store_assign hs _ hv _ _ := hs.defineVariable _ _ hv
  enter hs _ := ⟨hs.add _, trivial⟩

end Naming

end StructScript
