import StructScript.Proofs.Store.Maps
import StructScript.StructType

/-!
# Instantiating a struct type

Instantiation replaces the parameters of a type all at once. Every field is looked at once, with the
type that it is declared with: a bare parameter becomes the argument that stands where the parameter
stands last (`LastAt`), and no argument is looked into, not even one that has the name of another
parameter. What an instance is, is told field by field (`StructType.Instantiates`), without the map
from parameters to arguments.

The names of the parameters do not matter. They can be replaced by others, where they are declared
and where they are used (`StructType.rename`), if the new names are told apart as the old ones were
and none of them is the type of a field already (`StructType.Renames`). Parameters may change places
that way. The fields of the instances stay the same (`StructType.Renames.map_fields_instantiate`).
-/

namespace StructScript

/-! ### The last place of a name -/

/-- The name stands at this index, and not after it. -/
def LastAt (names : List String) (name : String) (i : Nat) : Prop :=
  names[i]? = some name ∧ ∀ j, i < j → names[j]? ≠ some name

namespace LastAt

variable {names rest : List String} {first name : String} {i : Nat}

/-- The last place of a name is one of the places. -/
theorem lt (h : LastAt names name i) : i < names.length :=
  (List.getElem?_eq_some_iff.mp h.1).1

/-- A name with a last place is among the names. -/
theorem mem (h : LastAt names name i) : name ∈ names :=
  List.mem_of_getElem? h.1

/-- There is a value at that place of a list that is as long. -/
theorem exists_getElem? {α : Type} {values : List α} (h : LastAt names name i)
    (hlength : values.length = names.length) : ∃ value, values[i]? = some value :=
  ⟨_, List.getElem?_eq_getElem (hlength ▸ h.lt)⟩

/-- Behind the first name, last places are those of the others. -/
theorem cons_succ_iff : LastAt (first :: rest) name (i + 1) ↔ LastAt rest name i := by
  constructor
  · intro h
    refine ⟨by simpa using h.1, fun j hj => ?_⟩
    simpa using h.2 (j + 1) (Nat.succ_lt_succ hj)
  · intro h
    refine ⟨by simpa using h.1, fun j hj => ?_⟩
    obtain ⟨j, rfl⟩ := Nat.exists_eq_add_one_of_ne_zero (Nat.ne_zero_of_lt hj)
    simpa using h.2 j (Nat.lt_of_succ_lt_succ hj)

/-- The first place is the last one of a name that does not occur again. -/
theorem cons_zero_iff : LastAt (first :: rest) name 0 ↔ first = name ∧ name ∉ rest := by
  constructor
  · intro h
    refine ⟨by simpa using h.1, fun hmem => ?_⟩
    obtain ⟨j, hj⟩ := List.mem_iff_getElem?.mp hmem
    exact h.2 (j + 1) (Nat.succ_pos j) (by simpa using hj)
  · rintro ⟨rfl, hrest⟩
    refine ⟨rfl, fun j hj => ?_⟩
    obtain ⟨j, rfl⟩ := Nat.exists_eq_add_one_of_ne_zero (Nat.ne_zero_of_lt hj)
    exact fun hj => hrest (List.mem_of_getElem? (by simpa using hj))

end LastAt

/-- A name of a list has a last place. -/
theorem exists_lastAt {names : List String} {name : String} (h : name ∈ names) :
    ∃ i, LastAt names name i := by
  induction names with
  | nil => cases h
  | cons first rest ih =>
      by_cases hrest : name ∈ rest
      · obtain ⟨i, hi⟩ := ih hrest
        exact ⟨i + 1, LastAt.cons_succ_iff.mpr hi⟩
      · have hfirst : name = first := (List.mem_cons.mp h).resolve_right hrest
        exact ⟨0, LastAt.cons_zero_iff.mpr ⟨hfirst.symm, hrest⟩⟩

/-- What names are bound to by a list of as many values: each to the value at its last place. -/
theorem NameMap.find?_ofList_zip {α : Type} {names : List String} {values : List α} {name : String}
    {i : Nat} (hlength : values.length = names.length) (h : LastAt names name i) :
    (ofList (names.zip values)).find? name = values[i]? := by
  induction names generalizing values i with
  | nil => cases h.1
  | cons first rest ih =>
      obtain ⟨value, values, rfl⟩ := List.exists_cons_of_length_eq_add_one hlength
      have hlength' : values.length = rest.length := Nat.succ.inj hlength
      rw [List.zip_cons_cons, find?_ofList_cons]
      cases i with
      | zero =>
          obtain ⟨rfl, hrest⟩ := LastAt.cons_zero_iff.mp h
          have hnone : (ofList (rest.zip values)).find? first = none :=
            find?_ofList_eq_none fun b hb heq => hrest (heq ▸ (List.of_mem_zip hb).1)
          simp [hnone]
      | succ i =>
          have hi := LastAt.cons_succ_iff.mp h
          obtain ⟨other, hvalue⟩ := hi.exists_getElem? hlength'
          rw [ih hlength' hi, List.getElem?_cons_succ, hvalue]
          rfl

/-- A name that is not among the names is not bound. -/
theorem NameMap.find?_ofList_zip_eq_none {α : Type} {names : List String} {values : List α}
    {name : String} (h : name ∉ names) : (ofList (names.zip values)).find? name = none :=
  find?_ofList_eq_none fun _ hb heq => h (heq ▸ (List.of_mem_zip hb).1)

namespace StructType

variable {template : StructType} {args : List TypeName} {inst : Instantiation}

/-! ### What an instance is -/

/-- The instance of a type for arguments, as many as it has parameters. -/
structure Instantiates (template : StructType) (args : List TypeName) (inst : Instantiation) :
    Prop where
  name : inst.type.name = template.name
  params : inst.type.params = template.params
  fieldNames : inst.type.fields.names = template.fields.names
  /-- A bare parameter becomes the argument at the last place of the parameter. -/
  parameter : ∀ {field param : String} {i : Nat},
    template.fields.find? field = some (.simple param) → LastAt template.params param i →
    ∃ arg, args[i]? = some arg ∧ inst.type.fields.find? field = some arg
  /-- Any other type stays. -/
  declared : ∀ {field : String} {type : TypeName},
    template.fields.find? field = some type → type.args ≠ [] ∨ type.name ∉ template.params →
    inst.type.fields.find? field = some type
  /-- The parameters stand for something, and nothing else does. -/
  bound : ∀ param, param ∈ inst.bindings.names ↔ param ∈ template.params
  /-- They stand for the same arguments. -/
  bindings : ∀ param arg, inst.bindings.find? param = some arg ↔
    ∃ i, LastAt template.params param i ∧ args[i]? = some arg

/-- A type that is no parameter stays as it is. -/
theorem substitute_of_none {bindings : NameMap TypeName} {type : TypeName}
    (h : bindings.find? type.name = none) : substitute bindings type = type := by
  simp only [substitute, h]

/-- So does a type with arguments. -/
theorem substitute_of_args {type : TypeName} (h : type.args ≠ []) (bindings : NameMap TypeName) :
    substitute bindings type = type := by
  have hargs : type.args.isEmpty = false := by simpa using h
  unfold substitute
  split
  · rw [hargs]
    rfl
  · rfl

/-- A type without arguments is replaced by what its name is bound to. -/
theorem substitute_simple (bindings : NameMap TypeName) (name : String) :
    substitute bindings (.simple name) = (bindings.find? name).getD (.simple name) := by
  have hname : (TypeName.simple name).name = name := rfl
  rw [substitute, hname]
  cases bindings.find? name <;> rfl

/-- What a parameter stands for. -/
theorem find?_bindings_iff (hlength : args.length = template.params.length) (param : String)
    (arg : TypeName) :
    (NameMap.ofList (template.params.zip args)).find? param = some arg ↔
      ∃ i, LastAt template.params param i ∧ args[i]? = some arg := by
  constructor
  · intro h
    have hparam : param ∈ template.params := by
      refine Decidable.byContradiction fun hparam => ?_
      rw [NameMap.find?_ofList_zip_eq_none hparam] at h
      cases h
    obtain ⟨i, hi⟩ := exists_lastAt hparam
    exact ⟨i, hi, NameMap.find?_ofList_zip hlength hi ▸ h⟩
  · rintro ⟨i, hi, harg⟩
    exact NameMap.find?_ofList_zip hlength hi ▸ harg

/-- With as many arguments as parameters there is an instance. -/
theorem instantiate_of_length (hlength : args.length = template.params.length) :
    ∃ inst, template.instantiate args = .ok inst ∧ template.Instantiates args inst := by
  refine ⟨_, if_pos hlength, rfl, rfl, NameMap.names_map _ _, ?_, ?_, fun param => ?_,
    find?_bindings_iff hlength⟩
  · intro field param i hfield hi
    obtain ⟨arg, harg⟩ := hi.exists_getElem? hlength
    refine ⟨arg, harg, ?_⟩
    rw [NameMap.find?_map, hfield, Option.map_some, substitute_simple,
      NameMap.find?_ofList_zip hlength hi, harg]
    rfl
  · intro field type hfield htype
    rw [NameMap.find?_map, hfield, Option.map_some]
    rcases htype with hargs | hname
    · rw [substitute_of_args hargs]
    · rw [substitute_of_none (NameMap.find?_ofList_zip_eq_none hname)]
  · rw [NameMap.mem_names_iff]
    constructor
    · rintro ⟨arg, harg⟩
      obtain ⟨i, hi, -⟩ := (find?_bindings_iff hlength param arg).mp harg
      exact hi.mem
    · intro hparam
      obtain ⟨i, hi⟩ := exists_lastAt hparam
      obtain ⟨arg, harg⟩ := hi.exists_getElem? hlength
      exact ⟨arg, (find?_bindings_iff hlength param arg).mpr ⟨i, hi, harg⟩⟩

/-- With another number of arguments there is an error that says both numbers. -/
theorem instantiate_of_length_ne (hlength : args.length ≠ template.params.length) :
    template.instantiate args =
      .error (.typeArgumentArity template.name template.params.length args.length) :=
  if_neg hlength

/-- What is given for an instance is one. -/
theorem instantiates_of_instantiate (h : template.instantiate args = .ok inst) :
    template.Instantiates args inst := by
  by_cases hlength : args.length = template.params.length
  · obtain ⟨inst', hinst, hinstantiates⟩ := instantiate_of_length hlength
    cases hinst.symm.trans h
    exact hinstantiates
  · rw [instantiate_of_length_ne hlength] at h
    cases h

/-- The fields of an instance are in order if those of the type are. -/
theorem sorted_fields_instantiate (hsorted : NameMap.Sorted template.fields)
    (h : template.instantiate args = .ok inst) : NameMap.Sorted inst.type.fields := by
  rw [NameMap.sorted_iff_names, (instantiates_of_instantiate h).fieldNames]
  exact NameMap.sorted_iff_names.mp hsorted

/-! ### The names of the parameters -/

/-- The type of a field with its parameters renamed: a bare parameter by its new name, any other
type by itself. -/
def renameField (params : List String) (f : String → String) (type : TypeName) : TypeName :=
  if type.args.isEmpty ∧ type.name ∈ params then .simple (f type.name) else type

/-- The type with other names for its parameters, where they are declared and where a field has one
of them as its type. -/
def rename (template : StructType) (f : String → String) : StructType :=
  ⟨template.name, template.params.map f,
    template.fields.map fun field => (field.1, renameField template.params f field.2)⟩

/-- New names for the parameters of a type: different ones for different parameters, and none that
is the type of a field already, other than by being the name of a parameter. -/
structure Renames (template : StructType) (f : String → String) : Prop where
  injective : ∀ param ∈ template.params, ∀ other ∈ template.params,
    f param = f other → param = other
  fresh : ∀ param ∈ template.params, ∀ field ∈ template.fields, ∀ name,
    field.2 = .simple name → name ∉ template.params → f param ≠ name

namespace Renames

variable {f : String → String}

/-- A renamed parameter stands for what it stood for. -/
theorem find?_rename (h : template.Renames f) (args : List TypeName) {param : String}
    (hparam : param ∈ template.params) :
    (NameMap.ofList ((template.params.map f).zip args)).find? (f param) =
      (NameMap.ofList (template.params.zip args)).find? param := by
  have hzip : (template.params.map f).zip args = (template.params.zip args).map (Prod.map f id) :=
    List.zip_map_left
  rw [hzip, NameMap.find?_ofList_map]
  exact fun b hb => h.injective b.1 (List.of_mem_zip hb).1 param hparam

/-- The type of a field in the instance of the renamed type. -/
theorem substitute_rename (h : template.Renames f) (hlength : args.length = template.params.length)
    {field : String × TypeName} (hfield : field ∈ template.fields) :
    substitute (NameMap.ofList ((template.params.map f).zip args))
        (renameField template.params f field.2) =
      substitute (NameMap.ofList (template.params.zip args)) field.2 := by
  obtain ⟨field, ⟨name, typeArgs⟩⟩ := field
  cases typeArgs with
  | cons first rest =>
      -- a type with arguments is no parameter
      have hargs : (TypeName.mk name (first :: rest)).args ≠ [] := List.cons_ne_nil _ _
      have hkept : renameField template.params f (.mk name (first :: rest)) =
          .mk name (first :: rest) := if_neg fun hbare => nomatch hbare.1
      rw [hkept, substitute_of_args hargs, substitute_of_args hargs]
  | nil =>
      by_cases hname : name ∈ template.params
      · -- a parameter: both maps bind it to the argument of its last place
        have hrenamed : renameField template.params f (.simple name) = .simple (f name) :=
          if_pos ⟨rfl, hname⟩
        obtain ⟨i, hi⟩ := exists_lastAt hname
        obtain ⟨arg, harg⟩ := hi.exists_getElem? hlength
        have hbound := (NameMap.find?_ofList_zip hlength hi).trans harg
        change substitute _ (renameField _ f (.simple name)) = substitute _ (.simple name)
        rw [hrenamed, substitute_simple, substitute_simple, h.find?_rename args hname, hbound]
        rfl
      · -- no parameter, and by freshness none of the new names either
        have hkept : renameField template.params f (.simple name) = .simple name :=
          if_neg fun hbare => hname hbare.2
        have hfresh : name ∉ template.params.map f := by
          rw [List.mem_map]
          rintro ⟨param, hparam, heq⟩
          exact h.fresh param hparam _ hfield name rfl hname heq
        change substitute _ (renameField _ f (.simple name)) = substitute _ (.simple name)
        rw [hkept, substitute_simple, substitute_simple, NameMap.find?_ofList_zip_eq_none hname,
          NameMap.find?_ofList_zip_eq_none hfresh]

/-- Instances do not depend on the names of the parameters. -/
theorem map_fields_instantiate (h : template.Renames f) (args : List TypeName) :
    ((template.rename f).instantiate args).map (·.type.fields) =
      (template.instantiate args).map (·.type.fields) := by
  have hparams : (template.rename f).params.length = template.params.length := List.length_map f
  unfold instantiate
  rw [hparams]
  split
  · rename_i hlength
    refine congrArg Except.ok ?_
    simp only [rename, List.map_map]
    refine List.map_congr_left fun field hfield => ?_
    exact congrArg (Prod.mk field.1) (h.substitute_rename hlength hfield)
  · rfl

end Renames

/-- Instantiation fails exactly when there are not as many arguments as parameters. It replaces the
parameters at once and does not look into the arguments of a type, and it does not depend on the
names of the parameters. -/
theorem instantiate_simultaneous (template : StructType) (args : List TypeName) :
    (∀ cause, template.instantiate args = .error cause ↔
      args.length ≠ template.params.length ∧
        cause = .typeArgumentArity template.name template.params.length args.length) ∧
    (args.length = template.params.length →
      ∃ inst, template.instantiate args = .ok inst ∧ template.Instantiates args inst) ∧
    ∀ f, template.Renames f →
      ((template.rename f).instantiate args).map (·.type.fields) =
        (template.instantiate args).map (·.type.fields) := by
  refine ⟨fun cause => ?_, instantiate_of_length, fun f h => h.map_fields_instantiate args⟩
  by_cases hlength : args.length = template.params.length
  · obtain ⟨inst, hinst, -⟩ := instantiate_of_length hlength
    simp [hinst, hlength]
  · simp [instantiate_of_length_ne hlength, hlength, eq_comm]

/-- A type that declares one of its two parameters again. -/
def clashing : StructType :=
  ⟨"Pair", ["A", "B", "A"], [("box", .mk "Box" [.simple "A"]), ("first", .simple "A"),
    ("second", .simple "B"), ("size", .simple "int")]⟩

/-- The two parameters change places. -/
def exchange (name : String) : String :=
  if name = "A" then "B" else if name = "B" then "A" else name

/-- Exchanging the two names is a renaming of the example. -/
theorem renames_clashing : clashing.Renames exchange where
  injective := by decide
  fresh := by
    intro param hparam field hfield name hname hfree
    simp only [clashing, List.mem_cons, List.not_mem_nil, or_false] at hparam hfield hfree
    rcases hfield with rfl | rfl | rfl | rfl <;> cases hname <;>
      rcases hparam with rfl | rfl | rfl <;> simp_all [exchange]

/-- The arguments have the names of the parameters, and the parameters change places. -/
theorem instantiate_simultaneous_clashing :
    (∃ inst, clashing.instantiate [.simple "int", .simple "A", .simple "B"] = .ok inst ∧
      clashing.Instantiates [.simple "int", .simple "A", .simple "B"] inst ∧
      inst.type.fields.find? "first" = some (.simple "B") ∧
      inst.type.fields.find? "second" = some (.simple "A")) ∧
    ((clashing.rename exchange).instantiate [.simple "int", .simple "A", .simple "B"]).map
        (·.type.fields) =
      (clashing.instantiate [.simple "int", .simple "A", .simple "B"]).map (·.type.fields) := by
  obtain ⟨-, hinstance, hrenamed⟩ :=
    instantiate_simultaneous clashing [.simple "int", .simple "A", .simple "B"]
  obtain ⟨inst, hinst, h⟩ := hinstance rfl
  refine ⟨⟨inst, hinst, h, ?_, ?_⟩, hrenamed exchange renames_clashing⟩
  · have hlast : LastAt clashing.params "A" 2 :=
      LastAt.cons_succ_iff.mpr <| LastAt.cons_succ_iff.mpr <|
        LastAt.cons_zero_iff.mpr ⟨rfl, List.not_mem_nil⟩
    have hdeclared : clashing.fields.find? "first" = some (.simple "A") := rfl
    obtain ⟨arg, harg, hfield⟩ := h.parameter hdeclared hlast
    cases harg
    exact hfield
  · have hlast : LastAt clashing.params "B" 1 :=
      LastAt.cons_succ_iff.mpr <| LastAt.cons_zero_iff.mpr ⟨rfl, by decide⟩
    have hdeclared : clashing.fields.find? "second" = some (.simple "B") := rfl
    obtain ⟨arg, harg, hfield⟩ := h.parameter hdeclared hlast
    cases harg
    exact hfield

end StructType

end StructScript
