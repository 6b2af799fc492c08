import StructScript.Proofs.Evaluation.Admission
import StructScript.Proofs.Printing.ByteOrder
import StructScript.Proofs.Store.Contents
import StructScript.Proofs.Types.Instantiation

/-!
# Fields are shown in the order of their names

The fields of a struct come to be set one by one, by the initialisers of a literal and by the
assignments that follow it. Each goes to its place in the map of fields, so the entries of the map
are in the order of their names at every moment of every run (`Regime.ordered`). A struct whose
entries are in order is shown with each field once, in the order of the bytes of the names
(`Record.ListsFields`).
-/

namespace StructScript

/-- Every struct in a value is such a struct, at any depth. -/
inductive Value.Every (p : Record Value → Prop) : Value → Prop where
  | plain {v : Value} (hv : v.Plain) : Every p v
  | func (f : Closure) : Every p (.func f)
  | struct {record : Record Value} (h : p record) (hfields : ∀ entry ∈ record.fields,
      Every p entry.2) : Every p (.struct record)

/-- The entries of the fields are in the order of their names. -/
def Record.Ordered (record : Record Value) : Prop := NameMap.Sorted record.fields

/-- The struct is shown by the fields that it has, each once, in the order of the bytes of their
names. -/
def Record.ListsFields (record : Record Value) : Prop :=
  ∃ shown : List (String × Value),
    shown.Pairwise (fun a b => utf8 a.1 < utf8 b.1) ∧
    (∀ name v, (name, v) ∈ shown ↔ NameMap.find? record.fields name = some v) ∧
    (Value.struct record).text = record.type.text ++ "\x7b" ++
      ", ".intercalate (shown.map fun field => field.1 ++ ": " ++ field.2.text) ++ "\x7d"

/-- All struct values of the store have their fields in order, and so have its types. -/
def Store.Ordered (s : Store) : Prop :=
  s.Every (·.Every Record.Ordered) fun _ type => NameMap.Sorted type.fields

/-! ### Values -/

namespace Value

variable {p q : Record Value → Prop} {v : Value} {record : Record Value}

/-- Of a struct, the property asks for its record and for the values in its fields. -/
theorem every_struct_iff :
    (struct record).Every p ↔ p record ∧ ∀ entry ∈ record.fields, entry.2.Every p := by
  constructor
  · intro h
    cases h with
    | plain hv => exact hv.elim
    | struct h hfields => exact ⟨h, hfields⟩
  · exact fun ⟨h, hfields⟩ => .struct h hfields

/-- A weaker property of records holds as well. -/
theorem Every.mono (h : v.Every p) (himp : ∀ record, p record → q record) : v.Every q := by
  induction h with
  | plain hv => exact .plain hv
  | func f => exact .func f
  | struct h _ ih => exact .struct (himp _ h) ih

/-- Setting a field of a struct. -/
theorem Every.insert (h : (Value.struct record).Every p) {name : String} (hv : v.Every p)
    (hset : p { record with fields := NameMap.insert name v record.fields }) :
    (Value.struct { record with fields := NameMap.insert name v record.fields }).Every p := by
  refine .struct hset fun entry hentry => ?_
  rcases NameMap.mem_insert hentry with rfl | hentry
  · exact hv
  · exact (every_struct_iff.mp h).2 entry hentry

end Value

/-- A struct whose entries are in order is shown in the order of the bytes of the names. -/
theorem Record.Ordered.listsFields {record : Record Value} (h : record.Ordered) :
    record.ListsFields := by
  refine ⟨record.fields, ?_, h.mem_iff, Value.text_struct record⟩
  exact h.imp fun hlt => (lt_iff_utf8_lt _ _).mp hlt

/-! ### Runs -/

/-- All structs have their fields in order, in every scope. -/
def Regime.ordered (strict : Bool) : Regime strict where
  code _ := True
  store := Store.Ordered
  value v := v.Every Record.Ordered
  readable _ := True
  writable _ := True
  inst _ i := NameMap.Sorted i.type.fields
  code_child _ _ := trivial
  readable_of_writable _ := trivial
  value_plain hv := .plain hv
  value_func _ _ := .func _
  code_func _ := trivial
  inst_of_instantiate _ hs _ htemplate hi :=
    StructType.sorted_fields_instantiate (hs.lookupType htemplate) hi
  value_struct _ hsorted hfields _ _ := .struct hsorted hfields
  value_field hv := (Value.every_struct_iff.mp hv).2
  value_update hrecord hv _ :=
    hrecord.insert hv ((Value.every_struct_iff.mp hrecord).1.insert _ _)
  value_lookup hs _ hv := hs.lookupVariable hv
  store_define name _ hs _ hv := hs.defineVariable _ name hv
  store_defineType _ hs _ := hs.defineType _ (NameMap.sorted_ofList _)
  store_assign hs _ hv _ _ := hs.defineVariable _ _ hv
  enter hs _ := ⟨hs.add _, trivial⟩

namespace Session

variable {config : Config} {output : Output} {s : Session}

/-- In a new session there is no struct whose fields could be out of order. -/
theorem ordered_new (config : Config) (output : Output) :
    (Session.new config output).machine.store.Ordered :=
  (Store.Every.empty _ _).add none

/-- At every moment of every run the structs of the store have their fields in order. -/
theorem Meets.ordered (h : Reachable config output s) {bound : Nat} {text : String} {x : Moment}
    (hmeets : s.Meets bound text x) : x.machine.store.Ordered := by
  obtain ⟨texts, hafter⟩ := h.exists_after
  exact (hmeets.admits hafter (.ordered config.strict) (fun _ => trivial)
    (ordered_new config output) fun _ _ _ _ _ _ _ _ => trivial).1

end Session

end StructScript
