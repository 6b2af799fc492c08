import StructScript.Proofs.Evaluation.Discipline
import StructScript.Proofs.Store.Contents
import StructScript.Session

/-!
# Struct values conform to their declared types

A struct value carries the types of its fields. A struct literal checks each initialiser against
them, and so does the assignment of a field; the assignment of a field deeper inside replaces a
struct by one of the same type. So in every state that a session comes to, each struct value, also
inside another one, has declared fields only, each of the declared type (`Record.Conforms`). Where
struct literals have to give every field, no declared field is ever absent.

Main result: `conforms_of_reachable`, for the sessions that `Session.Reachable` describes.
-/

namespace StructScript

/-- The fields that have been given are declared, and of the declared types. Where `strict` is set
they are all the declared ones. -/
structure Record.Conforms (strict : Bool) (record : Record Value) : Prop where
  declared : ∀ entry ∈ record.fields, ∃ type, record.fieldTypes.find? entry.1 = some type ∧
    entry.2.typeName = type.name
  complete : strict = true → ∀ name,
    name ∈ NameMap.names record.fields ↔ name ∈ record.fieldTypes.names

/-- Every struct in a value conforms to its declared types, at any depth. -/
inductive Value.Conforms (strict : Bool) : Value → Prop where
  | plain {v : Value} (hv : v.Plain) : Conforms strict v
  | func (f : Closure) : Conforms strict (.func f)
  | struct {record : Record Value} (h : record.Conforms strict)
      (hfields : ∀ entry ∈ record.fields, entry.2.Conforms strict) :
      Conforms strict (.struct record)

/-- What conforms of a struct. -/
theorem Value.conforms_struct_iff {strict : Bool} {record : Record Value} :
    (Value.struct record).Conforms strict ↔
      record.Conforms strict ∧ ∀ entry ∈ record.fields, entry.2.Conforms strict := by
  constructor
  · intro h
    cases h with
    | plain hv => exact hv.elim
    | struct h hfields => exact ⟨h, hfields⟩
  · exact fun h => .struct h.1 h.2

/-- Giving a field a value of its declared type, or one of the type of the value that it holds. -/
theorem Record.Conforms.insert {strict : Bool} {record : Record Value} {name : String} {v : Value}
    (h : record.Conforms strict)
    (hv : (∃ type, record.fieldTypes.find? name = some type ∧ v.typeName = type.name) ∨
      ∃ old, NameMap.find? record.fields name = some old ∧ v.typeName = old.typeName) :
    Record.Conforms strict { record with fields := NameMap.insert name v record.fields } := by
  have hdeclared : ∃ type, record.fieldTypes.find? name = some type ∧ v.typeName = type.name := by
    rcases hv with hv | ⟨old, hold, htype⟩
    · exact hv
    · obtain ⟨type, hfind, hname⟩ := h.declared _ (NameMap.mem_of_find? hold)
      exact ⟨type, hfind, htype.trans hname⟩
  refine ⟨fun entry hentry => ?_, fun hstrict other => ?_⟩
  · rcases NameMap.mem_insert hentry with rfl | hentry
    · exact hdeclared
    · exact h.declared entry hentry
  · obtain ⟨type, hfind, -⟩ := hdeclared
    by_cases hother : other = name
    · subst hother
      have hnew := NameMap.mem_names_iff.mpr ⟨v, NameMap.find?_insert_self other v record.fields⟩
      exact iff_of_true hnew (NameMap.mem_names_iff.mpr ⟨type, hfind⟩)
    · rw [← h.complete hstrict other, NameMap.mem_names_iff, NameMap.mem_names_iff]
      rw [NameMap.find?_insert_of_ne hother]

/-- Every variable of every scope holds a value that conforms. -/
def Store.Conforms (strict : Bool) (s : Store) : Prop :=
  ∀ id scope, s.scope? id = some scope → ∀ entry ∈ scope.vars, entry.2.Conforms strict

namespace Store.Conforms

variable {strict : Bool} {s : Store}

/-- Conforming stores are those whose values all conform. -/
theorem iff_every : s.Conforms strict ↔ s.Every (·.Conforms strict) fun _ _ => True :=
  ⟨fun h id scope hscope => ⟨h id scope hscope, fun _ _ => trivial⟩,
    fun h id scope hscope => (h id scope hscope).1⟩

/-- A new scope holds no values. -/
theorem add (h : s.Conforms strict) (parent : Option ScopeId) :
    (s.add parent).2.Conforms strict :=
  iff_every.mpr ((iff_every.mp h).add parent)

/-- A conforming value may be defined. -/
theorem defineVariable (h : s.Conforms strict) (id : ScopeId) (name : String) {v : Value}
    (hv : v.Conforms strict) : (s.defineVariable id name v).Conforms strict :=
  iff_every.mpr ((iff_every.mp h).defineVariable id name hv)

/-- Types are no values. -/
theorem defineType (h : s.Conforms strict) (id : ScopeId) (name : String) (type : StructType) :
    (s.defineType id name type).Conforms strict :=
  iff_every.mpr ((iff_every.mp h).defineType id trivial)

end Store.Conforms

/-- All values conform, in every scope. -/
def Discipline.conformity (strict : Bool) : Discipline strict where
  store s := s.Conforms strict
  value v := v.Conforms strict
  readable _ := True
  writable _ := True
  readable_of_writable _ := trivial
  value_plain hv := .plain hv
  value_func _ _ := .func _
  value_struct {record} hfields hdeclared hcomplete := by
    refine .struct ⟨hdeclared, fun hstrict name => ⟨fun hname => ?_, fun hname => ?_⟩⟩ hfields
    · obtain ⟨v, hv⟩ := NameMap.mem_names_iff.mp hname
      obtain ⟨type, htype, -⟩ := hdeclared _ (NameMap.mem_of_find? hv)
      exact NameMap.mem_names_iff.mpr ⟨type, htype⟩
    · exact NameMap.mem_names_iff.mpr (Option.isSome_iff_exists.mp (hcomplete hstrict name hname))
  value_field hv := (Value.conforms_struct_iff.mp hv).2
  value_update hrecord hv htype := by
    obtain ⟨hconforms, hfields⟩ := Value.conforms_struct_iff.mp hrecord
    refine .struct (hconforms.insert htype) fun entry hentry => ?_
    rcases NameMap.mem_insert hentry with rfl | hentry
    · exact hv
    · exact hfields entry hentry
  value_lookup hs _ hv := (Store.Conforms.iff_every.mp hs).lookupVariable hv
  store_define name _ hs _ hv := hs.defineVariable _ name hv
  store_defineType name type hs _ := hs.defineType _ name type
  store_assign hs _ hv _ _ := hs.defineVariable _ _ hv
  enter hs _ := ⟨hs.add _, trivial⟩

namespace Session

/-- The sessions that running source texts leads to from a session without bindings, also texts
that fail. -/
inductive Reachable (config : Config) (output : Output) : Session → Prop where
  | new : Reachable config output (Session.new config output)
  | run {s t : Session} {bound : Nat} {text : String} {r : Except Failure (Option Value)}
      (h : Reachable config output s) (hrun : s.run bound text = some (r, t)) :
      Reachable config output t

/-- A text that cannot be read is not run. -/
theorem runIn_of_unread {s : Session} {text : String} {failure : Failure}
    (h : Ast.Program.ofSource (s.sources + 1) s.config.file text = .error failure) (bound : Nat)
    (scope : ScopeId) : s.runIn bound scope text =
      some (.error failure, { s with sources := s.sources + 1 }) := by
  simp only [runIn, h]

/-- What a run of the statements of a text gives the session. -/
def ended (s : Session) (x : Except EvalError Outcome × Machine) :
    Except Failure (Option Value) × Session :=
  (match x.1 with
    | .ok outcome => .ok outcome.returned?
    | .error e => .error (.eval e),
    { s with sources := s.sources + 1, machine := x.2 })

/-- A text that can be read is run by running its statements. -/
theorem runIn_of_read {s : Session} {text : String} {program : Ast.Program}
    (h : Ast.Program.ofSource (s.sources + 1) s.config.file text = .ok program) (bound : Nat)
    (scope : ScopeId) : s.runIn bound scope text =
      (Machine.run s.config.strict bound scope program.stmts s.machine).map s.ended := by
  simp only [runIn, onMachine, h]
  rcases Machine.run s.config.strict bound scope program.stmts s.machine with
    _ | ⟨_ | _, _⟩ <;> rfl

/-- A run of a text that cannot be read leaves the machine as it was, any other runs its
statements. -/
theorem run_cases {s t : Session} {bound : Nat} {text : String}
    {r : Except Failure (Option Value)} (h : s.run bound text = some (r, t)) :
    t.config = s.config ∧ t.root = s.root ∧
      ((∃ failure, r = .error failure ∧ t.machine = s.machine) ∨
        ∃ program outcome,
          Ast.Program.ofSource (s.sources + 1) s.config.file text = .ok program ∧
          Machine.run s.config.strict bound s.root program.stmts s.machine =
            some (outcome, t.machine) ∧
          r = match outcome with
            | .ok outcome => .ok outcome.returned?
            | .error e => .error (.eval e)) := by
  simp only [run, runIn, onMachine] at h
  split at h
  · cases h
    exact ⟨rfl, rfl, .inl ⟨_, rfl, rfl⟩⟩
  · rename_i program hprogram
    rcases hm : Machine.run s.config.strict bound s.root program.stmts s.machine with
      _ | ⟨e | outcome, machine⟩
    · simp [hm] at h
    · simp only [hm, Option.some.injEq, Prod.mk.injEq] at h
      obtain ⟨rfl, rfl⟩ := h
      exact ⟨rfl, rfl, .inr ⟨program, .error e, hprogram, hm, rfl⟩⟩
    · simp only [hm, Option.some.injEq, Prod.mk.injEq] at h
      obtain ⟨rfl, rfl⟩ := h
      exact ⟨rfl, rfl, .inr ⟨program, .ok outcome, hprogram, hm, rfl⟩⟩

/-- A run keeps the values of a store conforming, and returns such a value. -/
theorem conforms_run {s t : Session} {bound : Nat} {text : String}
    {r : Except Failure (Option Value)} (hs : s.machine.store.Conforms s.config.strict)
    (h : s.run bound text = some (r, t)) :
    t.machine.store.Conforms s.config.strict ∧
      ∀ v, r = .ok (some v) → v.Conforms s.config.strict := by
  obtain ⟨-, -, ⟨failure, rfl, hm⟩ | ⟨program, outcome, -, hm, rfl⟩⟩ := run_cases h
  · exact ⟨hm ▸ hs, fun v hv => by cases hv⟩
  · let D := Discipline.conformity s.config.strict
    have hkeeps := D.keeps_run bound trivial program.stmts s.machine outcome t.machine hs hm
    refine ⟨hkeeps.1, fun v hv => ?_⟩
    cases outcome with
    | error e => cases hv
    | ok outcome =>
        simp only [Except.ok.injEq] at hv
        exact hkeeps.2 outcome rfl v hv

/-- A session goes on with the settings it began with. -/
theorem Reachable.config_eq {config : Config} {output : Output} {s : Session}
    (h : Reachable config output s) : s.config = config := by
  induction h with
  | new => rfl
  | run h hrun ih => exact (run_cases hrun).1.trans ih

/-- The stores of reachable sessions conform. -/
theorem Reachable.store_conforms {config : Config} {output : Output} {s : Session}
    (h : Reachable config output s) : s.machine.store.Conforms config.strict := by
  induction h with
  | new =>
      exact Store.Conforms.add (Store.Conforms.iff_every.mpr (.empty _ _)) none
  | run h hrun ih =>
      rw [← h.config_eq] at ih ⊢
      exact (conforms_run ih hrun).1

/-- **Struct values conform.** In every state that a session comes to, the values of all variables
of all scopes conform to their declared types, and so does what the next run returns. -/
theorem conforms_of_reachable {config : Config} {output : Output} {s : Session}
    (h : Reachable config output s) :
    (∀ id scope, s.machine.store.scope? id = some scope →
      ∀ entry ∈ scope.vars, entry.2.Conforms config.strict) ∧
    ∀ bound text v t, s.run bound text = some (.ok (some v), t) → v.Conforms config.strict := by
  have hstore := h.store_conforms
  refine ⟨hstore, fun bound text v t hrun => ?_⟩
  rw [← h.config_eq] at hstore ⊢
  exact (conforms_run hstore hrun).2 v rfl

/-- Whether a run has returned a struct. -/
def returnsStruct : Except Failure (Option Value) → Bool
  | .ok (some (.struct _)) => true
  | _ => false

/-- After a text that gives a field another value, and fails at the next one, the struct that it
leaves behind conforms. -/
theorem conforms_after_failed_update :
    ∃ s record t, Reachable ⟨"", some 8, true⟩ .silent s ∧
      s.run 9 "return p;" = some (.ok (some (.struct record)), t) ∧
      (Value.struct record).Conforms true := by
  let first := (new ⟨"", some 8, true⟩ .silent).run 9
    "type P = struct { x int }; let p = P { x: 1 }; set p->x = 2; set p->x = true;"
  have hruns : first.any (fun p => p.1.toOption.isNone &&
      (p.2.run 9 "return p;").any fun q => returnsStruct q.1) = true := by decide +kernel
  obtain ⟨⟨r, s⟩, hs, hnext⟩ := (Option.any_eq_true _ _).mp hruns
  obtain ⟨-, hnext⟩ := Bool.and_eq_true_iff.mp hnext
  obtain ⟨⟨q, t⟩, ht, hq⟩ := (Option.any_eq_true _ _).mp hnext
  have hreach : Reachable ⟨"", some 8, true⟩ .silent s := Reachable.new.run hs
  unfold returnsStruct at hq
  split at hq
  · rename_i record heq
    rw [show q = _ from heq] at ht
    exact ⟨s, record, t, hreach, ht, (conforms_of_reachable hreach).2 9 _ _ t ht⟩
  · cases hq

end Session

end StructScript
