import StructScript.Proofs.Evaluation.Regime

/-!
# Disciplines: what every run keeps

A `Discipline` is a regime that admits all code: it says which stores may be met while programs run,
which values may be bound or returned, in which scopes expressions are evaluated and in which
statements are run, and its closure conditions speak of every function, every type and every struct.
`Discipline.regime` is the regime that it gives. So every evaluation keeps a discipline:
`Discipline.keeps_eval` for the expressions, `Discipline.keptBy_call` for the rules of the language
and `Discipline.keeps_run` for statements.

An invariant of the evaluator that does not depend on the code is proved by giving the discipline
that states it.
-/

namespace StructScript

/-- What is kept while programs run. Struct literals give all fields where `strict` is set. -/
structure Discipline (strict : Bool) where
  /-- The stores that may be met. -/
  store : Store → Prop
  /-- The values that may be bound and returned. -/
  value : Value → Prop
  /-- The scopes in which expressions are evaluated. -/
  readable : ScopeId → Prop
  /-- The scopes in which statements are run. -/
  writable : ScopeId → Prop
  readable_of_writable : ∀ {id : ScopeId}, writable id → readable id
  value_plain : ∀ {v : Value}, v.Plain → value v
  value_func : ∀ {id : ScopeId} (f : Ast.FuncDef), readable id → value (.func ⟨f, id⟩)
  value_struct : ∀ {record : Record Value}, (∀ entry ∈ record.fields, value entry.2) →
    (∀ entry ∈ record.fields, ∃ type, record.fieldTypes.find? entry.1 = some type ∧
      entry.2.typeName = type.name) →
    (strict = true → ∀ name ∈ record.fieldTypes.names, NameMap.contains record.fields name = true) →
    value (.struct record)
  /-- What a struct holds may be bound and returned itself. -/
  value_field : ∀ {record : Record Value}, value (.struct record) →
    ∀ entry ∈ record.fields, value entry.2
  /-- A field of a struct may be given a value of its declared type, or of the type of the value
  that it holds. -/
  value_update : ∀ {record : Record Value} {name : String} {v : Value}, value (.struct record) →
    value v →
    ((∃ type, record.fieldTypes.find? name = some type ∧ v.typeName = type.name) ∨
      ∃ old, NameMap.find? record.fields name = some old ∧ v.typeName = old.typeName) →
    value (.struct { record with fields := NameMap.insert name v record.fields })
  value_lookup : ∀ {s : Store} {id : ScopeId} {name : String} {v : Value}, store s → readable id →
    s.lookupVariable id name = some v → value v
  store_define : ∀ {s : Store} {id : ScopeId} (name : String) {v : Value}, store s → writable id →
    value v → store (s.defineVariable id name v)
  store_defineType : ∀ {s : Store} {id : ScopeId} (name : String) (type : StructType), store s →
    writable id → store (s.defineType id name type)
  store_assign : ∀ {s : Store} {id binder : ScopeId} {name : String} {v old : Value}, store s →
    readable id → value v → s.binder? id name = some (binder, old) → old.typeName = v.typeName →
    store (s.defineVariable binder name v)
  /-- A function is run in a new scope, which may be changed. -/
  enter : ∀ {s : Store} {f : Closure}, store s → value (.func f) →
    store (s.addChild f.scope).2 ∧ writable (s.addChild f.scope).1

namespace Discipline

variable {strict : Bool} {α : Type}

/-- The regime of all code. -/
def regime (D : Discipline strict) : Regime strict where
  code _ := True
  store := D.store
  value := D.value
  readable := D.readable
  writable := D.writable
  inst _ _ := True
  code_child _ _ := trivial
  readable_of_writable := D.readable_of_writable
  value_plain := D.value_plain
  value_func _ hid := D.value_func _ hid
  code_func _ := trivial
  inst_of_instantiate _ _ _ _ _ := trivial
  value_struct _ _ hfields htypes hall := D.value_struct hfields htypes hall
  value_field := D.value_field
  value_update := D.value_update
  value_lookup := D.value_lookup
  store_define := D.store_define
  store_defineType _ hs hid := D.store_defineType _ _ hs hid
  store_assign := D.store_assign
  enter := D.enter

/-- From every store of the discipline the computation ends in such a store, and if it gives a
value then one in `post`. -/
def Keeps (D : Discipline strict) (m : Eval α) (post : α → Prop) : Prop :=
  ∀ s r t, D.store s.store → m s = some (r, t) →
    D.store t.store ∧ ∀ a, r = .ok a → post a

/-- Rules under which a discipline is kept: they ask for all fields where it says so, and their
calls keep it. -/
structure KeptBy (D : Discipline strict) (rules : Rules) : Prop where
  strict_eq : rules.strict = strict
  keeps_call : ∀ (name : String) {f : Closure} {args : List Value} (span : Span),
    D.value (.func f) → (∀ v ∈ args, D.value v) → D.Keeps (rules.call name f args span) D.value

/-- How a list of statements may end: a returned value may be bound. -/
def Ends (D : Discipline strict) (outcome : Outcome) : Prop :=
  ∀ v, outcome.returned? = some v → D.value v

variable {D : Discipline strict} {rules : Rules} {scope : ScopeId}

/-- Evaluating an expression keeps the discipline. -/
theorem keeps_eval (hrules : D.KeptBy rules) (hscope : D.readable scope) (e : Ast.Expr) :
    D.Keeps (e.eval rules scope) D.value :=
  have hregime : D.regime.KeptBy rules := ⟨hrules.strict_eq, hrules.keeps_call⟩
  Regime.keeps_eval hregime hscope e trivial

/-- The rules of the language keep every discipline. -/
theorem keptBy_call (D : Discipline strict) (bound : Nat) :
    D.KeptBy ⟨strict, Closure.call strict bound⟩ :=
  ⟨rfl, (D.regime.keptBy_call bound).keeps_call⟩

/-- Running statements keeps the discipline, with any bound on the nesting of calls. -/
theorem keeps_run (D : Discipline strict) (bound : Nat) (hscope : D.writable scope)
    (stmts : List Ast.Stmt) : D.Keeps (Machine.run strict bound scope stmts) D.Ends :=
  D.regime.keeps_run bound hscope stmts fun _ _ => trivial

end Discipline

end StructScript
