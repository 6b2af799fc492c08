import StructScript.Proofs.Evaluation.Locality
import StructScript.Proofs.Evaluation.Unnoticed

/-!
# Names that are not mentioned do not matter

A variable or a type that neither a program nor the functions within its reach mention can be bound
in the scope where the program runs, and nothing but that binding is different
(`Machine.run_extend`). Variables and types have names of their own: a type may be called like a
variable that the program uses, and the other way round.

The functions within reach are those of the scopes that can be reached. `Regime.within` joins the
closed set of scopes that carries locality with the code of the functions in it.
-/

namespace StructScript

/-- The piece of code or one that stands in it, at any depth, names what goes by the key. -/
def Ast.Part.Mentions (part : Ast.Part) (key : Key) : Prop :=
  ∃ inner : Ast.Part, inner.In part ∧ inner.Names key

namespace Ast.Part.Mentions

variable {part whole : Ast.Part} {key : Key}

/-- What a piece names itself it mentions. -/
theorem of_names (h : part.Names key) : part.Mentions key := ⟨part, .refl, h⟩

/-- What a part of a piece mentions the piece mentions. -/
theorem of_child (hchild : part.ChildOf whole) (h : part.Mentions key) : whole.Mentions key := by
  obtain ⟨inner, hin, hnames⟩ := h
  exact ⟨inner, hin.tail hchild, hnames⟩

/-- What a piece mentions it names itself, or a part of it mentions it. -/
theorem cases_part (h : whole.Mentions key) :
    whole.Names key ∨ ∃ part : Ast.Part, part.ChildOf whole ∧ part.Mentions key := by
  obtain ⟨inner, hin, hnames⟩ := h
  rcases hin.cases_tail with rfl | ⟨part, hpart, hchild⟩
  · exact .inl hnames
  · exact .inr ⟨part, hchild, inner, hpart, hnames⟩

end Ast.Part.Mentions

/-- A binding of a scope. -/
inductive Binding where
  | var (name : String) (v : Value)
  | type (name : String) (template : StructType)

namespace Binding

/-- What the binding is found by. -/
def key : Binding → Key
  | var name _ => .var name
  | type name _ => .type name

/-- The scope with the binding. -/
def addTo (b : Binding) (scope : Scope) : Scope :=
  match b with
  | var name v => { scope with vars := scope.vars.insert name v }
  | type name template => { scope with types := scope.types.insert name template }

end Binding

namespace Store

variable {s : Store} {id root : ScopeId} {name : String} {b : Binding}

/-- The store with a binding made in a scope. -/
def extend (id : ScopeId) (b : Binding) (s : Store) : Store :=
  match b with
  | .var name v => s.defineVariable id name v
  | .type name type => s.defineType id name type

/-- To extend a scope is to change this scope alone. -/
theorem extend_eq (id : ScopeId) (b : Binding) (s : Store) :
    s.extend id b = s.modifyScope id b.addTo := by
  cases b <;> rfl

/-! ### Bindings that go by other keys -/

/-- A binding by another key does not change where a variable is found. -/
theorem binder?_extend_of_ne (h : b.key ≠ .var name) (s : Store) (root id : ScopeId) :
    (s.extend root b).binder? id name = s.binder? id name := by
  cases b with
  | var other v =>
      have hne : name ≠ other := fun heq => h (congrArg Key.var heq.symm)
      exact binder?_defineVariable_of_ne hne s root id v
  | type other type => exact binder?_defineType s root id other name type

/-- Nor does it change where a type is found. -/
theorem lookupType_extend_of_ne (h : b.key ≠ .type name) (s : Store) (root id : ScopeId) :
    (s.extend root b).lookupType id name = s.lookupType id name := by
  cases b with
  | var other v => exact lookupType_defineVariable s root id other name v
  | type other type =>
      have hne : name ≠ other := fun heq => h (congrArg Key.type heq.symm)
      exact lookupType_defineType_of_ne hne s root id type

/-- Bindings that go by different keys may be made in any order, and so may bindings of different
scopes. -/
theorem extend_comm {c : Binding} (h : id = root → c.key ≠ b.key) (s : Store) :
    (s.extend root b).extend id c = (s.extend id c).extend root b := by
  simp only [extend_eq]
  refine modifyScope_comm (fun hid scope => ?_) s
  cases b with
  | var name v =>
      cases c with
      | var other w =>
          have hne : name ≠ other := fun heq => h hid.symm (congrArg Key.var heq.symm)
          exact congrArg (Scope.mk scope.types · scope.parent)
            (NameMap.insert_comm hne v w scope.vars)
      | type other type => rfl
  | type name type =>
      cases c with
      | var other w => rfl
      | type other type' =>
          have hne : name ≠ other := fun heq => h hid.symm (congrArg Key.type heq.symm)
          exact congrArg (Scope.mk · scope.vars scope.parent)
            (NameMap.insert_comm hne type type' scope.types)

/-- A scope with variables can be made before another scope gets a binding, or after. -/
theorem extend_addChild (h : root.index < s.scopes.size) (parent : ScopeId)
    (bindings : List (String × Value)) :
    ((s.extend root b).addChild parent).1 = (s.addChild parent).1 ∧
      ((s.extend root b).addChild parent).2.defineAll (s.addChild parent).1 bindings =
        ((s.addChild parent).2.defineAll (s.addChild parent).1 bindings).extend root b := by
  have hadd : (s.extend root b).addChild parent =
      ((s.addChild parent).1, (s.addChild parent).2.extend root b) := by
    rw [extend_eq, extend_eq]
    exact modifyScope_add h (some parent)
  have hne : (s.addChild parent).1 ≠ root :=
    fun heq => Nat.ne_of_gt h (congrArg ScopeId.index heq)
  rw [hadd]
  refine ⟨rfl, ?_⟩
  generalize (s.addChild parent).2 = t
  induction bindings generalizing t with
  | nil => rfl
  | cons first rest ih =>
      have hfirst : (t.extend root b).defineVariable (s.addChild parent).1 first.1 first.2 =
          (t.defineVariable (s.addChild parent).1 first.1 first.2).extend root b :=
        extend_comm (c := .var first.1 first.2) (fun heq => absurd heq hne) t
      change defineAll _ rest ((t.extend root b).defineVariable _ first.1 first.2) = _
      rw [hfirst]
      exact ih _

/-! ### The functions of some scopes -/

/-- A variable of a scope that can be reached holds the function. -/
def Holds (s : Store) (start : ScopeId) (f : Closure) : Prop :=
  ∃ id name v, s.Reachable start id ∧ (s.vars id).find? name = some v ∧ v.Contains f

/-- The functions in the variables of the scopes belong to the code. -/
def CodeWithin (p : ScopeId → Prop) (code : Ast.Part → Prop) (s : Store) : Prop :=
  ∀ id, p id → ∀ name v, (s.vars id).find? name = some v → v.CodeIn code

namespace CodeWithin

variable {p : ScopeId → Prop} {code : Ast.Part → Prop}

/-- A value of the code may be defined in any scope. -/
theorem defineVariable (h : s.CodeWithin p code) {v : Value} (hv : v.CodeIn code) (id : ScopeId)
    (name : String) : (s.defineVariable id name v).CodeWithin p code := by
  intro other hother key w hw
  rcases cases_of_find?_defineVariable hw with ⟨-, -, rfl⟩ | hw
  · exact hv
  · exact h other hother key w hw

/-- Types hold no functions. -/
theorem defineType (h : s.CodeWithin p code) (id : ScopeId) (name : String) (type : StructType) :
    (s.defineType id name type).CodeWithin p code := by
  intro other hother key w hw
  rw [vars_defineType] at hw
  exact h other hother key w hw

/-- Nor does a new scope. -/
theorem addChild (h : s.CodeWithin p code) (parent : ScopeId) :
    (s.addChild parent).2.CodeWithin p code := by
  intro other hother key w hw
  rw [Store.addChild, vars_add] at hw
  exact h other hother key w hw

/-- A variable that is found among those scopes has a value of the code. -/
theorem lookupVariable (h : s.CodeWithin p code) (hchain : ∀ other ∈ s.chain id, p other) {v : Value}
    (hv : s.lookupVariable id name = some v) : v.CodeIn code := by
  obtain ⟨binder, hbinder, hfind⟩ := List.exists_of_findSome?_eq_some hv
  exact h binder (hchain binder hbinder) name v hfind

end CodeWithin

end Store

/-- The scopes of `p`, to which all belong that `base` does not have, lead to no others, and the
functions in them belong to the code. -/
def Regime.within (strict : Bool) (base : Store) (p : ScopeId → Prop)
    (hnew : ∀ id : ScopeId, base.scopes.size ≤ id.index → p id) (code : Ast.Part → Prop)
    (hchild : ∀ {part whole : Ast.Part}, part.ChildOf whole → code whole → code part) :
    Regime strict :=
  let D := Discipline.locality strict base p hnew
  { code := code
    store := fun s => D.store s ∧ s.CodeWithin p code
    value := fun v => D.value v ∧ v.CodeIn code
    readable := p
    writable := p
    inst := fun _ _ => True
    code_child := hchild
    readable_of_writable := id
    value_plain := fun hv => ⟨D.value_plain hv, hv.codeIn⟩
    value_func := fun hcode hid => ⟨D.value_func _ hid, Value.codeIn_func_iff.mpr hcode⟩
    code_func := fun hf => Value.codeIn_func_iff.mp hf.2
    inst_of_instantiate := fun _ _ _ _ _ => trivial
    value_struct := fun _ _ hfields htypes hall =>
      ⟨D.value_struct (fun entry h => (hfields entry h).1) htypes hall,
        Value.codeIn_struct_iff.mpr fun entry h => (hfields entry h).2⟩
    value_field := fun hv entry hentry =>
      ⟨D.value_field hv.1 entry hentry, Value.codeIn_struct_iff.mp hv.2 entry hentry⟩
    value_update := fun hrecord hv htype =>
      ⟨D.value_update hrecord.1 hv.1 htype, hrecord.2.insert hv.2 _⟩
    value_lookup := fun hs hid hv =>
      ⟨D.value_lookup hs.1 hid hv, hs.2.lookupVariable (hs.1.2.1.chain hid) hv⟩
    store_define := fun name _ hs hid hv =>
      ⟨D.store_define name hs.1 hid hv.1, hs.2.defineVariable hv.2 _ name⟩
    store_defineType := fun _ hs hid => ⟨D.store_defineType _ _ hs.1 hid, hs.2.defineType _ _ _⟩
    store_assign := fun hs hid hv hbinder htype =>
      ⟨D.store_assign hs.1 hid hv.1 hbinder htype, hs.2.defineVariable hv.2 _ _⟩
    enter := fun hs hf =>
      ⟨⟨(D.enter hs.1 hf.1).1, hs.2.addChild _⟩, (D.enter hs.1 hf.1).2⟩ }

/-- Code that does not mention a binding of an old scope does not notice it. -/
theorem Regime.unnoticed_extend (strict : Bool) {base : Store} {p : ScopeId → Prop}
    (hnew : ∀ id : ScopeId, base.scopes.size ≤ id.index → p id) {root : ScopeId} {b : Binding}
    (hroot : root.index < base.scopes.size) :
    (Regime.within strict base p hnew (fun part => ¬ part.Mentions b.key)
      fun hchild h hpart => h (hpart.of_child hchild)).Unnoticed (Store.extend root b) where
  binder? _ hcode hname id :=
    Store.binder?_extend_of_ne (fun heq => hcode (heq ▸ .of_names hname)) _ root id
  lookupType _ hcode hname id :=
    Store.lookupType_extend_of_ne (fun heq => hcode (heq ▸ .of_names hname)) _ root id
  defineVariable {_ _ name} _ hcode hname _ v :=
    Store.extend_comm (c := .var name v)
      (fun _ (heq : Key.var name = b.key) => hcode (heq ▸ .of_names hname)) _
  defineType {_ _ name} _ hcode hname _ type :=
    Store.extend_comm (c := .type name type)
      (fun _ (heq : Key.type name = b.key) => hcode (heq ▸ .of_names hname)) _
  enter hs _ bindings := Store.extend_addChild (Nat.lt_of_lt_of_le hroot hs.1.1) _ bindings

namespace Machine

/-- **Names that are not mentioned do not matter.** If neither the statements nor the functions
within reach of the scope mention a variable or a type, then binding it in the scope changes nothing
but that binding: the statements end in the same result, with the same output and the same calls, and
in the store that they would have left, with the binding added.

A parameter of that name is no mention: it binds in the scope of its call. And variables and types do
not affect each other, whatever their names. -/
theorem run_extend (strict : Bool) (bound : Nat) (root : ScopeId) (stmts : List Ast.Stmt)
    (m : Machine) :
    (∀ b : Binding, root.index < m.store.scopes.size →
      (∀ stmt ∈ stmts, ¬ (Ast.Part.stmt stmt).Mentions b.key) →
      (∀ f, m.store.Holds root f → ¬ (Ast.Part.func f.definition).Mentions b.key) →
      run strict bound root stmts (m.mapStore (.extend root b)) =
        (run strict bound root stmts m).map fun x => (x.1, x.2.mapStore (.extend root b))) ∧
    ∀ (s : Store) (id other : ScopeId) (name key : String) (v : Value) (type : StructType),
      (s.defineVariable id name v).lookupType other key = s.lookupType other key ∧
        (s.defineType id name type).lookupVariable other key = s.lookupVariable other key := by
  refine ⟨fun b hroot hstmts hbodies => ?_, fun s id other name key v type =>
    ⟨Store.lookupType_defineVariable .., Store.lookupVariable_defineType ..⟩⟩
  let p : ScopeId → Prop := fun id =>
    m.store.scopes.size ≤ id.index ∨ m.store.Reachable root id
  have hstore : m.store.CodeWithin p fun part => ¬ part.Mentions b.key := by
    intro id hid name v hv f hf
    obtain ⟨scope, hscope, -⟩ := Store.exists_of_find?_vars hv
    have hreach := hid.resolve_left (Nat.not_le.mpr (Store.lt_size_of_scope? hscope))
    exact hbodies f ⟨id, name, v, hreach, hv, hf⟩
  have hnew : ∀ id : ScopeId, m.store.scopes.size ≤ id.index → p id := fun _ h => .inl h
  have hblind := Regime.blind_run (Regime.unnoticed_extend strict hnew hroot) bound (.inr .refl)
    stmts hstmts
  exact hblind m ⟨⟨Nat.le_refl _, m.store.closed_reachable root, fun _ _ => rfl⟩, hstore⟩

/-- A call of `f` mentions the variable `f` only. -/
theorem eq_of_mentions_callOf {key : Key}
    (h : (Ast.Part.stmt (.expr (.callOf "f"))).Mentions key) : key = .var "f" := by
  rcases h.cases_part with hstmt | ⟨part, hexpr, h⟩
  · cases hstmt
  · cases hexpr
    rcases h.cases_part with hcall | ⟨arg, harg, -⟩
    · cases hcall
      rfl
    · cases harg with
      | arg hmem => exact absurd hmem List.not_mem_nil

/-- The functions within reach of the first scope mention the variable `x` only. -/
theorem eq_of_mentions_withSetter {f : Closure} (hf : withSetter.store.Holds ⟨0⟩ f) {key : Key}
    (h : (Ast.Part.func f.definition).Mentions key) : key = .var "x" := by
  obtain ⟨id, name, v, hid, hv, hf⟩ := hf
  cases closed_withSetter.of_reachable rfl hid
  rcases List.mem_cons.mp (NameMap.mem_of_find? hv) with heq | hmem
  · cases heq
    cases hf
    rcases h.cases_part with hfunc | ⟨part, hbody, h⟩
    · cases hfunc
    · cases hbody with
      | body hmem =>
          cases List.mem_singleton.mp hmem
          rcases h.cases_part with hassign | ⟨value, hvalue, h⟩
          · cases hassign
            rfl
          · cases hvalue
            rcases h.cases_part with hliteral | ⟨part, hpart, -⟩
            · cases hliteral
            · cases hpart
  · cases List.mem_singleton.mp hmem
    cases hf

/-- A type that is called like the variable that `f` sets does not matter. -/
theorem run_setter_extend :
    ∃ r t, run false 1 ⟨0⟩ [.expr (.callOf "f")] withSetter = some (r, t) ∧
      t.store.lookupVariable ⟨0⟩ "x" = some (.int 2) ∧
      run false 1 ⟨0⟩ [.expr (.callOf "f")]
          (withSetter.mapStore (.extend ⟨0⟩ (.type "x" ⟨"x", [], []⟩))) =
        some (r, t.mapStore (.extend ⟨0⟩ (.type "x" ⟨"x", [], []⟩))) := by
  obtain ⟨r, t, h, hx⟩ : ∃ r t, run false 1 ⟨0⟩ [.expr (.callOf "f")] withSetter = some (r, t) ∧
      t.store.lookupVariable ⟨0⟩ "x" = some (.int 2) := ⟨_, _, rfl, rfl⟩
  refine ⟨r, t, h, hx, ?_⟩
  have hextend := (run_extend false 1 ⟨0⟩ [.expr (.callOf "f")] withSetter).1
    (.type "x" ⟨"x", [], []⟩) (by decide)
    (fun stmt hstmt hmentions => by
      cases List.mem_singleton.mp hstmt
      cases eq_of_mentions_callOf hmentions)
    (fun f hf hmentions => by cases eq_of_mentions_withSetter hf hmentions)
  rw [hextend, h]
  rfl

end Machine

end StructScript
