import StructScript.Proofs.Evaluation.Isolation

/-!
# Programs change only what they can reach

From a scope one can reach its parent and the scopes captured by the functions in its variables, and
so on (`Store.Reachable`). A program that runs in a scope leaves all other scopes as they are.

The set that carries the proof is larger than the scopes that can be reached: it holds those that
are made on the way as well. `Discipline.locality` says of such a set that its scopes lead to no
scope outside of it, and that the scopes outside are those of the store before.

Main result: `unreachable_scope_unchanged`.
-/

namespace StructScript

/-- The scopes captured by the functions that occur in a value, at any depth. -/
inductive Value.Captures : Value → ScopeId → Prop where
  | func (f : Closure) : Captures (.func f) f.scope
  | field {record : Record Value} {entry : String × Value} {id : ScopeId}
      (hentry : entry ∈ record.fields) (h : entry.2.Captures id) : Captures (.struct record) id

/-- A value that is neither a struct nor a function captures nothing. -/
theorem Value.Plain.not_captures {v : Value} (hv : v.Plain) (id : ScopeId) : ¬ v.Captures id := by
  intro h
  cases h with
  | func f => exact hv
  | field hentry h => exact hv

namespace Store

/-- The scopes that can be reached from a scope. -/
inductive Reachable (s : Store) (start : ScopeId) : ScopeId → Prop where
  | refl : Reachable s start start
  | parent {id parent : ScopeId} {scope : Scope} (h : Reachable s start id)
      (hscope : s.scope? id = some scope) (hparent : scope.parent = some parent) :
      Reachable s start parent
  | captured {id captured : ScopeId} {scope : Scope} {name : String} {v : Value}
      (h : Reachable s start id) (hscope : s.scope? id = some scope)
      (hv : scope.vars.find? name = some v) (hcaptured : v.Captures captured) :
      Reachable s start captured

/-- The scopes of a set lead to no scope outside of it. -/
def Closed (s : Store) (p : ScopeId → Prop) : Prop :=
  ∀ id scope, p id → s.scope? id = some scope →
    (∀ parent, scope.parent = some parent → p parent) ∧
    ∀ name v captured, scope.vars.find? name = some v → v.Captures captured → p captured

namespace Closed

variable {s : Store} {p : ScopeId → Prop} {id : ScopeId} {name : String} {v : Value}

/-- A closed set holds the chains of its scopes. -/
theorem chain (h : s.Closed p) (hid : p id) : ∀ other ∈ s.chain id, p other :=
  chain_subset (fun other scope parent hother hscope => (h other scope hother hscope).1 parent) hid

/-- What a scope of a closed set reads captures scopes of the set. -/
theorem captures_lookup (h : s.Closed p) (hid : p id) (hv : s.lookupVariable id name = some v) :
    ∀ captured, v.Captures captured → p captured := by
  obtain ⟨binder, hbinder, scope, hscope, hfind⟩ := exists_of_lookupVariable hv
  exact fun captured => (h binder scope (h.chain hid binder hbinder) hscope).2 name v captured hfind

/-- Binding a variable to a value that captures scopes of the set. -/
theorem defineVariable (h : s.Closed p) (hv : ∀ captured, v.Captures captured → p captured)
    (id : ScopeId) (name : String) : (s.defineVariable id name v).Closed p := by
  intro other scope hother hscope
  rw [scope?_defineVariable] at hscope
  split at hscope
  · rename_i heq
    obtain ⟨before, hbefore, rfl⟩ := Option.map_eq_some_iff.mp hscope
    obtain ⟨hparent, hvars⟩ := h id before (heq ▸ hother) hbefore
    refine ⟨hparent, fun x w captured hw hcaptured => ?_⟩
    by_cases hx : x = name
    · rw [hx, NameMap.find?_insert_self] at hw
      cases hw
      exact hv captured hcaptured
    · rw [NameMap.find?_insert_of_ne hx] at hw
      exact hvars x w captured hw hcaptured
  · exact h other scope hother hscope

/-- Defining a type keeps a set of scopes closed. -/
theorem defineType (h : s.Closed p) (id : ScopeId) (name : String) (type : StructType) :
    (s.defineType id name type).Closed p := by
  intro other scope hother hscope
  rw [scope?_defineType] at hscope
  split at hscope
  · rename_i heq
    obtain ⟨before, hbefore, rfl⟩ := Option.map_eq_some_iff.mp hscope
    exact h id before (heq ▸ hother) hbefore
  · exact h other scope hother hscope

/-- Making a scope inside one of the set. -/
theorem addChild (h : s.Closed p) (hid : p id) : (s.addChild id).2.Closed p := by
  intro other scope hother hscope
  rw [Store.addChild, scope?_add] at hscope
  split at hscope
  · cases hscope
    refine ⟨fun parent hparent => ?_, fun x w captured hw => by cases hw⟩
    cases hparent
    exact hid
  · exact h other scope hother hscope

/-- A closed set holds all that can be reached from its scopes. -/
theorem of_reachable (h : s.Closed p) (hid : p id) {other : ScopeId}
    (hother : s.Reachable id other) : p other := by
  induction hother with
  | refl => exact hid
  | parent _ hscope hparent ih => exact (h _ _ ih hscope).1 _ hparent
  | captured _ hscope hv hcaptured ih => exact (h _ _ ih hscope).2 _ _ _ hv hcaptured

end Closed

/-- What can be reached from a scope, together with any scopes that the store does not have, is
closed. -/
theorem closed_reachable (s : Store) (start : ScopeId) :
    s.Closed fun id => s.scopes.size ≤ id.index ∨ s.Reachable start id := by
  intro id scope hid hscope
  have hreach : s.Reachable start id := by
    rcases hid with hle | hreach
    · exact absurd (lt_size_of_scope? hscope) (Nat.not_lt.mpr hle)
    · exact hreach
  exact ⟨fun parent hparent => .inr (hreach.parent hscope hparent),
    fun name v captured hv hcaptured => .inr (hreach.captured hscope hv hcaptured)⟩

end Store

/-- The scopes of `p`, to which all belong that `base` does not have, lead to no others, and the
others are as in `base`. -/
def Discipline.locality (strict : Bool) (base : Store) (p : ScopeId → Prop)
    (hnew : ∀ id : ScopeId, base.scopes.size ≤ id.index → p id) : Discipline strict where
  store s := base.scopes.size ≤ s.scopes.size ∧ s.Closed p ∧
    ∀ id, ¬ p id → s.scope? id = base.scope? id
  value v := ∀ captured, v.Captures captured → p captured
  readable := p
  writable := p
  readable_of_writable hid := hid
  value_plain hv captured h := absurd h (hv.not_captures captured)
  value_func f hid captured h := by
    cases h
    exact hid
  value_struct hfields _ _ captured h := by
    cases h with
    | field hentry h => exact hfields _ hentry captured h
  value_field hv entry hentry captured h := hv captured (.field hentry h)
  value_update hrecord hv _ captured h := by
    cases h with
    | field hentry h =>
        rcases NameMap.mem_insert hentry with rfl | hentry
        · exact hv captured h
        · exact hrecord captured (.field hentry h)
  value_lookup hs hid hv := hs.2.1.captures_lookup hid hv
  store_define {s id} name v hs hid hv := by
    refine ⟨by simpa using hs.1, hs.2.1.defineVariable hv id name, fun other hother => ?_⟩
    have hne : other ≠ id := fun h => hother (h ▸ hid)
    rw [Store.scope?_defineVariable, if_neg hne]
    exact hs.2.2 other hother
  store_defineType {s id} name type hs hid := by
    refine ⟨by simpa using hs.1, hs.2.1.defineType id name type, fun other hother => ?_⟩
    have hne : other ≠ id := fun h => hother (h ▸ hid)
    rw [Store.scope?_defineType, if_neg hne]
    exact hs.2.2 other hother
  store_assign {s id binder name v old} hs hid hv hbinder _ := by
    refine ⟨by simpa using hs.1, hs.2.1.defineVariable hv binder name, fun other hother => ?_⟩
    have hmem := hs.2.1.chain hid binder (Store.exists_of_binder? hbinder).1
    have hne : other ≠ binder := fun h => hother (h ▸ hmem)
    rw [Store.scope?_defineVariable, if_neg hne]
    exact hs.2.2 other hother
  enter {s f} hs hf := by
    refine ⟨⟨?_, hs.2.1.addChild (hf _ (.func f)), fun other hother => ?_⟩, hnew _ hs.1⟩
    · simpa [Store.addChild] using Nat.le_succ_of_le hs.1
    · have hne : other.index ≠ s.scopes.size := fun h => hother (hnew other (h ▸ hs.1))
      rw [Store.addChild, Store.scope?_add, if_neg hne]
      exact hs.2.2 other hother

/-- **Locality.** A scope that cannot be reached from the one in which an expression is evaluated,
or statements are run, stays as it is, whether that ends in a value or in an error. -/
theorem unreachable_scope_unchanged {strict : Bool} {bound : Nat} {start id : ScopeId}
    {m m' : Machine} (hid : id.index < m.store.scopes.size)
    (hreach : ¬ m.store.Reachable start id) :
    (∀ (e : Ast.Expr) (r : Except EvalError Value),
      e.eval ⟨strict, Closure.call strict bound⟩ start m = some (r, m') →
        m'.store.scope? id = m.store.scope? id) ∧
    ∀ (stmts : List Ast.Stmt) (r : Except EvalError Outcome),
      Machine.run strict bound start stmts m = some (r, m') →
        m'.store.scope? id = m.store.scope? id := by
  let p : ScopeId → Prop := fun id =>
    m.store.scopes.size ≤ id.index ∨ m.store.Reachable start id
  let D := Discipline.locality strict m.store p fun _ h => .inl h
  have hstart : D.writable start := .inr .refl
  have hstore : D.store m.store := ⟨Nat.le_refl _, m.store.closed_reachable start, fun _ _ => rfl⟩
  have hout : ¬ p id := fun h => h.elim (Nat.not_le.mpr hid) hreach
  refine ⟨fun e r h => ?_, fun stmts r h => ?_⟩
  · have hkeeps := Discipline.keeps_eval (D.keptBy_call bound) hstart e
    exact (hkeeps m r m' hstore h).1.2.2 id hout
  · exact (D.keeps_run bound hstart stmts m r m' hstore h).1.2.2 id hout

/-- The first scope of the machine leads to itself only. -/
theorem closed_withSetter : Machine.withSetter.store.Closed (· = ⟨0⟩) := by
  rintro id scope rfl hscope
  cases hscope
  refine ⟨fun parent hparent => ?_, fun name v captured hv hcaptured => ?_⟩
  · cases hparent
  · rcases List.mem_cons.mp (NameMap.mem_of_find? hv) with heq | hmem
    · cases heq
      cases hcaptured
      rfl
    · cases List.mem_singleton.mp hmem
      cases hcaptured

/-- The second scope of the machine stays as it is when `f` sets the variable of the first. -/
theorem second_scope_unchanged :
    1 < Machine.withSetter.store.scopes.size ∧ ¬ Machine.withSetter.store.Reachable ⟨0⟩ ⟨1⟩ ∧
    ∃ r m', Machine.run false 1 ⟨0⟩ [.expr (.callOf "f")] Machine.withSetter = some (r, m') ∧
      m'.store.lookupVariable ⟨0⟩ "x" = some (.int 2) ∧
      m'.store.scope? ⟨1⟩ = Machine.withSetter.store.scope? ⟨1⟩ := by
  have hsize : 1 < Machine.withSetter.store.scopes.size := by decide
  have hreach : ¬ Machine.withSetter.store.Reachable ⟨0⟩ ⟨1⟩ := fun h => by
    have := closed_withSetter.of_reachable rfl h
    cases this
  obtain ⟨r, m', h, hx⟩ : ∃ r m',
      Machine.run false 1 ⟨0⟩ [.expr (.callOf "f")] Machine.withSetter = some (r, m') ∧
      m'.store.lookupVariable ⟨0⟩ "x" = some (.int 2) := ⟨_, _, rfl, rfl⟩
  exact ⟨hsize, hreach, r, m', h, hx, (unreachable_scope_unchanged hsize hreach).2 _ r h⟩

end StructScript
