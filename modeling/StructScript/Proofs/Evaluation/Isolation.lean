import StructScript.Proofs.Evaluation.Discipline

/-!
# Calls are isolated

Statements run only in the scope that a call has just made, so an expression can change an older
scope in one way alone: by giving a variable another value of its type. Hence an expression, with
whatever calls it makes, leaves each scope that was there before with its parent, its types, and the
names and types of its variables (`Scope.Retains`). The discipline of this is
`Discipline.isolation`, relative to the store before: there statements run in scopes that are newer.
An expression without calls changes nothing at all.

Main result: `eval_retains_scopes`.
-/

namespace StructScript

/-- The scope `new` has the parent and the types of `old`, and binds the same variables, each to a
value of the same type. -/
structure Scope.Retains (old new : Scope) : Prop where
  parent_eq : new.parent = old.parent
  types_eq : new.types = old.types
  mem_names_iff : ∀ name, name ∈ new.vars.names ↔ name ∈ old.vars.names
  typeName_eq : ∀ name v w, old.vars.find? name = some v → new.vars.find? name = some w →
    w.typeName = v.typeName

namespace Scope.Retains

variable {old mid new : Scope}

/-- A scope retains itself. -/
theorem refl (scope : Scope) : scope.Retains scope where
  parent_eq := rfl
  types_eq := rfl
  mem_names_iff _ := Iff.rfl
  typeName_eq name v w hv hw := by
    rw [hv] at hw
    cases hw
    rfl

/-- What a later scope retains of a scope between it retains of the first. -/
theorem trans (h : old.Retains mid) (h' : mid.Retains new) : old.Retains new where
  parent_eq := h'.parent_eq.trans h.parent_eq
  types_eq := h'.types_eq.trans h.types_eq
  mem_names_iff name := (h'.mem_names_iff name).trans (h.mem_names_iff name)
  typeName_eq name v w hv hw := by
    have hmem : name ∈ mid.vars.names :=
      (h.mem_names_iff name).mpr (NameMap.mem_names_iff.mpr ⟨v, hv⟩)
    obtain ⟨u, hu⟩ := NameMap.mem_names_iff.mp hmem
    exact (h'.typeName_eq name u w hu hw).trans (h.typeName_eq name v u hv hu)

/-- Giving a variable another value of its type. -/
theorem insert {scope : Scope} {name : String} {v u : Value}
    (hu : scope.vars.find? name = some u) (htype : u.typeName = v.typeName) :
    scope.Retains { scope with vars := scope.vars.insert name v } where
  parent_eq := rfl
  types_eq := rfl
  mem_names_iff other := by
    rw [NameMap.mem_names_iff, NameMap.mem_names_iff]
    by_cases h : other = name
    · subst h
      simp [hu]
    · rw [NameMap.find?_insert_of_ne h]
  typeName_eq other w w' hw hw' := by
    by_cases h : other = name
    · subst h
      rw [NameMap.find?_insert_self] at hw'
      rw [hu] at hw
      cases hw
      cases hw'
      exact htype.symm
    · rw [NameMap.find?_insert_of_ne h, hw] at hw'
      cases hw'
      rfl

end Scope.Retains

/-- All scopes of `old` are still there in `new`, and retain what they had. -/
def Store.Retains (old new : Store) : Prop :=
  ∀ id scope, old.scope? id = some scope → ∃ scope', new.scope? id = some scope' ∧
    scope.Retains scope'

namespace Store.Retains

variable {base s : Store} {id : ScopeId}

/-- A store retains its scopes. -/
theorem refl (s : Store) : s.Retains s := fun _ scope h => ⟨scope, h, .refl scope⟩

/-- Making a scope retains those that are there. -/
theorem add (h : base.Retains s) (hsize : base.scopes.size ≤ s.scopes.size)
    (parent : Option ScopeId) : base.Retains (s.add parent).2 := by
  intro other scope hother
  have hne : other.index ≠ s.scopes.size := by
    have := lt_size_of_scope? hother
    omega
  rw [scope?_add, if_neg hne]
  exact h other scope hother

/-- Changing a newer scope retains the older ones. -/
theorem modifyScope_of_le (h : base.Retains s) (hid : base.scopes.size ≤ id.index)
    (f : Scope → Scope) : base.Retains (s.modifyScope id f) := by
  intro other scope hother
  have hne : other ≠ id := by
    rintro rfl
    have := lt_size_of_scope? hother
    omega
  rw [scope?_modifyScope, if_neg hne]
  exact h other scope hother

/-- An assignment retains all scopes, also the one in which the variable is bound. -/
theorem defineVariable (h : base.Retains s) {scope : Scope} {name : String} {v u : Value}
    (hscope : s.scope? id = some scope) (hu : scope.vars.find? name = some u)
    (htype : u.typeName = v.typeName) : base.Retains (s.defineVariable id name v) := by
  intro other first hother
  obtain ⟨scope', hscope', hretains⟩ := h other first hother
  rw [scope?_defineVariable]
  split
  · rename_i heq
    subst heq
    rw [hscope] at hscope' ⊢
    cases hscope'
    exact ⟨_, rfl, hretains.trans (.insert hu htype)⟩
  · exact ⟨scope', hscope', hretains⟩

end Store.Retains

/-- The scopes of `base` are retained, and statements run in newer scopes. -/
def Discipline.isolation (strict : Bool) (base : Store) : Discipline strict where
  store s := base.scopes.size ≤ s.scopes.size ∧ base.Retains s
  value _ := True
  readable _ := True
  writable id := base.scopes.size ≤ id.index
  readable_of_writable _ := trivial
  value_plain _ := trivial
  value_func _ _ := trivial
  value_struct _ _ _ := trivial
  value_field _ _ _ := trivial
  value_update _ _ _ := trivial
  value_lookup _ _ _ := trivial
  store_define name v hs hid _ := ⟨by simpa using hs.1, hs.2.modifyScope_of_le hid _⟩
  store_defineType name type hs hid := ⟨by simpa using hs.1, hs.2.modifyScope_of_le hid _⟩
  store_assign hs _ _ hbinder htype := by
    obtain ⟨-, scope, hscope, hold⟩ := Store.exists_of_binder? hbinder
    exact ⟨by simpa using hs.1, hs.2.defineVariable hscope hold htype⟩
  enter hs _ := ⟨⟨by simpa [Store.addChild] using Nat.le_succ_of_le hs.1, hs.2.add hs.1 _⟩, hs.1⟩

/-! ### Expressions without calls -/

namespace Ast

mutual

/-- Whether the expression makes no call, the bodies of its function literals apart. -/
def Expr.callFree : Expr → Bool
  | ⟨node, _⟩ => node.callFree

/-- Whether the expression makes no call, without regard to its place. -/
def Node.callFree : Node → Bool
  | .literal _ _ => true
  | .place _ => true
  | .struct _ inits => Node.initsCallFree inits
  | .unary _ operand => operand.callFree
  | .binary _ left right => left.callFree && right.callFree
  | .call _ _ => false
  | .func _ => true

/-- Whether no initialiser makes a call. -/
def Node.initsCallFree : List FieldInit → Bool
  | [] => true
  | ⟨_, value, _⟩ :: rest => value.callFree && Node.initsCallFree rest

end

end Ast

namespace Eval

variable {α β : Type}

/-- The computation ends with the machine as it was. -/
def Inert (m : Eval α) : Prop := ∀ s r t, m s = some (r, t) → t = s

namespace Inert

/-- Failing changes nothing. -/
theorem fail (e : EvalError) : Inert (Bounded.fail e : Eval α) := by
  intro s r t h
  cases h
  rfl

/-- Giving a value changes nothing. -/
theorem pure (a : α) : Inert (Pure.pure a : Eval α) := by
  intro s r t h
  cases h
  rfl

/-- Nor does a result without a place. -/
theorem ofCause (x : Except EvalError.Cause α) : Inert (Eval.ofCause x) := by
  intro s r t h
  cases h
  rfl

/-- What depends on the machine changes nothing if it does not for any. -/
theorem state {f : Machine → Eval α} (h : ∀ m, Inert (f m)) : Inert (Bounded.state >>= f) :=
  fun s r t ht => h s s r t ht

/-- A sequence changes nothing if its parts do not. -/
theorem bind {m : Eval α} {f : α → Eval β} (hm : Inert m) (hf : ∀ a, Inert (f a)) :
    Inert (m >>= f) := by
  intro s r t h
  rcases Bounded.cases_of_bind h with ⟨e, he, -⟩ | ⟨a, s', ha, hr⟩
  · exact hm s _ t he
  · exact (hf a s' r t hr).trans (hm s _ s' ha)

/-- Giving an error its place changes nothing else. -/
theorem locate {m : Eval α} (hm : Inert m) (span : Span) : Inert (Eval.locate span m) := by
  intro s r t h
  obtain ⟨r', hr', -⟩ := Bounded.exists_of_mapError h
  exact hm s r' t hr'

/-- Reading a place changes nothing. -/
theorem readPlace (scope : ScopeId) : (place : Ast.Place) → Inert (Eval.readPlace scope place)
  | .var name => by
      refine Inert.state fun m => ?_
      split
      · exact Inert.pure _
      · exact Inert.fail _
  | .field base name _ => by
      rw [Eval.readPlace]
      exact (Inert.readPlace scope base).bind fun _ => Inert.pure _

/-- Looking a type up and giving it its arguments changes nothing. -/
theorem instantiate (scope : ScopeId) (type : Ast.TypeExpr) :
    Inert (Eval.instantiate scope type) := by
  refine Inert.state fun m => ?_
  split
  · exact Inert.fail _
  · exact (Inert.ofCause _).locate _

end Inert

end Eval

namespace Ast

open Eval

variable (rules : Rules) (scope : ScopeId)

mutual

/-- An expression without calls changes nothing. -/
theorem Expr.inert_eval : (e : Expr) → e.callFree = true → Inert (e.eval rules scope)
  | ⟨node, span⟩, h => by
      rw [Expr.eval]
      exact (Node.inert_eval span node (by simpa [Expr.callFree] using h)).locate span

/-- Without calls, evaluating what an expression is changes nothing. -/
theorem Node.inert_eval (span : Span) :
    (node : Node) → node.callFree = true → Inert (node.eval rules scope span)
  | .literal _ _, _ => by
      rw [Node.eval]
      exact Inert.ofCause _
  | .place place, _ => by
      rw [Node.eval]
      exact Inert.readPlace scope place
  | .struct type inits, h => by
      rw [Node.eval]
      refine (Inert.instantiate scope type).bind fun inst => ?_
      refine (Node.inert_evalInits _ _ inits (by simpa [Node.callFree] using h) []).bind fun _ => ?_
      exact Inert.ofCause _
  | .unary op operand, h => by
      rw [Node.eval]
      refine (Expr.inert_eval operand (by simpa [Node.callFree] using h)).bind fun _ => ?_
      exact Inert.ofCause _
  | .binary op left right, h => by
      simp only [Node.callFree, Bool.and_eq_true] at h
      rw [Node.eval]
      refine (Expr.inert_eval left h.1).bind fun _ => ?_
      exact (Expr.inert_eval right h.2).bind fun _ => Inert.ofCause _
  | .call callee args, h => by simp [Node.callFree] at h
  | .func f, _ => by
      rw [Node.eval]
      exact Inert.pure _

/-- Nor does evaluating initialisers. -/
theorem Node.inert_evalInits (typeName : String) (declared : NameMap TypeName) :
    (inits : List FieldInit) → Node.initsCallFree inits = true → ∀ given,
      Inert (Node.evalInits rules scope typeName declared given inits)
  | [], _, given => by
      rw [Node.evalInits]
      exact Inert.pure _
  | ⟨name, value, span⟩ :: rest, h, given => by
      simp only [Node.initsCallFree, Bool.and_eq_true] at h
      rw [Node.evalInits]
      split
      · exact Inert.fail _
      · refine (Expr.inert_eval value h.1).bind fun v => ?_
        split
        · exact Node.inert_evalInits typeName declared rest h.2 _
        · exact Inert.fail _

end

end Ast

/-- **Calls are isolated.** Evaluating an expression, whether it ends in a value or in an error,
leaves every scope that was there before with the same parent and types and the same variables, each
of the same type. If the expression makes no call then the machine stays as it was. -/
theorem eval_retains_scopes {strict : Bool} {bound : Nat} {scope : ScopeId} {e : Ast.Expr}
    {m m' : Machine} {r : Except EvalError Value}
    (h : e.eval ⟨strict, Closure.call strict bound⟩ scope m = some (r, m')) :
    m.store.Retains m'.store ∧ (e.callFree = true → m' = m) := by
  let D := Discipline.isolation strict m.store
  have hscope : D.readable scope := trivial
  have hstore : D.store m.store := ⟨Nat.le_refl _, .refl _⟩
  have hkeeps := (Discipline.keeps_eval (D.keptBy_call bound) hscope e) m r m' hstore h
  exact ⟨hkeeps.1.2, fun hfree => Ast.Expr.inert_eval _ scope e hfree m r m' h⟩

/-- A machine with two scopes apart from one another. Both bind `x`, and the first also a function
`f` that sets it. -/
def Machine.withSetter : Machine :=
  let body := [Ast.Stmt.assign (.var ⟨"x", default⟩) ⟨.literal .int "2", default⟩ default]
  let f : Closure := ⟨⟨[], none, body, default, 0⟩, ⟨0⟩⟩
  ⟨⟨#[⟨[], [("f", .func f), ("x", .int 1)], none⟩, ⟨[], [("x", .int 1)], none⟩]⟩, .silent,
    .empty none⟩

/-- A call of a function without arguments. -/
def Ast.Expr.callOf (name : String) : Ast.Expr := ⟨.call (.var ⟨name, default⟩) [], default⟩

/-- A call that sets a variable of an older scope retains the scope. -/
theorem eval_setter_retains_scopes :
    ∃ r m', (Ast.Expr.callOf "f").eval ⟨false, Closure.call false 1⟩ ⟨0⟩ Machine.withSetter =
        some (r, m') ∧
      m'.store.lookupVariable ⟨0⟩ "x" = some (.int 2) ∧
      Machine.withSetter.store.Retains m'.store ∧
      ((Ast.Expr.callOf "f").callFree = true → m' = Machine.withSetter) := by
  obtain ⟨r, m', h, hx⟩ : ∃ r m',
      (Ast.Expr.callOf "f").eval ⟨false, Closure.call false 1⟩ ⟨0⟩ Machine.withSetter =
        some (r, m') ∧
      m'.store.lookupVariable ⟨0⟩ "x" = some (.int 2) := ⟨_, _, rfl, rfl⟩
  exact ⟨r, m', h, hx, eval_retains_scopes h⟩

end StructScript
