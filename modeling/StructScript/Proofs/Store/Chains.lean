import StructScript.Proofs.Store.Bindings

/-!
# Trees of scopes

Scopes are only ever put inside scopes that are there, so a parent is older than the scopes inside
it (`Store.ParentsOlder`), whatever is done to a store and in whatever order
(`Store.Built.parentsOlder`). In such a store the way from a scope up through its parents comes to
an end, and the chain of the scope is that way: the scope itself, and then the chain of its parent
(`Store.ParentsOlder.chain_of_parent`).
-/

namespace StructScript.Store

variable {s : Store} {id : ScopeId} {scope : Scope} {f : Scope → Scope}

/-! ### Parents are older -/

/-- A parent is older than the scopes inside it. -/
def ParentsOlder (s : Store) : Prop :=
  ∀ id scope parent, s.scope? id = some scope → scope.parent = some parent →
    parent.index < id.index

namespace ParentsOlder

/-- The empty store has no scopes at all. -/
theorem empty : Store.empty.ParentsOlder := by
  intro id scope parent hscope
  simp [scope?, Store.empty] at hscope

/-- A scope is put inside one that is there, if it is put inside any. -/
theorem add (h : s.ParentsOlder) {parent : Option ScopeId}
    (hparent : ∀ p, parent = some p → p.index < s.scopes.size) :
    (s.add parent).2.ParentsOlder := by
  intro id scope p hscope hp
  rw [scope?_add] at hscope
  split at hscope
  · rename_i hid
    cases hscope
    exact hid ▸ hparent p hp
  · exact h id scope p hscope hp

/-- Changing a scope keeps the order, if the scope keeps its parent. -/
theorem modifyScope (h : s.ParentsOlder) (hf : ∀ scope, (f scope).parent = scope.parent)
    (id : ScopeId) : (s.modifyScope id f).ParentsOlder := by
  intro other scope parent hscope hparent
  rw [scope?_modifyScope] at hscope
  split at hscope
  · rename_i heq
    obtain ⟨before, hbefore, rfl⟩ := Option.map_eq_some_iff.mp hscope
    rw [hf] at hparent
    exact heq ▸ h id before parent hbefore hparent
  · exact h other scope parent hscope hparent

/-- Defining a variable changes no parent. -/
theorem defineVariable (h : s.ParentsOlder) (id : ScopeId) (name : String) (v : Value) :
    (s.defineVariable id name v).ParentsOlder := by
  rw [Store.defineVariable]
  refine h.modifyScope (fun scope => ?_) id
  rfl

/-- Defining a type changes no parent. -/
theorem defineType (h : s.ParentsOlder) (id : ScopeId) (name : String) (type : StructType) :
    (s.defineType id name type).ParentsOlder := by
  rw [Store.defineType]
  refine h.modifyScope (fun scope => ?_) id
  rfl

/-! ### The chain of a scope -/

/-- More steps than there are scopes up to this one lead no further. -/
theorem chainUpTo_eq (h : s.ParentsOlder) {n m : Nat} (hn : id.index < n) (hm : id.index < m) :
    s.chainUpTo n id = s.chainUpTo m id := by
  induction n generalizing m id with
  | zero => exact absurd hn (Nat.not_lt_zero _)
  | succ n ih =>
      obtain ⟨m, rfl⟩ : ∃ k, m = k + 1 := ⟨m - 1, by omega⟩
      unfold chainUpTo
      cases hscope : s.scope? id with
      | none => rfl
      | some scope =>
          cases hparent : scope.parent with
          | none => simp only [hparent]
          | some parent =>
              have hlt := h id scope parent hscope hparent
              have hrest : s.chainUpTo n parent = s.chainUpTo m parent := ih (by omega) (by omega)
              simp only [hparent, hrest]

/-- The chain of a scope goes on with that of its parent. -/
theorem chain_of_parent (h : s.ParentsOlder) {parent : ScopeId} (hscope : s.scope? id = some scope)
    (hparent : scope.parent = some parent) : s.chain id = id :: s.chain parent := by
  have hlt := h id scope parent hscope hparent
  rw [chain, chainUpTo, hscope]
  simp only [hparent]
  exact congrArg (id :: ·) (h.chainUpTo_eq hlt (Nat.lt_succ_self _))

end ParentsOlder

/-- A scope that is there begins its chain. -/
theorem exists_chain_eq_cons (hscope : s.scope? id = some scope) :
    ∃ rest, s.chain id = id :: rest := by
  rw [chain, chainUpTo, hscope]
  cases hparent : scope.parent with
  | none => exact ⟨[], by simp only [hparent]⟩
  | some parent => exact ⟨_, by simp only [hparent]; rfl⟩

/-- A scope without a parent is all of its chain. -/
theorem chain_of_root (hscope : s.scope? id = some scope) (hparent : scope.parent = none) :
    s.chain id = [id] := by
  rw [chain, chainUpTo, hscope]
  simp only [hparent]

/-- A scope that is not there has no chain. -/
theorem chain_of_none (hscope : s.scope? id = none) : s.chain id = [] := by
  rw [chain, chainUpTo, hscope]

/-! ### What may be done to a store -/

/-- A change of a store. -/
inductive Change where
  | addRoot
  | addChild (parent : ScopeId)
  | defineVariable (id : ScopeId) (name : String) (v : Value)
  | defineType (id : ScopeId) (name : String) (type : StructType)
  | assign (id : ScopeId) (name : String) (v : Value)

/-- Make a change. An assignment that fails leaves the store as it was. -/
def perform (s : Store) : Change → Except AssignError Unit × Store
  | .addRoot => (.ok (), s.addRoot.2)
  | .addChild parent => (.ok (), (s.addChild parent).2)
  | .defineVariable id name v => (.ok (), s.defineVariable id name v)
  | .defineType id name type => (.ok (), s.defineType id name type)
  | .assign id name v =>
    match s.assign id name v with
    | .ok t => (.ok (), t)
    | .error e => (.error e, s)

/-- The stores that changes lead to from the one without scopes, in any order, failed ones
included. A scope is put inside one that is there. -/
inductive Built : Store → Prop where
  | empty : Built empty
  | perform {s : Store} (h : Built s) (change : Change)
      (hparent : ∀ parent, change = .addChild parent → parent.index < s.scopes.size) :
      Built (s.perform change).2

/-- Every change keeps parents older than the scopes inside them. -/
theorem ParentsOlder.perform (h : s.ParentsOlder) {change : Change}
    (hparent : ∀ parent, change = .addChild parent → parent.index < s.scopes.size) :
    (s.perform change).2.ParentsOlder := by
  cases change with
  | addRoot => exact h.add nofun
  | addChild parent =>
      refine h.add fun p hp => ?_
      exact hparent p (congrArg Change.addChild (Option.some.inj hp))
  | defineVariable id name v => exact h.defineVariable id name v
  | defineType id name type => exact h.defineType id name type
  | assign id name v =>
      rw [Store.perform]
      cases hassign : s.assign id name v with
      | error e => exact h
      | ok t =>
          obtain ⟨binder, _, _, _, rfl⟩ := exists_of_assign hassign
          exact h.defineVariable binder name v

/-- In a store that the operations have built, parents are older. -/
theorem Built.parentsOlder (h : s.Built) : s.ParentsOlder := by
  induction h with
  | empty => exact .empty
  | perform _ _ hparent ih => exact ih.perform hparent

end StructScript.Store
