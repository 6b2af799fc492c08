import StructScript.Proofs.Store.Chains

/-!
# Climbing from a scope to a root

From a scope one climbs to its parent, from there on to the parent of that one, and ends at a scope
without a parent, a *root*. Where parents are older than the scopes inside them the climb does end,
and the chain of a scope is the way up (`Store.ParentsOlder.ascends`).

To look a name up, to assign a variable and to count scopes one climbs step by step, with no sight
of the end. These loops are `Store.walk` and `Store.count`. Their number of rounds is bounded, and
they give `none` if the bound is used up. From a scope from which the climb ends they end, and give
what is read off the chain (`Store.ParentsOlder.walksEnd`).
-/

namespace StructScript.Store

variable {s : Store} {id parent : ScopeId} {way : List ScopeId}

/-- The scope around a scope. -/
def parent? (s : Store) (id : ScopeId) : Option ScopeId := (s.scope? id).bind Scope.parent

/-- The parent of a scope is the one that it is linked to. -/
theorem parent?_eq_some_iff : s.parent? id = some parent ↔
    ∃ scope, s.scope? id = some scope ∧ scope.parent = some parent :=
  Option.bind_eq_some_iff

/-- A scope without a link has no parent. -/
theorem parent?_of_root {scope : Scope} (hscope : s.scope? id = some scope)
    (h : scope.parent = none) : s.parent? id = none := by
  rw [parent?, hscope]
  exact h

/-- Below the number of scopes every identity belongs to one. -/
theorem exists_scope? (hid : id.index < s.scopes.size) : ∃ scope, s.scope? id = some scope :=
  ⟨_, Array.getElem?_eq_getElem hid⟩

/-! ### The way up -/

/-- The list is the way from a scope through its parents, one after the other, to a root. -/
inductive Ascends (s : Store) : ScopeId → List ScopeId → Prop where
  | root {id : ScopeId} {scope : Scope} (hscope : s.scope? id = some scope)
      (h : scope.parent = none) : Ascends s id [id]
  | up {id parent : ScopeId} {way : List ScopeId} (hparent : s.parent? id = some parent)
      (h : Ascends s parent way) : Ascends s id (id :: way)

namespace ParentsOlder

/-- A parent is older than its child. -/
theorem lt_of_parent? (h : s.ParentsOlder) (hparent : s.parent? id = some parent) :
    parent.index < id.index := by
  obtain ⟨scope, hscope, hparent⟩ := parent?_eq_some_iff.mp hparent
  exact h id scope parent hscope hparent

/-- There is no endless climb, from whatever scope. -/
theorem wellFounded_parent (h : s.ParentsOlder) :
    WellFounded fun parent id => s.parent? id = some parent :=
  Subrelation.wf h.lt_of_parent? (measure ScopeId.index).wf

/-- Every scope leads along its chain to a root. -/
theorem ascends (h : s.ParentsOlder) (hid : id.index < s.scopes.size) :
    s.Ascends id (s.chain id) := by
  induction id using h.wellFounded_parent.induction with
  | _ id ih =>
      obtain ⟨scope, hscope⟩ := exists_scope? hid
      cases hparent : scope.parent with
      | none =>
          rw [chain_of_root hscope hparent]
          exact .root hscope hparent
      | some parent =>
          have hup : s.parent? id = some parent :=
            parent?_eq_some_iff.mpr ⟨scope, hscope, hparent⟩
          rw [h.chain_of_parent hscope hparent]
          exact .up hup (ih parent hup (Nat.lt_trans (h.lt_of_parent? hup) hid))

/-- A scope is one deeper than its parent. -/
theorem depth_eq_succ (h : s.ParentsOlder) (hparent : s.parent? id = some parent) :
    s.depth id = s.depth parent + 1 := by
  obtain ⟨scope, hscope, hparent⟩ := parent?_eq_some_iff.mp hparent
  rw [depth, h.chain_of_parent hscope hparent]
  rfl

end ParentsOlder

/-! ### Loops that climb -/

/-- Look at a scope, and then at its parent, and so on, until something has been found or there is
no parent. -/
def walk {α : Type} (s : Store) (look : ScopeId → Option α) : Nat → Option ScopeId →
    Option (Option α)
  | _, none => some none
  | 0, some _ => none
  | n + 1, some id =>
    match look id with
    | some found => some (some found)
    | none => s.walk look n (s.parent? id)

/-- Count a scope, and then its parent, and so on. -/
def count (s : Store) : Nat → Nat → Option ScopeId → Option Nat
  | _, counted, none => some counted
  | 0, _, some _ => none
  | n + 1, counted, some id => s.count n (counted + 1) (s.parent? id)

/-- Give a variable another value of its type, if this scope binds it. -/
def assignHere (s : Store) (name : String) (v : Value) (scope : ScopeId) :
    Option (Except AssignError Store) :=
  ((s.vars scope).find? name).map fun old =>
    if old.typeName = v.typeName then .ok (s.defineVariable scope name v)
    else .error (.typeMismatch old.typeName v.typeName)

/-- With `n` rounds all loops that climb from a scope end, each with what is read off the chain. -/
structure WalksEnd (s : Store) (id : ScopeId) (n : Nat) : Prop where
  lookupVariable : ∀ name, s.walk (fun scope => (s.vars scope).find? name) n (some id) =
    some (s.lookupVariable id name)
  lookupType : ∀ name, s.walk (fun scope => (s.types scope).find? name) n (some id) =
    some (s.lookupType id name)
  assign : ∀ name v, (s.walk (s.assignHere name v) n (some id)).map (·.getD (.error .undefined)) =
    some (s.assign id name v)
  /-- The scope itself is counted before the loop. -/
  depth : s.count n 1 (s.parent? id) = some (s.depth id)

namespace Ascends

/-- A walk that may take as many rounds as the way up is long comes to its end. -/
theorem walk_eq {α : Type} (h : s.Ascends id way) (look : ScopeId → Option α) {n : Nat}
    (hn : way.length ≤ n) : s.walk look n (some id) = some (way.findSome? look) := by
  induction h generalizing n with
  | @root id scope hscope hroot =>
      obtain _ | n := n
      · exact absurd hn (Nat.not_succ_le_zero _)
      rw [walk, parent?_of_root hscope hroot]
      cases hlook : look id with
      | none => simp [walk, hlook]
      | some found => simp [hlook]
  | @up id parent way hparent _ ih =>
      obtain _ | n := n
      · exact absurd hn (Nat.not_succ_le_zero _)
      rw [walk, hparent, List.findSome?_cons]
      cases look id with
      | none => exact ih (Nat.le_of_succ_le_succ hn)
      | some found => rfl

/-- The loop that counts links counts those on the way up. -/
theorem count_eq (h : s.Ascends id way) {n : Nat} (counted : Nat) (hn : way.length ≤ n) :
    s.count n counted (some id) = some (counted + way.length) := by
  induction h generalizing n counted with
  | @root id scope hscope hroot =>
      obtain _ | n := n
      · exact absurd hn (Nat.not_succ_le_zero _)
      rw [count, parent?_of_root hscope hroot]
      cases n <;> rfl
  | @up id parent way hparent _ ih =>
      obtain _ | n := n
      · exact absurd hn (Nat.not_succ_le_zero _)
      rw [count, hparent, ih (counted + 1) (Nat.le_of_succ_le_succ hn), List.length_cons]
      exact congrArg some (by omega)

/-- The loop that begins at the parent counts the scopes around this one. -/
theorem count_parent?_eq (h : s.Ascends id way) {n : Nat} (hn : way.length ≤ n) :
    s.count n 1 (s.parent? id) = some way.length := by
  cases h with
  | root hscope hroot =>
      rw [parent?_of_root hscope hroot]
      cases n <;> rfl
  | up hparent h =>
      rw [hparent, h.count_eq 1 (Nat.le_of_succ_le hn), List.length_cons, Nat.add_comm]

end Ascends

/-- No more scopes are met than steps are made. -/
theorem length_chainUpTo_le (s : Store) (n : Nat) (id : ScopeId) :
    (s.chainUpTo n id).length ≤ n := by
  induction n generalizing id with
  | zero => exact Nat.le_refl 0
  | succ n ih =>
      unfold chainUpTo
      split
      · exact Nat.zero_le _
      · split
        · exact Nat.succ_le_succ (Nat.zero_le n)
        · exact Nat.succ_le_succ (ih _)

/-- An assignment is made in the first scope on the way up that can tell how it ends. -/
theorem assign_eq_getD (s : Store) (id : ScopeId) (name : String) (v : Value) :
    s.assign id name v =
      ((s.chain id).findSome? (s.assignHere name v)).getD (.error .undefined) := by
  let result (found : ScopeId × Value) : Except AssignError Store :=
    if found.2.typeName = v.typeName then .ok (s.defineVariable found.1 name v)
    else .error (.typeMismatch found.2.typeName v.typeName)
  have hbinder : (s.chain id).findSome? (s.assignHere name v) =
      (s.binder? id name).map result := by
    rw [binder?, List.map_findSome?]
    refine congrArg (List.findSome? · _) (funext fun scope => ?_)
    rw [Function.comp_apply, Option.map_map]
    rfl
  rw [hbinder, assign]
  rcases s.binder? id name with _ | ⟨scope, old⟩ <;> rfl

/-- All loops that climb from a scope end. One round for each scope up to this one is enough. -/
theorem ParentsOlder.walksEnd (h : s.ParentsOlder) (hid : id.index < s.scopes.size) {n : Nat}
    (hn : id.index < n) : s.WalksEnd id n := by
  have hway : s.Ascends id (s.chain id) := h.ascends hid
  have hlength : (s.chain id).length ≤ n :=
    Nat.le_trans (length_chainUpTo_le s (id.index + 1) id) hn
  constructor
  case lookupVariable => exact fun name => hway.walk_eq _ hlength
  case lookupType => exact fun name => hway.walk_eq _ hlength
  case assign =>
    intro name v
    rw [hway.walk_eq _ hlength, assign_eq_getD]
    rfl
  case depth => exact hway.count_parent?_eq hlength

end StructScript.Store
