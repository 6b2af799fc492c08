import StructScript.Proofs.Store.Chains

/-!
# Where a change is seen

A name is read in the first scope that binds it, on the way from a scope up through its parents
(`Store.Nearest`; the chains that lookups go along lead the same way, `Store.nearest_iff`). So a
variable that is defined in a scope is seen from the scopes for which that scope is now the first
one to bind the name, and one that is assigned is seen from the scopes for which the first one is
the same as for the scope that assigns. Nothing else is read differently, and types and variables do
not affect one another.

Main result: `Store.seen_after_change`.
-/

namespace StructScript.Store

variable {s t : Store} {id other binder : ScopeId} {name key : String} {v w : Value}

/-! ### The first scope that binds a name -/

/-- The scope itself binds the variable. -/
def Binds (s : Store) (id : ScopeId) (name : String) : Prop :=
  ∃ v, (s.vars id).find? name = some v

/-- The first scope that binds a variable, from a scope on and up through its parents. -/
inductive Nearest (s : Store) (name : String) : ScopeId → ScopeId → Prop where
  | here {id : ScopeId} (h : s.Binds id name) : Nearest s name id id
  | above {id parent binder : ScopeId} {scope : Scope} (hnot : ¬ s.Binds id name)
      (hscope : s.scope? id = some scope) (hparent : scope.parent = some parent)
      (h : Nearest s name parent binder) : Nearest s name id binder

/-- Along a chain, the innermost scope that binds a variable is looked for at the scope itself and
then from its parent on. -/
theorem binder?_of_find? (h : (s.vars id).find? name = some v) :
    s.binder? id name = some (id, v) := by
  obtain ⟨scope, hscope, -⟩ := exists_of_find?_vars h
  obtain ⟨rest, hchain⟩ := exists_chain_eq_cons hscope
  rw [binder?, hchain, List.findSome?_cons, h]
  rfl

/-- A scope that does not bind a name leaves it to its parent. -/
theorem binder?_of_not_binds (hs : s.ParentsOlder) {parent : ScopeId} {scope : Scope}
    (hnot : ¬ s.Binds id name) (hscope : s.scope? id = some scope)
    (hparent : scope.parent = some parent) : s.binder? id name = s.binder? parent name := by
  have hnone : (s.vars id).find? name = none :=
    Option.eq_none_iff_forall_ne_some.mpr fun v hv => hnot ⟨v, hv⟩
  rw [binder?, binder?, hs.chain_of_parent hscope hparent, List.findSome?_cons, hnone]
  rfl

/-- The chain of a scope leads to the first scope that binds a variable. -/
theorem nearest_iff (hs : s.ParentsOlder) :
    s.Nearest name id binder ↔ (s.binder? id name).map (·.1) = some binder := by
  constructor
  · intro h
    induction h with
    | here h =>
        obtain ⟨v, hv⟩ := h
        rw [binder?_of_find? hv]
        rfl
    | above hnot hscope hparent _ ih => rw [binder?_of_not_binds hs hnot hscope hparent, ih]
  · -- by the age of the scope: its parent is older
    induction hindex : id.index using Nat.strongRecOn generalizing id with
    | ind n ih =>
        intro h
        by_cases hbinds : s.Binds id name
        · obtain ⟨v, hv⟩ := hbinds
          rw [binder?_of_find? hv] at h
          cases h
          exact .here ⟨v, hv⟩
        · cases hscope : s.scope? id with
          | none =>
              rw [binder?, chain_of_none hscope] at h
              cases h
          | some scope =>
              cases hparent : scope.parent with
              | none =>
                  obtain ⟨⟨b, v⟩, hb, -⟩ := Option.map_eq_some_iff.mp h
                  have hmem := (exists_of_binder? hb).1
                  rw [chain_of_root hscope hparent, List.mem_singleton] at hmem
                  exact absurd ⟨v, hmem ▸ find?_vars_of_binder? hb⟩ hbinds
              | some parent =>
                  have hlt := hs id scope parent hscope hparent
                  rw [binder?_of_not_binds hs hbinds hscope hparent] at h
                  exact .above hbinds hscope hparent (ih _ (hindex ▸ hlt) rfl h)

/-! ### What is seen of a change -/

/-- Where the first scope that binds a variable is not the one in which it has just been defined, it
is the same as before. -/
theorem binder?_defineVariable_of_ne_binder (s : Store) (v : Value)
    (h : ∀ w, (s.defineVariable id name v).binder? other name ≠ some (id, w)) :
    (s.defineVariable id name v).binder? other name = s.binder? other name := by
  simp only [binder?, chain_defineVariable] at h ⊢
  generalize s.chain other = places at h
  induction places with
  | nil => rfl
  | cons place rest ih =>
      simp only [List.findSome?_cons] at h ⊢
      by_cases hplace : place = id
      · -- the scope is passed by, so it does not bind the variable, and did not before
        subst hplace
        cases hfind : ((s.defineVariable place name v).vars place).find? name with
        | some w =>
            rw [hfind] at h
            exact absurd rfl (h w)
        | none =>
            have hsize : ¬ place.index < s.scopes.size := fun hlt => by
              rw [find?_vars_defineVariable_self hlt] at hfind
              cases hfind
            have hscope : s.scope? place = none := Array.getElem?_eq_none (Nat.not_lt.mp hsize)
            rw [hfind] at h
            rw [vars, hscope]
            exact ih h
      · rw [find?_vars_defineVariable_of_ne fun heq => absurd heq hplace] at h ⊢
        cases hfind : (s.vars place).find? name with
        | some w => rfl
        | none =>
            rw [hfind] at h
            exact ih h

/-- The store `t` is read like `s`, but that the variable has the value from the scopes that see the
change. -/
def Seen (s t : Store) (name : String) (v : Value) (sees : ScopeId → Prop) : Prop :=
  ∀ id key, (key = name ∧ sees id → t.lookupVariable id key = some v) ∧
    (¬ (key = name ∧ sees id) → t.lookupVariable id key = s.lookupVariable id key)

/-- A definition is seen from where its scope is now the first one to bind the name. -/
theorem seen_defineVariable (hs : s.ParentsOlder) (id : ScopeId) (name : String) (v : Value) :
    s.Seen (s.defineVariable id name v) name v fun other =>
      (s.defineVariable id name v).Nearest name other id := by
  have ht := hs.defineVariable id name v
  refine fun other key => ⟨?_, fun hnot => ?_⟩
  · rintro ⟨rfl, hnearest⟩
    obtain ⟨⟨binder, w⟩, hbinder, rfl⟩ := Option.map_eq_some_iff.mp ((nearest_iff ht).mp hnearest)
    have hw := find?_vars_of_binder? hbinder
    obtain ⟨scope, hscope, -⟩ := exists_of_find?_vars hw
    have hsize := lt_size_of_scope? hscope
    rw [size_defineVariable] at hsize
    rw [find?_vars_defineVariable_self hsize] at hw
    rw [lookupVariable_eq, hbinder]
    exact hw.symm
  · by_cases hkey : key = name
    · subst hkey
      rw [lookupVariable_eq, lookupVariable_eq, binder?_defineVariable_of_ne_binder]
      intro w hw
      exact hnot ⟨rfl, (nearest_iff ht).mpr (by rw [hw]; rfl)⟩
    · exact lookupVariable_defineVariable_of_ne hkey s id other v

/-- An assignment is seen from where the first scope to bind the name is the one that binds it for
the scope that assigns. -/
theorem seen_assign (hs : s.ParentsOlder) (h : s.assign id name v = .ok t) :
    s.Seen t name v fun other =>
      ∃ binder, s.Nearest name id binder ∧ s.Nearest name other binder := by
  obtain ⟨binder, old, hbinder, -, rfl⟩ := exists_of_assign h
  have hid : ∀ place, s.Nearest name id place ↔ place = binder := fun place => by
    rw [nearest_iff hs, hbinder, Option.map_some, Option.some.injEq, eq_comm]
  simp only [hid, exists_eq_left]
  refine fun other key => ⟨?_, fun hnot => ?_⟩
  · rintro ⟨rfl, hnearest⟩
    obtain ⟨⟨place, w⟩, hplace, rfl⟩ := Option.map_eq_some_iff.mp ((nearest_iff hs).mp hnearest)
    rw [lookupVariable_eq, binder?_defineVariable_of_bound (find?_vars_of_binder? hbinder), hplace]
    simp
  · by_cases hkey : key = name
    · subst hkey
      rw [lookupVariable_eq, lookupVariable_eq,
        binder?_defineVariable_of_bound (find?_vars_of_binder? hbinder)]
      cases hplace : s.binder? other key with
      | none => rfl
      | some b =>
          have hne : b.1 ≠ binder := fun heq =>
            hnot ⟨rfl, (nearest_iff hs).mpr (by rw [hplace, ← heq]; rfl)⟩
          simp [hne]
    · exact lookupVariable_defineVariable_of_ne hkey s binder other v

/-! ### When an assignment fails -/

/-- An assignment finds no variable just where no scope on the chain binds the name. -/
theorem assign_eq_undefined_iff (hs : s.ParentsOlder) :
    s.assign id name v = .error .undefined ↔ ∀ binder, ¬ s.Nearest name id binder := by
  simp only [nearest_iff hs, assign]
  cases s.binder? id name with
  | none => simp
  | some b => by_cases htype : b.2.typeName = v.typeName <;> simp [htype]

/-- An assignment is of the wrong type just where the nearest binder holds a value with a type of
another name. -/
theorem assign_eq_typeMismatch_iff (hs : s.ParentsOlder) {expected found : String} :
    s.assign id name v = .error (.typeMismatch expected found) ↔
      ∃ binder old, s.Nearest name id binder ∧ (s.vars binder).find? name = some old ∧
        old.typeName ≠ v.typeName ∧ expected = old.typeName ∧ found = v.typeName := by
  simp only [nearest_iff hs, assign]
  cases hbinder : s.binder? id name with
  | none => simp
  | some b =>
      have hold := find?_vars_of_binder? hbinder
      by_cases htype : b.2.typeName = v.typeName
      · simp [htype, hold]
      · have hne : v.typeName ≠ b.2.typeName := Ne.symm htype
        simp [htype, hold, hne, eq_comm]

/-! ### All changes -/

/-- **A change is seen from exactly the right scopes.** In every store that changes lead to, a
variable that is defined in a scope has its new value from the scopes for which that scope is now
the first one to bind the name, and one that is assigned has it from the scopes for which the first
one is the same as for the scope that assigns; all else is read as before. An assignment that fails
changes nothing that is read; it fails for an undefined variable exactly if no scope on the way
binds the name, and for the type exactly if the first one that does binds it to a value of another
type. Types are read as before whatever is done to variables, and variables whatever types are
defined. -/
theorem seen_after_change (hs : s.Built) (id : ScopeId) (name : String) (v : Value)
    (type : StructType) :
    let defined := s.perform (.defineVariable id name v)
    let assigned := s.perform (.assign id name v)
    (defined.1 = .ok () ∧
      s.Seen defined.2 name v fun other => defined.2.Nearest name other id) ∧
    (assigned.1 = .ok () → s.Seen assigned.2 name v fun other =>
      ∃ binder, s.Nearest name id binder ∧ s.Nearest name other binder) ∧
    (∀ e, assigned.1 = .error e →
      ∀ other key, assigned.2.lookupVariable other key = s.lookupVariable other key) ∧
    (assigned.1 = .error .undefined ↔ ∀ binder, ¬ s.Nearest name id binder) ∧
    (∀ expected found, assigned.1 = .error (.typeMismatch expected found) ↔
      ∃ binder old, s.Nearest name id binder ∧ (s.vars binder).find? name = some old ∧
        old.typeName ≠ v.typeName ∧ expected = old.typeName ∧ found = v.typeName) ∧
    (∀ other key, defined.2.lookupType other key = s.lookupType other key ∧
      assigned.2.lookupType other key = s.lookupType other key ∧
      (s.perform (.defineType id name type)).2.lookupVariable other key =
        s.lookupVariable other key) := by
  have horder := hs.parentsOlder
  have hdefined := seen_defineVariable horder id name v
  simp only [perform, lookupType_defineVariable, lookupVariable_defineType, true_and, and_true]
  refine ⟨hdefined, ?_⟩
  -- what is left depends on how the assignment ends
  rw [← assign_eq_undefined_iff horder (v := v)]
  simp only [← assign_eq_typeMismatch_iff horder (v := v)]
  cases hassign : s.assign id name v with
  | error e =>
      refine ⟨fun h => ?_, fun _ _ _ _ => rfl, ?_, fun expected found => ?_, fun _ _ => rfl⟩
      · cases h
      · simp
      · simp
  | ok t =>
      refine ⟨fun _ => seen_assign horder hassign, fun e h => ?_, ?_, fun expected found => ?_,
        fun other key => ?_⟩
      · cases h
      · simp
      · simp
      · obtain ⟨binder, _, _, _, rfl⟩ := exists_of_assign hassign
        exact lookupType_defineVariable s binder other name key v

/-- A store with three scopes, the second and the third inside the first. The first and the second
bind `x`. -/
def shadowed : Store :=
  ⟨#[⟨[], [("x", .int 1)], none⟩, ⟨[], [("x", .int 2)], some ⟨0⟩⟩, ⟨[], [], some ⟨0⟩⟩]⟩

/-- The example is built by the operations. -/
theorem built_shadowed : shadowed.Built := by
  have hroot := Built.empty.perform .addRoot nofun
  have hfirst := hroot.perform (.addChild ⟨0⟩) fun _ h => by cases h; decide
  have hsecond := hfirst.perform (.addChild ⟨0⟩) fun _ h => by cases h; decide
  have houter := hsecond.perform (.defineVariable ⟨0⟩ "x" (.int 1)) nofun
  exact houter.perform (.defineVariable ⟨1⟩ "x" (.int 2)) nofun

/-- An assignment from the third scope is seen from the first, and not from the second. -/
theorem seen_after_change_shadowed :
    shadowed.Built ∧
    ∃ t, shadowed.perform (.assign ⟨2⟩ "x" (.int 5)) = (.ok (), t) ∧
      t.lookupVariable ⟨0⟩ "x" = some (.int 5) ∧
      t.lookupVariable ⟨1⟩ "x" = shadowed.lookupVariable ⟨1⟩ "x" := by
  have hseen := (seen_after_change built_shadowed ⟨2⟩ "x" (.int 5) ⟨"", [], []⟩).2.1 rfl
  have houter : shadowed.Nearest "x" ⟨0⟩ ⟨0⟩ := .here ⟨.int 1, rfl⟩
  have hassigns : shadowed.Nearest "x" ⟨2⟩ ⟨0⟩ := by
    have hscope : shadowed.scope? ⟨2⟩ = some ⟨[], [], some ⟨0⟩⟩ := rfl
    refine .above ?_ hscope rfl houter
    rintro ⟨v, hv⟩
    cases hv
  refine ⟨built_shadowed, _, rfl, (hseen ⟨0⟩ "x").1 ⟨rfl, ⟨0⟩, hassigns, houter⟩, ?_⟩
  refine (hseen ⟨1⟩ "x").2 ?_
  rintro ⟨-, binder, hbinder, hinner⟩
  have horder := built_shadowed.parentsOlder
  have h := (nearest_iff horder).mp hbinder
  have h' := (nearest_iff horder).mp hinner
  rw [← h] at h'
  exact absurd h' (by decide)

end StructScript.Store
