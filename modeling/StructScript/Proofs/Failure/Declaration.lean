import StructScript.Proofs.Grammar.Exactness
import StructScript.Proofs.Failure.Pinpoint

/-!
# Where the readers of lists and declarations fail

Each reader that holds no expressions fails at the first token that goes with no tree of the grammar.
The bound of a reader is not below the number `k` of tokens behind the cursor: each round of a list
takes a separator, and each type inside another stands behind a bracket, so the bound outlasts the
tokens.
-/

namespace StructScript.Parse

open ParseTree

variable {α : Type}

/-- `p` pinpoints the trees with the yield `yield` that are as `P` says. -/
abbrev PinpointsTrees (k : Nat) (p p' : Parse α) (yield : α → List Token) (P : α → Prop) : Prop :=
  Pinpoints k p p' fun ts a => ts = yield a ∧ P a

/-- A tree whose tokens do not end the text. -/
theorem viable_of_yield {yield : α → List Token} {P : α → Prop} {a : α} (hyield : NoEof (yield a))
    (ha : P a) : Viable (fun ts a => ts = yield a ∧ P a) [] :=
  ⟨yield a, a, hyield, rfl, ha⟩

/-! ### Lists -/

section Lists

variable {separator close : TokenKind} {item item' : Parse α} {yield : α → List Token}
  {P : α → Prop} {k n : Nat}

/-- A part that may be absent, where it is. -/
theorem pinpoints_none : Pinpoints k (pure none) (pure none) fun ts (a : Option α) =>
    ts = a.elim [] yield ∧ ∀ b ∈ a, P b :=
  Pinpoints.pure ⟨rfl, fun _ h => absurd h (Option.not_mem_none _)⟩

/-- A part that may be absent, where it is there. -/
theorem pinpoints_some (hitem : PinpointsTrees k item item' yield P) :
    Pinpoints k (some <$> item) (some <$> item') fun ts a =>
      ts = a.elim [] yield ∧ ∀ b ∈ a, P b := by
  refine Pinpoints.map (hitem.mono (Nat.le_refl k) fun _ _ h => ⟨h.1, fun _ hb => ?_⟩)
  exact Option.mem_some_iff.mp hb ▸ h.2

/-- A list of one item. -/
theorem viable_singleton {trailing : Bool} (hitem : PinpointsTrees k item item' yield P) :
    Viable (fun ts items => ts = Separated.yield yield items ∧
      Separated.Punctuated separator trailing items ∧ items ≠ [] ∧
        ∀ a ∈ Separated.values items, P a) [] := by
  obtain ⟨us, a, hus, hyield, ha⟩ := hitem.viable
  refine ⟨us, [⟨a, none⟩], hus, ?_, rfl, List.cons_ne_nil _ _, List.forall_mem_singleton.mpr ha⟩
  rw [hyield]
  exact (List.append_nil _).symm

/-- Lists without a closing token: behind an item a separator or anything else may follow. -/
theorem pinpoints_chain (hseparator : separator ≠ .eof) {j : Nat}
    (hitem : PinpointsTrees j item item' yield P) (hk : k ≤ j) (hn : k ≤ n) (n' : Nat) :
    PinpointsTrees k (chain separator item n) (chain separator item' n') (Separated.yield yield)
      fun items => Separated.Punctuated separator false items ∧ items ≠ [] ∧
        ∀ a ∈ Separated.values items, P a := by
  induction n generalizing k n' with
  | zero =>
      obtain rfl := Nat.le_zero.mp hn
      exact .zero (viable_singleton hitem)
  | succ n ih =>
      refine Pinpoints.of_succ rfl (fun m => ?_) n'
      unfold chain
      refine (hitem.le hk).seq ?_
      rintro _ a ⟨rfl, ha⟩
      refine Pinpoints.check (Pinpoints.expect hseparator fun token htoken => ?_)
        (Pinpoints.pure ?_)
      · refine (ih (by omega) (by omega) m).seq ?_
        rintro _ rest ⟨rfl, hrest, hne, hvalues⟩
        exact Pinpoints.pure ⟨by rw [List.append_nil]; rfl,
          ⟨htoken, fun h => absurd h hne, hrest⟩, List.cons_ne_nil _ _,
          List.forall_mem_cons.mpr ⟨ha, hvalues⟩⟩
      · exact ⟨rfl, rfl, List.cons_ne_nil _ _, List.forall_mem_singleton.mpr ha⟩

/-- The items of lists up to a closing token: behind an item nothing but a separator or that token
may follow. -/
theorem pinpoints_closedItems (hseparator : separator ≠ .eof) {j : Nat}
    (hitem : PinpointsTrees j item item' yield P) (hk : k ≤ j) (hn : k ≤ n) (n' : Nat) :
    PinpointsTrees k (closedItems separator close item n) (closedItems separator close item' n')
      (Separated.yield yield) fun items => Separated.Punctuated separator false items ∧
        items ≠ [] ∧ ∀ a ∈ Separated.values items, P a := by
  induction n generalizing k n' with
  | zero =>
      obtain rfl := Nat.le_zero.mp hn
      exact .zero (viable_singleton hitem)
  | succ n ih =>
      refine Pinpoints.of_succ rfl (fun m => ?_) n'
      unfold closedItems
      refine (hitem.le hk).seq ?_
      rintro _ a ⟨rfl, ha⟩
      refine Pinpoints.check (Pinpoints.pure ?_)
        (Pinpoints.expect hseparator fun token htoken => ?_)
      · exact ⟨rfl, rfl, List.cons_ne_nil _ _, List.forall_mem_singleton.mpr ha⟩
      · refine (ih (by omega) (by omega) m).seq ?_
        rintro _ rest ⟨rfl, hrest, hne, hvalues⟩
        exact Pinpoints.pure ⟨by rw [List.append_nil]; rfl,
          ⟨htoken, fun h => absurd h hne, hrest⟩, List.cons_ne_nil _ _,
          List.forall_mem_cons.mpr ⟨ha, hvalues⟩⟩

/-- Lists up to a closing token, which may be empty. -/
theorem pinpoints_closedList (hseparator : separator ≠ .eof) {j : Nat}
    (hitem : PinpointsTrees j item item' yield P) (hk : k ≤ j) (hn : k ≤ n) (n' : Nat) :
    PinpointsTrees k (closedList separator close item n) (closedList separator close item' n')
      (Separated.yield yield) fun items => Separated.Punctuated separator false items ∧
        ∀ a ∈ Separated.values items, P a := by
  refine Pinpoints.check (Pinpoints.pure ⟨rfl, trivial, List.forall_mem_nil _⟩) ?_
  exact (pinpoints_closedItems hseparator hitem hk hn n').mono (Nat.le_refl k)
    fun _ _ h => ⟨h.1, h.2.1, h.2.2.2⟩

/-- Lists that may end with a separator. -/
theorem pinpoints_openList (hseparator : separator ≠ .eof) {j : Nat}
    (hitem : PinpointsTrees j item item' yield P) (hk : k ≤ j) (hn : k ≤ n) (n' : Nat) :
    PinpointsTrees k (openList separator close item n) (openList separator close item' n')
      (Separated.yield yield) fun items => Separated.Punctuated separator true items ∧
        ∀ a ∈ Separated.values items, P a := by
  induction n generalizing k n' with
  | zero =>
      obtain rfl := Nat.le_zero.mp hn
      exact .zero ⟨[], [], .nil, rfl, trivial, List.forall_mem_nil _⟩
  | succ n ih =>
      refine Pinpoints.of_succ rfl (fun m => ?_) n'
      unfold openList
      refine Pinpoints.check (Pinpoints.pure ⟨rfl, trivial, List.forall_mem_nil _⟩)
        ((hitem.le hk).seq ?_)
      rintro _ a ⟨rfl, ha⟩
      refine Pinpoints.check (Pinpoints.pure ?_)
        (Pinpoints.expect hseparator fun token htoken => ?_)
      · exact ⟨rfl, rfl, List.forall_mem_singleton.mpr ha⟩
      · refine (ih (by omega) (by omega) m).seq ?_
        rintro _ rest ⟨rfl, hrest, hvalues⟩
        exact Pinpoints.pure ⟨by rw [List.append_nil]; rfl, ⟨htoken, fun _ => rfl, hrest⟩,
          List.forall_mem_cons.mpr ⟨ha, hvalues⟩⟩

end Lists

/-! ### Types, places and struct definitions -/

section Declarations

variable {k n : Nat}

/-- The arguments behind the name of a type. -/
theorem pinpoints_typeArgs {type type' : Parse TypeRef} {j : Nat}
    (htype : PinpointsTrees j type type' TypeRef.yield TypeRef.WellFormed) (hk : k ≤ j)
    (hn : k ≤ n) (n' : Nat) {name : Token} (hname : IsTypeName name) :
    Pinpoints k (typeArgs type n name) (typeArgs type' n' name) fun ts t =>
      name :: ts = t.yield ∧ t.name = name ∧ t.WellFormed := by
  refine Pinpoints.check (Pinpoints.within (Pinpoints.expect (by decide) fun lbracket hlbracket =>
    ?_)) (Pinpoints.pure ⟨rfl, rfl, .plain hname⟩)
  refine (pinpoints_chain (by decide) htype (by omega) (by omega) n').seq ?_
  rintro _ args ⟨rfl, hargs, hne, hvalues⟩
  refine Pinpoints.expect (by decide) fun rbracket hrbracket => Pinpoints.pure ⟨?_, rfl, ?_⟩
  · rw [TypeRef.yield, TypeRef.argsYield_eq]
  · exact .applied hname hlbracket hargs hne hvalues hrbracket

/-- Types, by induction on the tokens that are left. -/
theorem pinpoints_typeRef (hn : k ≤ n) (n' : Nat) :
    PinpointsTrees k (typeRef n) (typeRef n') TypeRef.yield TypeRef.WellFormed := by
  induction n generalizing k n' with
  | zero =>
      obtain rfl := Nat.le_zero.mp hn
      have hyield : NoEof (TypeRef.plain (.sample .ident "x")).yield := by decide
      exact .zero (viable_of_yield hyield (.plain (.inl rfl)))
  | succ n ih =>
      refine Pinpoints.of_succ rfl (fun m => ?_) n'
      refine Pinpoints.within (Pinpoints.expectAny (by decide) (by decide) fun name hname => ?_)
      have htype := ih (Nat.sub_le_of_le_add hn) m
      exact (pinpoints_typeArgs htype (Nat.le_refl _) (by omega) m
        (mem_typeNameKinds_iff.mp hname)).mono (Nat.le_refl _) fun _ _ h => ⟨h.1, h.2.2⟩

/-- The field accesses behind the beginning of a place. -/
theorem pinpoints_fields (hn : k ≤ n) (n' : Nat) {base : Place} (hbase : base.WellFormed) :
    Pinpoints k (fields n base) (fields n' base) fun ts p =>
      base.yield ++ ts = p.yield ∧ p.WellFormed := by
  induction n generalizing k n' base with
  | zero =>
      obtain rfl := Nat.le_zero.mp hn
      exact .zero ⟨[], base, .nil, List.append_nil _, hbase⟩
  | succ n ih =>
      refine Pinpoints.of_succ (g := fun m => fields m base) rfl (fun m => ?_) n'
      unfold fields
      refine Pinpoints.check ?_ (Pinpoints.pure ⟨List.append_nil _, hbase⟩)
      refine Pinpoints.expect (by decide) fun arrow harrow =>
        Pinpoints.expect (by decide) fun name hname => ?_
      refine (ih (by omega) m (.field hbase harrow hname)).mono (Nat.le_refl _) ?_
      intro ts p hp
      refine ⟨?_, hp.2⟩
      rw [← hp.1, Place.yield, List.append_assoc]
      rfl

/-- Places whose name has been taken. -/
theorem pinpoints_placeFrom (hn : k ≤ n) (n' : Nat) {name : Token} (hname : name.kind = .ident) :
    Pinpoints k (placeFrom n name) (placeFrom n' name) fun ts p =>
      name :: ts = p.yield ∧ p.WellFormed :=
  Pinpoints.check (Pinpoints.within (pinpoints_fields hn n' (.var hname)))
    (Pinpoints.pure ⟨rfl, .var hname⟩)

/-- Places. -/
theorem pinpoints_place (hn : k ≤ n) (n' : Nat) :
    PinpointsTrees k (place n) (place n') Place.yield Place.WellFormed :=
  Pinpoints.within (Pinpoints.expect (by decide) fun _ hname =>
    pinpoints_placeFrom (by omega) n' hname)

/-- Names. -/
theorem pinpoints_name : PinpointsTrees k (expect .ident) (expect .ident) (fun name => [name])
    fun name => name.kind = .ident := by
  rw [← Bounded.bind_pure_id (expect .ident)]
  exact Pinpoints.expect (by decide) fun name hname => Pinpoints.pure ⟨rfl, hname⟩

/-- Lists of names, which fail at their first token if that is none. -/
theorem pinpoints_nameList (hn : k ≤ n) (n' : Nat) :
    PinpointsTrees k (nameList n) (nameList n') (Separated.yield fun name => [name]) NameList := by
  have hchain : PinpointsTrees k (chain .comma (expect .ident) n) (chain .comma (expect .ident) n')
      (Separated.yield fun name => [name]) NameList :=
    (pinpoints_chain (by decide) pinpoints_name (Nat.le_refl k) hn n').mono (Nat.le_refl k)
      fun _ _ h => ⟨h.1, h.2.1, h.2.2.1, h.2.2.2⟩
  refine Pinpoints.within (Pinpoints.peek hchain.viable fun first c rest hc heof hlength => ?_)
  by_cases hfirst : first.kind = .ident
  · rw [if_pos hfirst, if_pos hfirst]
    exact hchain.pointsAt c heof hlength
  · rw [if_neg hfirst, if_neg hfirst]
    exact .fail hc rfl rfl nofun hchain.viable fun _ _ _ _ => nofun

/-- The parameters of a struct definition. -/
theorem pinpoints_typeParams (hn : k ≤ n) (n' : Nat) :
    PinpointsTrees k (typeParams n) (typeParams n') TypeParams.yield TypeParams.WellFormed := by
  refine Pinpoints.within (Pinpoints.expect (by decide) fun lbracket hlbracket => ?_)
  refine (pinpoints_nameList (by omega) n').seq ?_
  rintro _ names ⟨rfl, hnames⟩
  exact Pinpoints.expect (by decide) fun rbracket hrbracket =>
    Pinpoints.pure ⟨rfl, hlbracket, hnames, hrbracket⟩

/-- Field groups without their semicolon. -/
theorem pinpoints_fieldGroup (hn : k ≤ n) (n' : Nat) :
    PinpointsTrees k (fieldGroup n) (fieldGroup n') FieldGroup.itemYield
      fun g => NameList g.1 ∧ g.2.WellFormed := by
  refine (pinpoints_nameList hn n').seq ?_
  rintro _ names ⟨rfl, hnames⟩
  refine (pinpoints_typeRef hn n').seq ?_
  rintro _ type ⟨rfl, htype⟩
  exact Pinpoints.pure ⟨by rw [List.append_nil, FieldGroup.itemYield], hnames, htype⟩

/-- All field groups of a struct definition. -/
theorem pinpoints_fieldGroups (hn : k ≤ n) (n' : Nat) :
    Pinpoints k (fieldGroups n) (fieldGroups n') fun ts groups =>
      ts = groups.flatMap FieldGroup.yield ∧
        Separated.Punctuated .semicolon true (groups.map FieldGroup.toItem) ∧
          ∀ g ∈ groups, NameList g.names ∧ g.type.WellFormed := by
  refine Pinpoints.within ((pinpoints_openList (by decide) (pinpoints_fieldGroup hn n')
    (Nat.le_refl k) hn n').seq ?_)
  rintro _ items ⟨rfl, hitems, hvalues⟩
  refine Pinpoints.pure ⟨?_, ?_, ?_⟩
  · rw [List.append_nil, FieldGroup.flatMap_yield_eq, List.map_map]
    exact congrArg _ (List.map_id items).symm
  · rw [List.map_map]
    exact (List.map_id items).symm ▸ hitems
  · intro g hg
    obtain ⟨item, hitem, rfl⟩ := List.mem_map.mp hg
    exact hvalues _ (List.mem_map.mpr ⟨item, hitem, rfl⟩)

/-- Struct definitions, with parameters or without. -/
theorem pinpoints_structDef (hn : k ≤ n) (n' : Nat) :
    PinpointsTrees k (structDef n) (structDef n') StructDef.yield StructDef.WellFormed := by
  refine Pinpoints.within (Pinpoints.expect (by decide) fun structKw hstructKw => ?_)
  refine Pinpoints.check ((pinpoints_some (pinpoints_typeParams (by omega) n')).seq ?body)
    (pinpoints_none.seq ?body)
  rintro _ params ⟨rfl, hparams⟩
  refine Pinpoints.expect (by decide) fun lbrace hlbrace =>
    (pinpoints_fieldGroups (by omega) n').seq ?_
  rintro _ groups ⟨rfl, hpunctuated, hgroups⟩
  exact Pinpoints.expect (by decide) fun rbrace hrbrace => Pinpoints.pure
    ⟨rfl, hstructKw, hparams, hlbrace, hpunctuated, hgroups, hrbrace⟩

end Declarations

end StructScript.Parse
