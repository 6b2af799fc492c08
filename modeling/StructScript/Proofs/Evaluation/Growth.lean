import StructScript.Proofs.Evaluation.Code
import StructScript.Proofs.Evaluation.Frames
import StructScript.Proofs.Evaluation.Locality
import StructScript.Proofs.Store.Ascent
import StructScript.Proofs.Store.Contents

/-!
# Programs change stores by operations

All that a program does to a store are operations on scopes that are there: it makes scopes inside
them, and it binds and assigns variables and types. The values that it binds capture scopes that are
there, too. So the store that an evaluation leaves comes from the one before it by a sequence of
changes (`Store.Evolves`), and what holds of every such sequence holds of every evaluation.

A store is *sound* if parents are older than the scopes inside them and all captured scopes are
there. The second is what a call relies on, which makes a scope inside one that a function has
captured. Scopes are added while programs run, so the judgement about a computation (`Eval.Grows`)
speaks of the scopes that are there when it begins, and of the values that it gives over those that
are there when it ends.

Main results:

* `Store.Sound.evolves`, and `Store.parent?_of_evolves`: sequences of changes keep stores sound, and
  parents as they are;
* `Eval.grows_eval`, `Eval.grows_execAll` and `Eval.grows_call`: evaluations are such sequences.
-/

namespace StructScript

/-! ### Values over the first scopes -/

namespace Value

variable {v : Value} {id : ScopeId}

/-- A field of a value captures no other scopes than the value. -/
theorem Captures.of_get {field : String} (h : (v.get field).Captures id) : v.Captures id := by
  have hplain (w : Value) (hw : w.Plain) : ¬ (w.getPrimitive field).Captures id :=
    (hw.getPrimitive field).not_captures id
  cases v with
  | struct record =>
      rcases hfind : NameMap.find? record.fields field with _ | w
      · simp only [get, hfind] at h
        cases h
      · simp only [get, hfind] at h
        exact .field (NameMap.mem_of_find? hfind) h
  | func f => cases h
  | _ => exact absurd h (hplain _ trivial)

/-- What captures a scope in a struct with one field bound is the new value or was there before. -/
theorem Captures.of_insert {record : Record Value} {name : String}
    (h : (struct { record with fields := NameMap.insert name v record.fields }).Captures id) :
    (struct record).Captures id ∨ v.Captures id := by
  cases h with
  | field hentry h =>
      rcases NameMap.mem_insert hentry with rfl | hentry
      · exact .inr h
      · exact .inl (.field hentry h)

/-- Replacing a field at the end of a path brings in no other scopes than those of the field. -/
theorem Captures.of_setPath {path : List Ast.Ident} {target new : Value}
    (hset : target.setPath path v = .ok new) (h : new.Captures id) :
    target.Captures id ∨ v.Captures id := by
  induction path generalizing target new with
  | nil =>
      cases hset
      exact .inr h
  | cons field rest ih =>
      unfold Value.setPath at hset
      split at hset
      · rename_i record
        split at hset
        · repeat' split at hset
          all_goals cases hset
          exact h.of_insert
        · split at hset
          · cases hset
          · rename_i hinner
            cases hset
            rcases h.of_insert with h | h
            · exact .inl h
            · rcases ih hinner h with h | h
              · have hfield : ((struct record).get field.name).Captures id := h
                exact .inl hfield.of_get
              · exact .inr h
      · cases hset

/-- The scopes that the value captures are among the first `n`. -/
def Below (n : Nat) (v : Value) : Prop := ∀ id, v.Captures id → id.index < n

/-- Values over the first scopes are values over more of them. -/
theorem Below.mono {n m : Nat} (h : v.Below n) (hnm : n ≤ m) : v.Below m :=
  fun id hid => Nat.lt_of_lt_of_le (h id hid) hnm

/-- A value without parts captures no scope. -/
theorem Plain.below (hv : v.Plain) (n : Nat) : v.Below n :=
  fun id h => absurd h (hv.not_captures id)

/-- A function captures its scope alone. -/
theorem below_func_iff {n : Nat} {f : Closure} : (func f).Below n ↔ f.scope.index < n := by
  constructor
  · exact fun h => h _ (.func f)
  · intro h id hid
    cases hid
    exact h

end Value

namespace Store

variable {s t : Store} {id : ScopeId} {n : Nat}

/-! ### Changes among the scopes that are there -/

/-- The scopes that the change names, and those that its value captures, are among the first `n`. -/
def Change.Below (n : Nat) : Change → Prop
  | .addRoot => True
  | .addChild parent => parent.index < n
  | .defineVariable id _ v => id.index < n ∧ v.Below n
  | .defineType id _ _ => id.index < n
  | .assign id _ v => id.index < n ∧ v.Below n

/-- The second store comes from the first by a change among the scopes that are there. -/
def Operates (s t : Store) : Prop :=
  ∃ change : Change, change.Below s.scopes.size ∧ t = (s.perform change).2

/-- The second store comes from the first by a sequence of changes, each among the scopes that are
there. -/
def Evolves : Store → Store → Prop := Relation.ReflTransGen Operates

/-- An assignment changes nothing, or it is a definition where the variable is bound. -/
theorem perform_assign_cases (s : Store) (id : ScopeId) (name : String) (v : Value) :
    (s.perform (.assign id name v)).2 = s ∨
      ∃ binder, (s.perform (.assign id name v)).2 = s.defineVariable binder name v := by
  rw [perform]
  cases hassign : s.assign id name v with
  | error e => exact .inl rfl
  | ok t =>
      obtain ⟨binder, -, -, -, rfl⟩ := exists_of_assign hassign
      exact .inr ⟨binder, rfl⟩

/-- No change removes a scope. -/
theorem size_le_perform (s : Store) (change : Change) :
    s.scopes.size ≤ (s.perform change).2.scopes.size := by
  cases change with
  | addRoot | addChild => simp [perform, addRoot, addChild]
  | defineVariable | defineType => simp [perform]
  | assign id name v =>
      rcases s.perform_assign_cases id name v with h | ⟨binder, h⟩
      · simp [h]
      · simp [h]

/-- A new scope leaves the parents of the others as they are. -/
theorem parent?_add (hid : id.index < s.scopes.size) (parent : Option ScopeId) :
    (s.add parent).2.parent? id = s.parent? id := by
  rw [parent?, scope?_add, if_neg (Nat.ne_of_lt hid), parent?]

/-- A change of what a scope holds leaves all parents as they are. -/
theorem parent?_modifyScope (s : Store) (id other : ScopeId) {f : Scope → Scope}
    (hf : ∀ scope, (f scope).parent = scope.parent) :
    (s.modifyScope other f).parent? id = s.parent? id := by
  rw [parent?, scope?_modifyScope, parent?]
  split
  · rename_i heq
    subst heq
    rw [Option.bind_map]
    exact congrArg _ (funext hf)
  · rfl

/-- A change leaves a scope that is there inside the same one. -/
theorem parent?_perform (hid : id.index < s.scopes.size) (change : Change) :
    (s.perform change).2.parent? id = s.parent? id := by
  have hdefine (binder : ScopeId) (name : String) (v : Value) :
      (s.defineVariable binder name v).parent? id = s.parent? id :=
    s.parent?_modifyScope id binder fun _ => rfl
  cases change with
  | addRoot | addChild => exact parent?_add hid _
  | defineVariable binder name v => exact hdefine binder name v
  | defineType => exact s.parent?_modifyScope id _ fun _ => rfl
  | assign scope name v =>
      rcases s.perform_assign_cases scope name v with h | ⟨binder, h⟩
      · rw [h]
      · rw [h, hdefine]

/-! ### Sound stores -/

/-- Parents are older than the scopes inside them, and the scopes that functions have captured are
there. -/
structure Sound (s : Store) : Prop where
  parentsOlder : s.ParentsOlder
  captured : s.Every (Value.Below s.scopes.size) fun _ _ => True

/-- A store without scopes is sound. -/
theorem Sound.empty : Store.empty.Sound := ⟨.empty, .empty _ _⟩

/-- Where all values are over the first scopes they are over more of them. -/
theorem Every.below_mono {m : Nat} (h : s.Every (Value.Below n) fun _ _ => True) (hnm : n ≤ m) :
    s.Every (Value.Below m) fun _ _ => True := by
  intro id scope hscope
  obtain ⟨hvars, htypes⟩ := h id scope hscope
  exact ⟨fun entry hentry => (hvars entry hentry).mono hnm, htypes⟩

namespace Sound

/-- A change among the scopes that are there keeps a store sound. -/
theorem perform (h : s.Sound) {change : Change} (hchange : change.Below s.scopes.size) :
    (s.perform change).2.Sound := by
  have hdefine (binder : ScopeId) (name : String) {v : Value} (hv : v.Below s.scopes.size) :
      (s.defineVariable binder name v).Every (Value.Below s.scopes.size) fun _ _ => True :=
    h.captured.defineVariable binder name hv
  have holder : (s.perform change).2.ParentsOlder := h.parentsOlder.perform fun parent hparent => by
    subst hparent
    exact hchange
  refine ⟨holder, Every.below_mono (n := s.scopes.size) ?_ (size_le_perform s change)⟩
  cases change with
  | addRoot | addChild => exact h.captured.add _
  | defineVariable binder name v => exact hdefine binder name hchange.2
  | defineType binder name type => exact h.captured.defineType binder trivial
  | assign scope name v =>
      rcases s.perform_assign_cases scope name v with heq | ⟨binder, heq⟩
      · rw [heq]
        exact h.captured
      · rw [heq]
        exact hdefine binder name hchange.2

/-- Sound stores stay sound, by induction on the changes. -/
theorem evolves (h : s.Sound) (hst : s.Evolves t) : t.Sound := by
  induction hst with
  | refl => exact h
  | tail _ hop ih =>
      obtain ⟨change, hchange, rfl⟩ := hop
      exact ih.perform hchange

end Sound

/-- Scopes are never removed. -/
theorem size_le_of_evolves (hst : s.Evolves t) : s.scopes.size ≤ t.scopes.size := by
  induction hst with
  | refl => exact Nat.le_refl _
  | tail _ hop ih =>
      obtain ⟨change, -, rfl⟩ := hop
      exact Nat.le_trans ih (size_le_perform _ change)

/-- Whatever is done to a store, a scope that is there stays inside the same one. -/
theorem parent?_of_evolves (hst : s.Evolves t) (hid : id.index < s.scopes.size) :
    t.parent? id = s.parent? id := by
  induction hst with
  | refl => rfl
  | tail hst hop ih =>
      obtain ⟨change, -, rfl⟩ := hop
      rw [parent?_perform (Nat.lt_of_lt_of_le hid (size_le_of_evolves hst)), ih]

/-- Binding some variables in a scope is a sequence of changes. -/
theorem evolves_defineAll (hid : id.index < s.scopes.size) {bindings : List (String × Value)}
    (hb : ∀ b ∈ bindings, b.2.Below s.scopes.size) : s.Evolves (s.defineAll id bindings) := by
  induction bindings generalizing s with
  | nil => exact .refl
  | cons b rest ih =>
      obtain ⟨hfirst, hrest⟩ := List.forall_mem_cons.mp hb
      refine .head ⟨.defineVariable id b.1 b.2, ⟨hid, hfirst⟩, rfl⟩ (ih ?_ ?_)
      · exact Nat.lt_of_lt_of_eq hid (size_defineVariable ..).symm
      · exact fun c hc => (hrest c hc).mono (Nat.le_of_eq (size_defineVariable ..).symm)

end Store

namespace Eval

variable {α β : Type} {n : Nat} {post : Nat → α → Prop} {post' : Nat → β → Prop}

/-! ### Computations that let stores grow -/

/-- On a sound store with at least `n` scopes the computation makes a sequence of changes; if it
gives a value, then one in `post` over the scopes that there are in the end. -/
def Grows (n : Nat) (m : Eval α) (post : Nat → α → Prop) : Prop :=
  ∀ s r t, s.store.Sound → n ≤ s.store.scopes.size → m s = some (r, t) →
    s.store.Evolves t.store ∧ ∀ a, r = .ok a → post t.store.scopes.size a

namespace Grows

/-- The computation begins with just the scopes that it may speak of. -/
theorem run {m : Eval α} {s t : Machine} {r : Except EvalError α}
    (h : Grows s.store.scopes.size m post) (hs : s.store.Sound) (hr : m s = some (r, t)) :
    s.store.Evolves t.store ∧ ∀ a, r = .ok a → post t.store.scopes.size a :=
  h s r t hs (Nat.le_refl _) hr

/-- Giving a value, which has to be one over all larger stores as well. -/
theorem pure {a : α} (h : ∀ k, n ≤ k → post k a) : Grows n (Pure.pure a) post := by
  intro s r t _ hn hr
  cases hr
  refine ⟨.refl, fun b hb => ?_⟩
  cases hb
  exact h _ hn

/-- Failing changes nothing. -/
theorem fail (e : EvalError) : Grows n (Bounded.fail e) post := by
  intro s r t _ _ hr
  cases hr
  exact ⟨.refl, fun a ha => by cases ha⟩

/-- A result without a place changes nothing. -/
theorem ofCause {x : Except EvalError.Cause α} (h : ∀ a, x = .ok a → ∀ k, n ≤ k → post k a) :
    Grows n (Eval.ofCause x) post := by
  cases x with
  | error cause => exact fail _
  | ok a => exact pure (h a rfl)

/-- What comes second begins with the scopes that the first has left. -/
theorem bind {m : Eval α} {f : α → Eval β} (hm : Grows n m post)
    (hf : ∀ k a, n ≤ k → post k a → Grows k (f a) post') : Grows n (m >>= f) post' := by
  intro s r t hs hn hr
  rcases Bounded.cases_of_bind hr with ⟨e, he, rfl⟩ | ⟨a, s', ha, hr⟩
  · exact ⟨(hm s _ t hs hn he).1, fun b hb => by cases hb⟩
  · obtain ⟨hfirst, hpost⟩ := hm s _ s' hs hn ha
    have hsize := Nat.le_trans hn (Store.size_le_of_evolves hfirst)
    obtain ⟨hrest, hpost'⟩ := (hf _ a hsize (hpost a rfl)).run (hs.evolves hfirst) hr
    exact ⟨hfirst.trans hrest, hpost'⟩

/-- The state is read, and what is read may capture all scopes that are there. -/
theorem state {f : Machine → Eval α}
    (h : ∀ m, m.store.Sound → Grows m.store.scopes.size (f m) post) :
    Grows n (Bounded.state >>= f) post :=
  fun s _ _ hs _ hr => (h s hs).run hs hr

/-- Giving an error its place changes nothing else. -/
theorem locate {m : Eval α} (hm : Grows n m post) (span : Span) :
    Grows n (Eval.locate span m) post := by
  intro s r t hs hn hr
  obtain ⟨r', hr', hok⟩ := Bounded.exists_of_mapError hr
  obtain ⟨hst, hpost⟩ := hm s r' t hs hn hr'
  exact ⟨hst, fun a ha => hpost a (hok a ha)⟩

/-- The frame of a call is no part of the store. -/
theorem inFrame {body : Eval α} (h : Grows n body post) (frame : Frame) :
    Grows n (Eval.inFrame frame body) post := by
  intro s r t hs hn hr
  rcases s.calls.hasRoom_or_full with hroom | ⟨limit, hfull⟩
  · rw [inFrame_of_hasRoom hroom] at hr
    obtain ⟨⟨r', t'⟩, hbody, hleave⟩ := Option.map_eq_some_iff.mp hr
    obtain ⟨hst, hpost⟩ := h (s.enter frame) r' t' hs hn hbody
    cases hleave
    exact ⟨hst, fun a ha => hpost a (leave_fst_eq_ok_iff.mp ha)⟩
  · rw [inFrame_of_full hfull] at hr
    cases hr
    exact ⟨.refl, fun a ha => by cases ha⟩

end Grows

/-! ### The basic steps of the machine -/

/-- A variable of a sound store has a value over its scopes. -/
theorem grows_lookup (scope : ScopeId) (name : Ast.Ident) :
    Grows n (Eval.lookup scope name) Value.Below := by
  refine .state fun m hm => ?_
  split
  · rename_i v hv
    exact .pure fun k hk => (hm.captured.lookupVariable hv).mono hk
  · exact .fail _

/-- So has a place, by induction on it. -/
theorem grows_readPlace (scope : ScopeId) : (place : Ast.Place) →
    Grows n (Eval.readPlace scope place) Value.Below
  | .var name => grows_lookup scope name
  | .field base name _ => by
      rw [Eval.readPlace]
      refine (grows_readPlace scope base).bind fun k v _ hv => .pure fun l hl id hid => ?_
      exact hv.mono hl id hid.of_get

/-- Types capture no scope. -/
theorem grows_instantiate (scope : ScopeId) (type : Ast.TypeExpr) :
    Grows n (Eval.instantiate scope type) fun _ _ => True := by
  intro s r t _ _ hr
  rw [Inert.instantiate scope type s r t hr]
  exact ⟨.refl, fun _ _ => trivial⟩

/-- Printing leaves the store as it is. -/
theorem grows_print (text : String) : Grows n (Eval.print text) fun _ _ => True := by
  intro s r t _ _ hr
  cases hr
  exact ⟨.refl, fun _ _ => trivial⟩

/-- Defining a variable with a value over the scopes that are there. -/
theorem grows_define {scope : ScopeId} (hscope : scope.index < n) (name : String) {v : Value}
    (hv : v.Below n) : Grows n (Eval.define scope name v) fun _ _ => True := by
  intro s r t _ hn hr
  cases hr
  have hchange : (Store.Change.defineVariable scope name v).Below s.store.scopes.size :=
    ⟨Nat.lt_of_lt_of_le hscope hn, hv.mono hn⟩
  exact ⟨.single ⟨_, hchange, rfl⟩, fun _ _ => trivial⟩

/-- Defining a type. -/
theorem grows_defineType {scope : ScopeId} (hscope : scope.index < n) (name : String)
    (type : StructType) : Grows n (Eval.defineType scope name type) fun _ _ => True := by
  intro s r t _ hn hr
  cases hr
  have hchange : (Store.Change.defineType scope name type).Below s.store.scopes.size :=
    Nat.lt_of_lt_of_le hscope hn
  exact ⟨.single ⟨_, hchange, rfl⟩, fun _ _ => trivial⟩

/-- A call makes its scope inside one that is there, and binds its arguments there. -/
theorem grows_enterScope {parent : ScopeId} (hparent : parent.index < n)
    {bindings : List (String × Value)} (hb : ∀ b ∈ bindings, b.2.Below n) :
    Grows n (Eval.enterScope parent bindings) fun k scope => scope.index < k := by
  intro s r t _ hn hr
  rw [enterScope_apply] at hr
  cases hr
  have hchild : s.store.Operates (s.store.addChild parent).2 :=
    ⟨.addChild parent, Nat.lt_of_lt_of_le hparent hn, rfl⟩
  have hsize : (s.store.addChild parent).2.scopes.size = s.store.scopes.size + 1 :=
    Store.size_add ..
  have hscope : (s.store.addChild parent).1.index < (s.store.addChild parent).2.scopes.size :=
    Nat.lt_of_lt_of_eq (Nat.lt_succ_self _) hsize.symm
  have hbelow : ∀ b ∈ bindings, b.2.Below (s.store.addChild parent).2.scopes.size := fun b hmem =>
    (hb b hmem).mono (Nat.le_trans (Nat.le_succ_of_le hn) (Nat.le_of_eq hsize.symm))
  have hbindings := Store.evolves_defineAll hscope hbelow
  refine ⟨.head hchild hbindings, fun scope h => ?_⟩
  cases h
  exact Nat.lt_of_lt_of_le hscope (Store.size_le_of_evolves hbindings)

/-- Assigning a value over the scopes that are there. -/
theorem grows_assignPlace {scope : ScopeId} (hscope : scope.index < n) (target : Ast.Place)
    {v : Value} (hv : v.Below n) :
    Grows n (Eval.assignPlace scope target v) fun _ _ => True := by
  intro s r t hs hn hr
  unfold Eval.assignPlace at hr
  split at hr
  · cases hr
    exact ⟨.refl, fun _ _ => trivial⟩
  · rename_i store hstore
    cases hr
    obtain ⟨binder, old, new, hbinder, hset, htype, rfl⟩ := Store.exists_of_assignPlace hstore
    have hnew : new.Below s.store.scopes.size := fun id hid =>
      (hid.of_setPath hset).elim (hs.captured.binder? hbinder id) (hv.mono hn id)
    have hassign : s.store.assign scope target.root.name new =
        .ok (s.store.defineVariable binder target.root.name new) := by
      simp only [Store.assign, hbinder, if_pos htype]
    refine ⟨.single ⟨.assign scope target.root.name new, ⟨Nat.lt_of_lt_of_le hscope hn, hnew⟩, ?_⟩,
      fun _ _ => trivial⟩
    rw [Store.perform, hassign]

/-! ### Expressions -/

/-- The calls of the rules make sequences of changes, and give values over the scopes that are
there. -/
def RulesGrow (rules : Rules) : Prop :=
  ∀ (n : Nat) (name : String) (f : Closure) (args : List Value) (span : Span), f.scope.index < n →
    (∀ v ∈ args, v.Below n) → Grows n (rules.call name f args span) Value.Below

variable {rules : Rules} {scope : ScopeId}

/-- Calling what a place holds. -/
theorem grows_callPlace (hrules : RulesGrow rules) (scope : ScopeId) (callee : Ast.Place)
    {args : List Value} (hargs : ∀ v ∈ args, v.Below n) (span : Span) :
    Grows n (Eval.callPlace rules scope callee args span) Value.Below := by
  unfold Eval.callPlace
  split
  · rename_i f _
    exact (grows_print (f.printed args)).bind fun _ _ _ _ =>
      .pure fun k _ => Value.Plain.below (v := .nil) trivial k
  · refine (grows_readPlace scope callee).bind fun k v hk hv => ?_
    split
    · exact hrules k _ _ args span (Value.below_func_iff.mp hv) fun w hw => (hargs w hw).mono hk
    · exact .fail _

/-- A struct is over the scopes that its fields are over. -/
theorem below_of_buildStruct {strict : Bool} {type : Ast.TypeExpr} {inst : Instantiation}
    {fields : NameMap Value} (hfields : ∀ entry ∈ fields, entry.2.Below n) {v : Value}
    (h : Eval.buildStruct strict type inst fields = .ok v) : v.Below n := by
  unfold Eval.buildStruct at h
  split at h
  · cases h
  · cases h
    intro id hid
    cases hid with
    | field hentry hid => exact hfields _ hentry id hid

mutual

/-- Evaluating an expression in a scope that is there is a sequence of changes. -/
theorem grows_eval (hrules : RulesGrow rules) {n : Nat} (hscope : scope.index < n) :
    (e : Ast.Expr) → Grows n (e.eval rules scope) Value.Below
  | ⟨node, span⟩ => by
      rw [Ast.Expr.eval]
      exact (grows_evalNode hrules hscope span node).locate span

/-- Evaluating what an expression is. A function literal captures the scope that it is evaluated in.
-/
theorem grows_evalNode (hrules : RulesGrow rules) {n : Nat} (hscope : scope.index < n)
    (span : Span) : (node : Ast.Node) → Grows n (node.eval rules scope span) Value.Below
  | .literal kind lexeme => by
      rw [Ast.Node.eval]
      exact .ofCause fun v hv k _ => (Value.plain_of_ofLiteral hv).below k
  | .place place => by
      rw [Ast.Node.eval]
      exact grows_readPlace scope place
  | .struct type inits => by
      rw [Ast.Node.eval]
      apply (grows_instantiate scope type).bind
      intro k inst hk _
      have hnone : ∀ entry ∈ ([] : NameMap Value), entry.2.Below k := nofun
      have hinits := grows_evalInits hrules (Nat.lt_of_lt_of_le hscope hk) type.name.name
        inst.type.fields hnone inits
      refine hinits.bind fun l fields _ hfields => .ofCause fun v hv m hm => ?_
      exact (below_of_buildStruct hfields hv).mono hm
  | .unary op operand => by
      rw [Ast.Node.eval]
      apply (grows_eval hrules hscope operand).bind
      intro k a _ _
      exact .ofCause fun v hv l _ => (Value.plain_of_applyUnary hv).below l
  | .binary op left right => by
      rw [Ast.Node.eval]
      apply (grows_eval hrules hscope left).bind
      intro k a hk _
      apply (grows_eval hrules (Nat.lt_of_lt_of_le hscope hk) right).bind
      intro l b _ _
      exact .ofCause fun v hv m _ => (Value.plain_of_applyBinary hv).below m
  | .call callee args => by
      rw [Ast.Node.eval]
      exact (grows_evalArgs hrules hscope args).bind fun k values _ hvalues =>
        grows_callPlace hrules scope callee hvalues span
  | .func f => by
      rw [Ast.Node.eval]
      exact .pure fun k hk => Value.below_func_iff.mpr (Nat.lt_of_lt_of_le hscope hk)

/-- Evaluating initialisers; the fields given so far stay below as the store grows. -/
theorem grows_evalInits (hrules : RulesGrow rules) {n : Nat} (hscope : scope.index < n)
    (typeName : String) (declared : NameMap TypeName) {given : NameMap Value}
    (hgiven : ∀ entry ∈ given, entry.2.Below n) : (inits : List Ast.FieldInit) →
      Grows n (Ast.Node.evalInits rules scope typeName declared given inits)
        fun k fields => ∀ entry ∈ fields, entry.2.Below k
  | [] => by
      rw [Ast.Node.evalInits]
      exact .pure fun k hk entry hentry => (hgiven entry hentry).mono hk
  | ⟨name, value, span⟩ :: rest => by
      rw [Ast.Node.evalInits]
      split
      · exact .fail _
      · refine (grows_eval hrules hscope value).bind fun k v hk hv => ?_
        split
        · refine grows_evalInits hrules (Nat.lt_of_lt_of_le hscope hk) typeName declared
            (fun entry hentry => ?_) rest
          rcases NameMap.mem_insert hentry with rfl | hentry
          · exact hv
          · exact (hgiven entry hentry).mono hk
        · exact .fail _

/-- Evaluating arguments; the values of the first stay below as the store grows. -/
theorem grows_evalArgs (hrules : RulesGrow rules) {n : Nat} (hscope : scope.index < n) :
    (args : List Ast.Expr) → Grows n (Ast.Node.evalArgs rules scope args)
      fun k values => ∀ v ∈ values, v.Below k
  | [] => by
      rw [Ast.Node.evalArgs]
      exact .pure nofun
  | arg :: rest => by
      rw [Ast.Node.evalArgs]
      apply (grows_eval hrules hscope arg).bind
      intro k v hk hv
      refine (grows_evalArgs hrules (Nat.lt_of_lt_of_le hscope hk) rest).bind
        fun l vs hl hvs => .pure fun m hm => ?_
      exact List.forall_mem_cons.mpr
        ⟨hv.mono (Nat.le_trans hl hm), fun w hw => (hvs w hw).mono hm⟩

end

/-! ### Statements and calls -/

/-- How a list of statements may end: a returned value captures scopes among the first `k`. -/
def EndsBelow (k : Nat) (outcome : Outcome) : Prop :=
  ∀ v, outcome.returned? = some v → v.Below k

/-- Running a statement. -/
theorem grows_exec (hrules : RulesGrow rules) (hscope : scope.index < n) (stmt : Ast.Stmt) :
    Grows n (stmt.exec rules scope) EndsBelow := by
  have hcompleted {k : Nat} : Grows k (Pure.pure Outcome.completed) EndsBelow := .pure nofun
  cases stmt with
  | typeDef name definition span =>
      rw [Ast.Stmt.exec]
      exact (grows_defineType hscope _ _).bind fun _ _ _ _ => hcompleted
  | define target value span =>
      rw [Ast.Stmt.exec]
      apply (grows_eval hrules hscope value).bind
      intro k v hk hv
      exact (grows_define (Nat.lt_of_lt_of_le hscope hk) _ hv).bind fun _ _ _ _ => hcompleted
  | assign target value span =>
      rw [Ast.Stmt.exec]
      apply (grows_eval hrules hscope value).bind
      intro k v hk hv
      have hassign := grows_assignPlace (Nat.lt_of_lt_of_le hscope hk) target hv
      exact (hassign.locate span).bind fun _ _ _ _ => hcompleted
  | ret value span =>
      cases value with
      | none =>
          rw [Ast.Stmt.exec]
          refine .pure fun k _ v hv => ?_
          cases hv
          exact Value.Plain.below (v := .nil) trivial k
      | some value =>
          rw [Ast.Stmt.exec]
          refine (grows_eval hrules hscope value).bind fun k v _ hv => .pure fun l hl w hw => ?_
          cases hw
          exact hv.mono hl
  | expr e =>
      rw [Ast.Stmt.exec]
      exact (grows_eval hrules hscope e).bind fun _ _ _ _ => hcompleted

/-- Running statements in a scope that is there is a sequence of changes. -/
theorem grows_execAll (hrules : RulesGrow rules) (hscope : scope.index < n)
    (stmts : List Ast.Stmt) : Grows n (Ast.Stmt.execAll rules scope stmts) EndsBelow := by
  induction stmts generalizing n with
  | nil => exact .pure nofun
  | cons stmt rest ih =>
      rw [Ast.Stmt.execAll]
      apply (grows_exec hrules hscope stmt).bind
      intro k outcome hk houtcome
      cases outcome with
      | completed => exact ih (Nat.lt_of_lt_of_le hscope hk)
      | returned v =>
          refine .pure fun l hl w hw => ?_
          exact (houtcome w hw).mono hl

/-- A call is a sequence of changes, however deep calls are nested inside it. -/
theorem grows_call (strict : Bool) (bound : Nat) :
    RulesGrow ⟨strict, Closure.call strict bound⟩ := by
  induction bound with
  | zero =>
      intro n name f args span _ _ s r t _ _ hr
      cases hr
  | succ bound ih =>
      intro n name f args span hf hargs
      have hcheck : Grows n (Eval.ofCause (f.checkArguments name args))
          fun k bindings => ∀ b ∈ bindings, b.2.Below k :=
        .ofCause fun bindings h k hk b hb =>
          (hargs _ (Closure.mem_of_checkArguments h hb)).mono hk
      change Grows n (Closure.call strict (bound + 1) name f args span) Value.Below
      rw [Closure.call]
      apply hcheck.bind
      intro k bindings hk hbindings
      have hbody : Grows k (Eval.enterScope f.scope bindings >>= fun scope =>
          Ast.Stmt.execAll ⟨strict, Closure.call strict bound⟩ scope f.definition.body) EndsBelow :=
        (grows_enterScope (Nat.lt_of_lt_of_le hf hk) hbindings).bind fun _ _ _ hscope =>
          grows_execAll ih hscope _
      refine (hbody.inFrame _).bind fun l outcome _ houtcome => .pure fun m hm => ?_
      cases outcome with
      | completed => exact Value.Plain.below (v := .nil) trivial m
      | returned v => exact (houtcome v rfl).mono hm

end Eval

end StructScript
