import StructScript.Proofs.Evaluation.Conformity
import StructScript.Proofs.Evaluation.Growth
import StructScript.Proofs.Evaluation.Moment

/-!
# Every scope climbs to a root

A function may be bound in the very scope that it has captured, so scopes and values together are
full of cycles. The scopes alone are not. A scope is made inside one that is there and stays inside
it, whether it is made from outside or by a call; so its parents come to an end, and so do all loops
that climb from it.

The stores that can be met are those that a store without scopes leads to (`Store.Leads`). A step of
the way is an operation from outside, or an evaluation up to some point, be it that the evaluation
ends there, goes on, or never ends (`Moment.Passes`). What a session comes to are such stores
(`Session.Reachable.leads`).

Main result: `Store.parents_end`.
-/

namespace StructScript

/-- The scopes that a piece of an evaluation names, and those that its values capture, are among the
first `n`. -/
def Task.Below (n : Nat) : Task → Prop
  | .expr scope _ => scope.index < n
  | .inits scope _ _ given _ => scope.index < n ∧ ∀ entry ∈ given, entry.2.Below n
  | .args scope _ => scope.index < n
  | .stmt scope _ => scope.index < n
  | .stmts scope _ => scope.index < n
  | .call _ f values _ => f.scope.index < n ∧ ∀ v ∈ values, v.Below n

namespace Moment

variable {strict : Bool} {x y : Moment} {m : Machine}

/-- The machine that the evaluation leaves, if it ends within its bound. -/
def left? (strict : Bool) (x : Moment) : Option Machine :=
  match x.task with
  | .expr scope e => (e.eval (.upTo strict x.bound) scope x.machine).map (·.2)
  | .inits scope typeName declared given inits =>
    (Ast.Node.evalInits (.upTo strict x.bound) scope typeName declared given inits
      x.machine).map (·.2)
  | .args scope args => (Ast.Node.evalArgs (.upTo strict x.bound) scope args x.machine).map (·.2)
  | .stmt scope stmt => (stmt.exec (.upTo strict x.bound) scope x.machine).map (·.2)
  | .stmts scope stmts =>
    (Ast.Stmt.execAll (.upTo strict x.bound) scope stmts x.machine).map (·.2)
  | .call name f args span => (Closure.call strict x.bound name f args span x.machine).map (·.2)

/-- The evaluation comes to the machine on its way: a moment of it begins with the machine, or
leaves it. -/
def Passes (strict : Bool) (x : Moment) (m : Machine) : Prop :=
  ∃ y, Reaches strict x y ∧ (y.machine = m ∨ y.left? strict = some m)

/-- The store of a moment is sound, and the scopes that its task speaks of are there. -/
structure Grounded (x : Moment) : Prop where
  sound : x.machine.store.Sound
  below : x.task.Below x.machine.store.scopes.size

/-! ### What evaluations do to stores -/

/-- The evaluation of a grounded moment is a sequence of changes. -/
theorem Grounded.evolves_left (hx : x.Grounded) (h : x.left? strict = some m) :
    x.machine.store.Evolves m.store := by
  obtain ⟨n, task, s⟩ := x
  obtain ⟨hs, htask⟩ := hx
  have hrules := Eval.grows_call strict n
  cases task with
  | expr scope e =>
      obtain ⟨_, hr, rfl⟩ := Option.map_eq_some_iff.mp h
      exact ((Eval.grows_eval hrules htask e).run hs hr).1
  | inits scope typeName declared given inits =>
      obtain ⟨hscope, hgiven⟩ := htask
      obtain ⟨_, hr, rfl⟩ := Option.map_eq_some_iff.mp h
      exact ((Eval.grows_evalInits hrules hscope typeName declared hgiven inits).run hs hr).1
  | args scope args =>
      obtain ⟨_, hr, rfl⟩ := Option.map_eq_some_iff.mp h
      exact ((Eval.grows_evalArgs hrules htask args).run hs hr).1
  | stmt scope stmt =>
      obtain ⟨_, hr, rfl⟩ := Option.map_eq_some_iff.mp h
      exact ((Eval.grows_exec hrules htask stmt).run hs hr).1
  | stmts scope stmts =>
      obtain ⟨_, hr, rfl⟩ := Option.map_eq_some_iff.mp h
      exact ((Eval.grows_execAll hrules htask stmts).run hs hr).1
  | call name f args span =>
      obtain ⟨hf, hargs⟩ := htask
      obtain ⟨_, hr, rfl⟩ := Option.map_eq_some_iff.mp h
      exact ((hrules _ name f args span hf hargs).run hs hr).1

/-- What a grounded moment starts is grounded, and its store has come about by changes. -/
theorem Grounded.starts (hx : x.Grounded) (h : Starts strict x y) :
    x.machine.store.Evolves y.machine.store ∧ y.Grounded := by
  obtain ⟨hs, htask⟩ := hx
  have hrules := Eval.grows_call strict
  cases h with
  | operand | left | args | arg | defined | assigned | returned | statement | stmt =>
      exact ⟨.refl, hs, htask⟩
  | init hfield => exact ⟨.refl, hs, htask.1⟩
  | @inits n scope type inits span m m' inst h =>
      obtain rfl := Eval.Inert.instantiate scope type m _ m' h
      exact ⟨.refl, hs, htask, nofun⟩
  | @right n scope op a b span m m' v h =>
      have hst := ((Eval.grows_eval (hrules n) htask a).run hs h).1
      exact ⟨hst, hs.evolves hst, Nat.lt_of_lt_of_le htask (Store.size_le_of_evolves hst)⟩
  | @call n scope callee args span m m' m'' values f hargs hbuiltin hcallee =>
      obtain ⟨hst, hvalues⟩ := (Eval.grows_evalArgs (hrules n) htask args).run hs hargs
      obtain ⟨hst', hf⟩ := (Eval.grows_readPlace scope callee).run (hs.evolves hst) hcallee
      refine ⟨hst.trans hst', (hs.evolves hst).evolves hst', ?_, fun v hv => ?_⟩
      · exact Value.below_func_iff.mp (hf _ rfl)
      · exact (hvalues _ rfl v hv).mono (Store.size_le_of_evolves hst')
  | @nextInit n scope typeName declared given name value span rest m m' type v hfield h htype =>
      obtain ⟨hscope, hgiven⟩ := htask
      obtain ⟨hst, hv⟩ := (Eval.grows_eval (hrules n) hscope value).run hs h
      have hsize := Store.size_le_of_evolves hst
      refine ⟨hst, hs.evolves hst, Nat.lt_of_lt_of_le hscope hsize, fun entry hentry => ?_⟩
      rcases NameMap.mem_insert hentry with rfl | hentry
      · exact hv v rfl
      · exact (hgiven entry hentry).mono hsize
  | @nextArg n scope e rest m m' v h =>
      have hst := ((Eval.grows_eval (hrules n) htask e).run hs h).1
      exact ⟨hst, hs.evolves hst, Nat.lt_of_lt_of_le htask (Store.size_le_of_evolves hst)⟩
  | @nextStmt n scope stmt rest m m' h =>
      have hst := ((Eval.grows_exec (hrules n) htask stmt).run hs h).1
      exact ⟨hst, hs.evolves hst, Nat.lt_of_lt_of_le htask (Store.size_le_of_evolves hst)⟩
  | @body n name f args span m m' bindings calls scope hargs hpush hscope =>
      obtain ⟨hf, hvalues⟩ := htask
      have hbindings : ∀ b ∈ bindings, b.2.Below m.store.scopes.size := fun b hb =>
        hvalues _ (Closure.mem_of_checkArguments hargs hb)
      obtain ⟨hst, hnew⟩ :=
        (Eval.grows_enterScope hf hbindings).run (s := { m with calls := calls }) hs hscope
      exact ⟨hst, hs.evolves hst, hnew scope rfl⟩

/-- What a moment leads to is grounded as well, and its store has evolved. -/
theorem Grounded.reaches (hx : x.Grounded) (h : Reaches strict x y) :
    x.machine.store.Evolves y.machine.store ∧ y.Grounded := by
  induction h with
  | refl => exact ⟨.refl, hx⟩
  | tail _ hstarts ih =>
      obtain ⟨hst, hy⟩ := ih
      obtain ⟨hst', hz⟩ := hy.starts hstarts
      exact ⟨hst.trans hst', hz⟩

/-- All stores on the way of a grounded moment have come about by changes. -/
theorem Grounded.passes (hx : x.Grounded) (h : x.Passes strict m) :
    x.machine.store.Evolves m.store := by
  obtain ⟨y, hreaches, rfl | hleft⟩ := h
  · exact (hx.reaches hreaches).1
  · obtain ⟨hst, hy⟩ := hx.reaches hreaches
    exact hst.trans (hy.evolves_left hleft)

end Moment

namespace Store

variable {s t : Store}

/-! ### Stores that can be met -/

/-- What comes next: an operation from outside, or an evaluation up to some point. Both speak of
scopes that are there. -/
inductive Proceeds : Store → Store → Prop where
  | operation {s : Store} {change : Change} (h : change.Below s.scopes.size) :
      Proceeds s (s.perform change).2
  | evaluation {strict : Bool} {x : Moment} {m : Machine}
      (h : x.task.Below x.machine.store.scopes.size) (hm : x.Passes strict m) :
      Proceeds x.machine.store m.store

/-- The first store leads to the second by operations and evaluations, in whatever order. -/
def Leads : Store → Store → Prop := Relation.ReflTransGen Proceeds

/-- One step of a sound store is an evolution. -/
theorem Sound.evolves_of_proceeds (hs : s.Sound) (h : s.Proceeds t) : s.Evolves t := by
  cases h with
  | operation h => exact .single ⟨_, h, rfl⟩
  | evaluation h hm => exact Moment.Grounded.passes ⟨hs, h⟩ hm

/-- So are any number of steps. -/
theorem Sound.evolves_of_leads (hs : s.Sound) (h : s.Leads t) : s.Evolves t := by
  induction h with
  | refl => exact .refl
  | tail _ hstep ih => exact ih.trans ((hs.evolves ih).evolves_of_proceeds hstep)

/-- Every store that the empty one leads to is sound. -/
theorem sound_of_leads (h : Store.empty.Leads s) : s.Sound :=
  Sound.empty.evolves (Sound.empty.evolves_of_leads h)

end Store

/-- A session comes to such stores, whatever texts it runs, and its outermost scope is there. -/
theorem Session.Reachable.leads {config : Config} {output : Output} {s : Session}
    (h : Reachable config output s) :
    Store.empty.Leads s.machine.store ∧ s.root.index < s.machine.store.scopes.size := by
  induction h with
  | new =>
      have hroot : Store.empty.Proceeds (Store.empty.perform .addRoot).2 := .operation trivial
      exact ⟨.single hroot, Nat.zero_lt_one⟩
  | @run s t bound text r _ hrun ih =>
      obtain ⟨hleads, hsize⟩ := ih
      obtain ⟨-, hroot, ⟨failure, -, hm⟩ | ⟨program, outcome, -, hm, -⟩⟩ := run_cases hrun
      · rw [hroot, hm]
        exact ⟨hleads, hsize⟩
      · let x : Moment := ⟨bound, .stmts s.root program.stmts, s.machine⟩
        have hleft : x.left? s.config.strict = some t.machine :=
          Option.map_eq_some_iff.mpr ⟨_, hm, rfl⟩
        have hnext : s.machine.store.Proceeds t.machine.store :=
          .evaluation (x := x) hsize ⟨x, .refl, .inr hleft⟩
        have hst : s.machine.store.Evolves t.machine.store :=
          (Store.sound_of_leads hleads).evolves_of_proceeds hnext
        exact ⟨hleads.tail hnext,
          hroot ▸ Nat.lt_of_lt_of_le hsize (Store.size_le_of_evolves hst)⟩

/-! ### The result -/

namespace Store

/-- **Every scope climbs to a root.** Let operations and evaluations, in whatever order, have led to
a store from the one without scopes. Each of its scopes leads along its chain to a root, and no
climb is endless. Whatever comes next, each scope stays there and keeps its parent. A scope is one
deeper than its parent. From each scope the loops that look up, assign and count end, within one
round for each scope up to this one, with what the operations give. -/
theorem parents_end {s : Store} (h : Store.empty.Leads s) :
    (∀ id : ScopeId, id.index < s.scopes.size → s.Ascends id (s.chain id)) ∧
    (WellFounded fun parent id => s.parent? id = some parent) ∧
    (∀ t, s.Leads t → ∀ id : ScopeId, id.index < s.scopes.size →
      id.index < t.scopes.size ∧ t.parent? id = s.parent? id) ∧
    (∀ id parent, s.parent? id = some parent → s.depth id = s.depth parent + 1) ∧
    ∀ (id : ScopeId) n, id.index < s.scopes.size → id.index < n → s.WalksEnd id n := by
  have hs : s.Sound := sound_of_leads h
  have holder := hs.parentsOlder
  refine ⟨fun id hid => holder.ascends hid, holder.wellFounded_parent, fun t ht id hid => ?_,
    fun id parent hparent => holder.depth_eq_succ hparent,
    fun id n hid hn => holder.walksEnd hid hn⟩
  have hst : s.Evolves t := hs.evolves_of_leads ht
  exact ⟨Nat.lt_of_lt_of_le hid (size_le_of_evolves hst), parent?_of_evolves hst hid⟩

end Store

/-- The scope binds the variable to a function that has captured this very scope. -/
def Store.bindsCapturing (s : Store) (id : ScopeId) (name : String) : Bool :=
  match (s.vars id).find? name with
  | some (.func f) => f.scope = id
  | _ => false

/-- A text binds `f` in the outermost scope, which `f` captures, and calls it; the call binds `g` in
its own scope, which `g` captures. The scope of the call climbs to the outermost one. -/
theorem Session.parents_end_cycles : ∃ s, Reachable ⟨"", some 8, true⟩ .silent s ∧
    Store.empty.Leads s.machine.store ∧
    s.machine.store.bindsCapturing ⟨0⟩ "f" = true ∧
    s.machine.store.bindsCapturing ⟨1⟩ "g" = true ∧
    s.machine.store.Ascends ⟨1⟩ [⟨1⟩, ⟨0⟩] ∧
    s.machine.store.depth ⟨1⟩ = s.machine.store.depth ⟨0⟩ + 1 ∧
    s.machine.store.WalksEnd ⟨1⟩ 2 := by
  let first := (new ⟨"", some 8, true⟩ .silent).run 9
    "let f = func() \x7b let g = func() \x7b \x7d; \x7d; f();"
  have hruns : first.any (fun p =>
      p.2.machine.store.bindsCapturing ⟨0⟩ "f" && p.2.machine.store.bindsCapturing ⟨1⟩ "g" &&
        p.2.machine.store.scopes.size = 2 && p.2.machine.store.parent? ⟨1⟩ = some ⟨0⟩ &&
          p.2.machine.store.chain ⟨1⟩ = [⟨1⟩, ⟨0⟩]) = true := by decide +kernel
  obtain ⟨⟨r, s⟩, hs, h⟩ := (Option.any_eq_true _ _).mp hruns
  simp only [Bool.and_eq_true, decide_eq_true_eq] at h
  obtain ⟨⟨⟨⟨hf, hg⟩, hsize⟩, hparent⟩, hchain⟩ := h
  have hreach : Reachable ⟨"", some 8, true⟩ .silent s := Reachable.new.run hs
  have hleads : Store.empty.Leads s.machine.store := hreach.leads.1
  obtain ⟨hascends, -, -, hdepth, hwalks⟩ := Store.parents_end hleads
  have hid : 1 < s.machine.store.scopes.size := Nat.lt_of_lt_of_eq (by decide) hsize.symm
  have hclimb : s.machine.store.Ascends ⟨1⟩ [⟨1⟩, ⟨0⟩] := hchain ▸ hascends ⟨1⟩ hid
  exact ⟨s, hreach, hleads, hf, hg, hclimb, hdepth _ _ hparent, hwalks ⟨1⟩ 2 hid (by decide)⟩

end StructScript
