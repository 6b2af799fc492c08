import StructScript.Proofs.Evaluation.Conformity
import StructScript.Proofs.Evaluation.Moment

/-!
# Regimes at every moment

A regime is kept by evaluations that come to an end. It is kept on the way as well: a moment is
*admitted* if its store is one of the regime, its code may run in its scope, and the values that it
holds may be bound (`Regime.Admits`). What an admitted moment starts is admitted
(`Regime.Admits.starts`), and so is every moment that it reaches (`Regime.Admits.reaches`).

The moments of a session are those of a run of some text from it (`Session.Meets`). A session that
has run some texts (`Session.After`) has a store of the regime if the code of all these texts may
run (`Session.After.store`), and then every moment of a run of one more such text is admitted
(`Session.Meets.admits`).
-/

namespace StructScript

/-- A regime holds of the store of a moment, and its code may run there with the values it has. -/
def Regime.Admits {strict : Bool} (R : Regime strict) (x : Moment) : Prop :=
  R.store x.machine.store ∧
    match x.task with
    | .expr scope e => R.readable scope ∧ R.code (.expr e)
    | .inits scope _ declared given inits =>
      R.readable scope ∧ (∃ type inst, R.inst type inst ∧ declared = inst.type.fields) ∧
        R.Given declared given ∧ ∀ i ∈ inits, R.code (.init i)
    | .args scope args => R.readable scope ∧ ∀ e ∈ args, R.code (.expr e)
    | .stmt scope stmt => R.writable scope ∧ R.code (.stmt stmt)
    | .stmts scope stmts => R.writable scope ∧ ∀ stmt ∈ stmts, R.code (.stmt stmt)
    | .call _ f args _ => R.value (.func f) ∧ ∀ v ∈ args, R.value v

namespace Regime

variable {strict : Bool} {R : Regime strict} {x y : Moment}

/-- What an admitted moment starts is admitted. -/
theorem Admits.starts (hx : R.Admits x) (h : Moment.Starts strict x y) : R.Admits y := by
  obtain ⟨hstore, hx⟩ := hx
  cases h with
  | @inits n scope type inits span m m' inst h =>
      obtain ⟨hscope, hcode⟩ := hx
      obtain ⟨hstore', hinst⟩ := keeps_instantiate hscope hcode m _ m' hstore h
      refine ⟨hstore', hscope, ⟨type, inst, hinst inst rfl, rfl⟩, .none _, fun i hi => ?_⟩
      exact R.code_child (.init hi type span) hcode
  | operand => exact ⟨hstore, hx.1, R.code_child (.operand ..) hx.2⟩
  | left => exact ⟨hstore, hx.1, R.code_child (.left ..) hx.2⟩
  | @right n scope op a b span m m' v h =>
      obtain ⟨hscope, hcode⟩ := hx
      have hleft := keeps_eval (R.keptBy_call n) hscope a (R.code_child (.left ..) hcode)
      exact ⟨(hleft m _ m' hstore h).1, hscope, R.code_child (.right ..) hcode⟩
  | @args n scope callee args span m =>
      exact ⟨hstore, hx.1, fun e he => R.code_child (.arg he callee span) hx.2⟩
  | @call n scope callee args span m m' m'' values f hargs hbuiltin hcallee =>
      obtain ⟨hscope, hcode⟩ := hx
      have hcodes : ∀ e ∈ args, R.code (.expr e) := fun e he =>
        R.code_child (.arg he callee span) hcode
      obtain ⟨hstore', hvalues⟩ :=
        keeps_evalArgs (R.keptBy_call n) hscope args hcodes m _ m' hstore hargs
      obtain ⟨hstore'', hf⟩ := keeps_readPlace hscope callee m' _ m'' hstore' hcallee
      exact ⟨hstore'', hf _ rfl, hvalues values rfl⟩
  | @init n scope typeName declared given name value span rest m type hfield =>
      obtain ⟨hscope, hinst, hgiven, hcode⟩ := hx
      have hinit := hcode _ List.mem_cons_self
      exact ⟨hstore, hscope, R.code_child (.initValue ⟨name, value, span⟩) hinit⟩
  | @nextInit n scope typeName declared given name value span rest m m' type v hfield h htype =>
      obtain ⟨hscope, hinst, hgiven, hcode⟩ := hx
      obtain ⟨hinit, hrest⟩ := List.forall_mem_cons.mp hcode
      have hvalue := keeps_eval (R.keptBy_call n) hscope value
        (R.code_child (.initValue ⟨name, value, span⟩) hinit)
      obtain ⟨hstore', hv⟩ := hvalue m _ m' hstore h
      exact ⟨hstore', hscope, hinst, hgiven.insert (hv v rfl) hfield htype, hrest⟩
  | arg => exact ⟨hstore, hx.1, hx.2 _ List.mem_cons_self⟩
  | @nextArg n scope e rest m m' v h =>
      obtain ⟨hscope, hcode⟩ := hx
      obtain ⟨harg, hrest⟩ := List.forall_mem_cons.mp hcode
      exact ⟨(keeps_eval (R.keptBy_call n) hscope e harg m _ m' hstore h).1, hscope, hrest⟩
  | defined =>
      exact ⟨hstore, R.readable_of_writable hx.1, R.code_child (.defined ..) hx.2⟩
  | assigned =>
      exact ⟨hstore, R.readable_of_writable hx.1, R.code_child (.assigned ..) hx.2⟩
  | returned =>
      exact ⟨hstore, R.readable_of_writable hx.1, R.code_child (.returned ..) hx.2⟩
  | statement =>
      exact ⟨hstore, R.readable_of_writable hx.1, R.code_child (.statement _) hx.2⟩
  | stmt => exact ⟨hstore, hx.1, hx.2 _ List.mem_cons_self⟩
  | @nextStmt n scope stmt rest m m' h =>
      obtain ⟨hscope, hcode⟩ := hx
      obtain ⟨hfirst, hrest⟩ := List.forall_mem_cons.mp hcode
      exact ⟨(keeps_exec (R.keptBy_call n) hscope stmt hfirst m _ m' hstore h).1, hscope, hrest⟩
  | @body n name f args span m m' bindings calls scope hargs hpush hscope =>
      obtain ⟨hf, hvalues⟩ := hx
      have hbindings : ∀ b ∈ bindings, R.value b.2 := fun b hb =>
        hvalues _ (Closure.mem_of_checkArguments hargs hb)
      obtain ⟨hstore', hwritable⟩ :=
        keeps_enterScope hf hbindings { m with calls := calls } _ m' hstore hscope
      refine ⟨hstore', hwritable scope rfl, fun stmt hstmt => ?_⟩
      exact R.code_child (.body hstmt) (R.code_func hf)

/-- What an admitted moment reaches is admitted. -/
theorem Admits.reaches (hx : R.Admits x) (h : Moment.Reaches strict x y) : R.Admits y := by
  induction h with
  | refl => exact hx
  | tail _ hstarts ih => exact ih.starts hstarts

/-- The value that is about to be assigned, and the store at that point. -/
theorem Admits.assigned {n : Nat} {scope : ScopeId} {target : Ast.Place} {e : Ast.Expr}
    {span : Span} {m m' : Machine} {v : Value}
    (h : R.Admits ⟨n, .stmt scope (.assign target e span), m⟩)
    (hv : e.eval (.upTo strict n) scope m = some (.ok v, m')) : R.store m'.store ∧ R.value v := by
  obtain ⟨hstore, hscope, hcode⟩ := h
  have hkeeps := keeps_eval (R.keptBy_call n) (R.readable_of_writable hscope) e
    (R.code_child (.assigned target e span) hcode)
  exact (hkeeps m _ m' hstore hv).imp_right fun hvalue => hvalue v rfl

end Regime

namespace Session

/-- The sessions that running these texts, one after the other, leads to from a session without
bindings, also where texts fail. -/
inductive After (config : Config) (output : Output) : List String → Session → Prop where
  | new : After config output [] (Session.new config output)
  | run {texts : List String} {s t : Session} {bound : Nat} {text : String}
      {r : Except Failure (Option Value)} (h : After config output texts s)
      (hrun : s.run bound text = some (r, t)) : After config output (texts ++ [text]) t

/-- The moment is one of a run of the text from the session, with at most `bound` calls inside one
another. -/
def Meets (s : Session) (bound : Nat) (text : String) (x : Moment) : Prop :=
  ∃ program, Ast.Program.ofSource (s.sources + 1) s.config.file text = .ok program ∧
    Moment.Reaches s.config.strict ⟨bound, .stmts s.root program.stmts, s.machine⟩ x

variable {config : Config} {output : Output} {s : Session} {texts : List String}

/-- Every session that texts lead to is reached by some list of them. -/
theorem Reachable.exists_after (h : Reachable config output s) :
    ∃ texts, After config output texts s := by
  induction h with
  | new => exact ⟨[], .new⟩
  | run _ hrun ih =>
      obtain ⟨texts, htexts⟩ := ih
      exact ⟨_, htexts.run hrun⟩

/-- Running source texts leaves the settings of a session alone. -/
theorem After.config_eq (h : After config output texts s) : s.config = config := by
  induction h with
  | new => rfl
  | run _ hrun ih => exact (run_cases hrun).1.trans ih

/-- All code of a text belongs to a regime, whatever the number and the name of the text. -/
def Admitted {strict : Bool} (R : Regime strict) (text : String) : Prop :=
  ∀ number file program, Ast.Program.ofSource number file text = .ok program →
    ∀ stmt ∈ program.stmts, R.code (.stmt stmt)

/-- After texts whose code belongs to a regime, the store does. -/
theorem After.store (h : After config output texts s) (R : Regime config.strict)
    (hscopes : ∀ id, R.writable id) (hnew : R.store (Session.new config output).machine.store)
    (htexts : ∀ text ∈ texts, Admitted R text) : R.store s.machine.store := by
  induction h with
  | new => exact hnew
  | @run texts s t bound text r h hrun ih =>
      have hs := ih fun text htext => htexts text (List.mem_append_left _ htext)
      obtain ⟨-, -, ⟨failure, -, hm⟩ | ⟨program, outcome, hprogram, hm, -⟩⟩ := run_cases hrun
      · rw [hm]
        exact hs
      · rw [h.config_eq] at hm hprogram
        have hcode := htexts text (List.mem_append_right _ List.mem_cons_self) _ _ program hprogram
        exact (R.keeps_run bound (hscopes _) program.stmts hcode s.machine _ _ hs hm).1

/-- After texts whose code belongs to a regime, the moments of a run of one more are admitted. -/
theorem Meets.admits {bound : Nat} {text : String} {x : Moment} (hmeets : s.Meets bound text x)
    (h : After config output texts s) (R : Regime config.strict) (hscopes : ∀ id, R.writable id)
    (hnew : R.store (Session.new config output).machine.store)
    (htexts : ∀ other ∈ texts ++ [text], Admitted R other) : R.Admits x := by
  obtain ⟨program, hprogram, hreaches⟩ := hmeets
  rw [h.config_eq] at hprogram hreaches
  have hstore := h.store R hscopes hnew fun other hother =>
    htexts other (List.mem_append_left _ hother)
  have hcode := htexts text (List.mem_append_right _ List.mem_cons_self) _ _ program hprogram
  have hfirst : R.Admits ⟨bound, .stmts s.root program.stmts, s.machine⟩ :=
    ⟨hstore, hscopes s.root, hcode⟩
  exact hfirst.reaches hreaches

end Session

end StructScript
