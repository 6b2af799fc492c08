import StructScript.Proofs.Evaluation.Conformity
import StructScript.Proofs.Evaluation.Frames
import StructScript.Proofs.Evaluation.Judgement

/-!
# Output is written and never read

A computation may append to the output, but nothing that it does depends on what the output holds, or
on whether the output is kept at all (`Eval.WriteOnly`). This is a judgement of all code
(`Judgement.writing`): a basic step prints one text, and a sequence prints the texts of its parts one
behind the other, also where the second part fails.

In a session the texts that its sources print therefore come one after the other, each the text that
the source prints where nothing has been printed before (`Session.printedBy`).

Main result: `output_write_only`.
-/

namespace StructScript

/-- Printing one text and then another is printing both as one. -/
theorem Output.write_write (out : Output) (first second : String) :
    (out.write first).write second = out.write (first ++ second) := by
  cases out with
  | buffer before => exact congrArg buffer String.append_assoc
  | silent => rfl

/-- From this store and these running calls the computation ends in `r`, with other ones, and prints
`text`, whatever the output is. -/
def Eval.Prints {α : Type} (m : Eval α) (store : Store) (calls : CallStack)
    (r : Except EvalError α) (store' : Store) (calls' : CallStack) (text : String) : Prop :=
  ∀ out, m ⟨store, out, calls⟩ = some (r, ⟨store', out.write text, calls'⟩)

/-- The output plays no part in the computation: it is exhausted whatever the output is, or it always
ends in the same way and prints the same text. A value that it gives is one of `post`. -/
def Eval.WriteOnly {α : Type} (m : Eval α) (post : α → Prop) : Prop :=
  ∀ store calls, (∀ out, m ⟨store, out, calls⟩ = none) ∨
    ∃ r store' calls' text, m.Prints store calls r store' calls' text ∧ ∀ a, r = .ok a → post a

namespace Eval.WriteOnly

variable {α β : Type} {post : α → Prop} {post' : β → Prop}

/-- A computation without a bound left writes nothing. -/
theorem exhausted : WriteOnly (Bounded.exhausted : Eval α) post := fun _ _ => .inl fun _ => rfl

/-- One after another, computations still only write. -/
theorem bind {m : Eval α} {f : α → Eval β} (hm : WriteOnly m post)
    (hf : ∀ a, post a → WriteOnly (f a) post') : WriteOnly (m >>= f) post' := by
  intro store calls
  rcases hm store calls with hnone | ⟨r, store₁, calls₁, first, hfirst, hpost⟩
  · exact .inl fun out => by rw [Bounded.bind_apply, hnone out]
  · cases r with
    | error e =>
        refine .inr ⟨.error e, store₁, calls₁, first, fun out => ?_, fun _ ha => by cases ha⟩
        rw [Bounded.bind_apply, hfirst out]
    | ok a =>
        rcases hf a (hpost a rfl) store₁ calls₁ with
          hnone | ⟨r, store₂, calls₂, second, hsecond, hpost'⟩
        · exact .inl fun out => by rw [Bounded.bind_apply, hfirst out]; exact hnone _
        · refine .inr ⟨r, store₂, calls₂, first ++ second, fun out => ?_, hpost'⟩
          rw [Bounded.bind_apply, hfirst out, ← Output.write_write]
          exact hsecond _

/-- Giving errors a place writes nothing. -/
theorem locate {m : Eval α} (hm : WriteOnly m post) (span : Span) :
    WriteOnly (Eval.locate span m) post := by
  intro store calls
  rcases hm store calls with hnone | ⟨r, store', calls', text, hprints, hpost⟩
  · exact .inl fun out => Bounded.mapError_eq_none_iff.mpr (hnone out)
  · cases r with
    | error e => exact .inr ⟨_, store', calls', text, fun out =>
        Bounded.mapError_eq_error_iff.mpr ⟨e, hprints out, rfl⟩, fun _ ha => by cases ha⟩
    | ok a => exact .inr ⟨_, store', calls', text, fun out =>
        Bounded.mapError_eq_ok_iff.mpr (hprints out), hpost⟩

/-- Whether there is room for a call does not depend on the output either. -/
theorem inFrame {body : Eval α} (h : WriteOnly body post) (frame : Frame) :
    WriteOnly (Eval.inFrame frame body) post := by
  intro store calls
  rcases calls.hasRoom_or_full with hroom | ⟨limit, hfull⟩
  · have henter (out : Output) : Eval.inFrame frame body ⟨store, out, calls⟩ =
        (body ⟨store, out, calls.enter frame⟩).map leave := inFrame_of_hasRoom hroom frame body
    rcases h store (calls.enter frame) with hnone | ⟨r, store', calls', text, hprints, hpost⟩
    · exact .inl fun out => by rw [henter, hnone, Option.map_none]
    · refine .inr ⟨r.mapError (·.trace calls'.frames), store', calls'.pop, text, fun out => ?_,
        fun a ha => hpost a ?_⟩
      · rw [henter, hprints out]
        rfl
      · exact (leave_fst_eq_ok_iff (x := (r, ⟨store', .silent, calls'⟩))).mp ha
  · refine .inr ⟨.error (tooDeep limit), store, calls, "", fun out => ?_, fun _ ha => by cases ha⟩
    rw [Output.write_empty]
    exact inFrame_of_full hfull frame body

end Eval.WriteOnly

/-- The judgement that the output plays no part. -/
def Judgement.writing : Judgement where
  code _ := True
  code_child _ _ := trivial
  Holds m _ post := m.WriteOnly post
  quiet hm store calls := by
    obtain ⟨r, store', text, hrun, hpost, -⟩ := hm store
    exact .inr ⟨r, store', calls, text, fun out => hrun out calls, (hpost fun _ _ => trivial).2⟩
  bind hm hf := hm.bind hf
  locate span hm := hm.locate span

/-- The output plays no part in the calls of any code. -/
theorem Judgement.writing_covers (strict : Bool) (n : Nat) :
    writing.Covers ⟨strict, Closure.call strict n⟩ ⟨strict, Closure.call strict n⟩ := by
  induction n with
  | zero => exact ⟨fun type inst _ hfields => quiet _ (.buildStruct strict type inst hfields),
      fun _ _ _ => Eval.WriteOnly.exhausted⟩
  | succ n ih =>
      refine ⟨fun type inst _ hfields => quiet _ (.buildStruct strict type inst hfields),
        fun _ hf hvalues => holds_call_succ hvalues fun bindings hb => ?_⟩
      have hbody := holds_body ih hf hb
      exact hbody.inFrame _

/-- The output plays no part in a run of statements. -/
theorem Machine.writeOnly_run (strict : Bool) (bound : Nat) (scope : ScopeId)
    (stmts : List Ast.Stmt) :
    (Machine.run strict bound scope stmts).WriteOnly Judgement.writing.Ends :=
  Judgement.holds_execAll (Judgement.writing_covers strict bound) scope stmts fun _ _ => trivial

/-! ### Sessions -/

namespace Session

/-- The session with nothing printed. -/
def cleared (s : Session) : Session :=
  { s with machine := { s.machine with output := s.machine.output.clear } }

/-- Run source texts one after the other, whether or not they fail. -/
def runAll (bound : Nat) : List String → Session →
    Option (List (Except Failure (Option Value)) × Session)
  | [], s => some ([], s)
  | text :: rest, s =>
    match s.run bound text with
    | none => none
    | some (r, t) => (runAll bound rest t).map fun x => (r :: x.1, x.2)

/-- The texts that sources print when they are run one after the other: for each the output of its
run alone, from the session as it is by then but with nothing printed. -/
def printedBy (bound : Nat) : List String → Session → List String
  | [], _ => []
  | text :: rest, s =>
    match s.cleared.run bound text, s.run bound text with
    | some (_, alone), some (_, next) => alone.output :: printedBy bound rest next
    | _, _ => []

/-- A run appends to the output what it prints where nothing has been printed. -/
theorem run_cleared {s t : Session} {bound : Nat} {text before : String}
    {r : Except Failure (Option Value)} (hs : s.machine.output = .buffer before)
    (h : s.run bound text = some (r, t)) :
    ∃ alone, s.cleared.run bound text = some (r, alone) ∧
      t.machine.output = .buffer (before ++ alone.output) := by
  obtain ⟨config, root, ⟨store, output, calls⟩, sources⟩ := s
  obtain rfl : output = .buffer before := hs
  rcases hread : Ast.Program.ofSource (sources + 1) config.file text with failure | program
  · rw [run, runIn_of_unread hread] at h
    cases h
    refine ⟨_, runIn_of_unread hread _ _, ?_⟩
    exact congrArg Output.buffer (String.append_empty).symm
  · rw [run, runIn_of_read hread] at h
    obtain ⟨⟨outcome, machine⟩, hrun, hended⟩ := Option.map_eq_some_iff.mp h
    rcases Machine.writeOnly_run config.strict bound root program.stmts store calls with
      hnone | ⟨r', store', calls', printed, hprints, -⟩
    · cases (hnone _).symm.trans hrun
    · cases (hprints _).symm.trans hrun
      cases hended
      let alone : Session := ⟨config, root, ⟨store', .buffer ("" ++ printed), calls'⟩, sources + 1⟩
      refine ⟨alone, ?_, ?_⟩
      · rw [run, runIn_of_read hread]
        exact congrArg (Option.map _) (hprints (.buffer ""))
      · exact congrArg (fun text => Output.buffer (before ++ text)) (String.empty_append).symm

/-- The texts that sources print stand one behind the other in the output. -/
theorem output_runAll {bound : Nat} : {texts : List String} → {s t : Session} → {before : String} →
    {results : List (Except Failure (Option Value))} → s.machine.output = .buffer before →
      s.runAll bound texts = some (results, t) →
      t.output = before ++ String.join (s.printedBy bound texts) ∧
        results.length = texts.length ∧ (s.printedBy bound texts).length = texts.length
  | [], s, t, before, results, hs, h => by
      cases h
      refine ⟨?_, rfl, rfl⟩
      rw [output, hs]
      exact (String.append_empty).symm
  | text :: rest, s, t, before, results, hs, h => by
      rw [runAll] at h
      rcases hrun : s.run bound text with _ | ⟨r, next⟩
      · rw [hrun] at h
        cases h
      · rw [hrun] at h
        obtain ⟨⟨results', t'⟩, hrest, hend⟩ := Option.map_eq_some_iff.mp h
        cases hend
        obtain ⟨alone, halone, hnext⟩ := run_cleared hs hrun
        obtain ⟨houtput, hresults, hprinted⟩ := output_runAll hnext hrest
        have htexts : s.printedBy bound (text :: rest) =
            alone.output :: next.printedBy bound rest := by
          rw [printedBy, halone, hrun]
        rw [htexts]
        refine ⟨?_, congrArg (· + 1) hresults, congrArg (· + 1) hprinted⟩
        rw [houtput, String.join_cons, String.append_assoc]

end Session

/-- **Output is a channel that is only written to.** A run of a program does not depend on the
output that it finds. Where it ends with some buffer it ends with every buffer, in the same value or
error and with the same store and running calls, and the same text is appended to what the buffer
holds; where output is dropped it ends in the same way too.

When sources are run one after the other in a session that keeps its output, those that fail
included, the output is what it was before and then the text that each source prints. -/
theorem output_write_only (strict : Bool) (bound : Nat) :
    (∀ (root : ScopeId) (p : Ast.Program) (store : Store) (calls : CallStack),
      (∀ out, Machine.run strict bound root p.stmts ⟨store, out, calls⟩ = none) ∨
        ∃ r store' calls' text,
          (∀ before, Machine.run strict bound root p.stmts ⟨store, .buffer before, calls⟩ =
            some (r, ⟨store', .buffer (before ++ text), calls'⟩)) ∧
          Machine.run strict bound root p.stmts ⟨store, .silent, calls⟩ =
            some (r, ⟨store', .silent, calls'⟩)) ∧
    ∀ (s t : Session) (texts : List String) (results : List (Except Failure (Option Value)))
      (before : String), s.machine.output = .buffer before →
      s.runAll bound texts = some (results, t) →
      t.output = before ++ String.join (s.printedBy bound texts) ∧
        results.length = texts.length ∧ (s.printedBy bound texts).length = texts.length := by
  refine ⟨fun root p store calls => ?_, fun s t texts results before hs hruns =>
    Session.output_runAll hs hruns⟩
  rcases Machine.writeOnly_run strict bound root p.stmts store calls with
    hnone | ⟨r, store', calls', text, hprints, -⟩
  · exact .inl hnone
  · exact .inr ⟨r, store', calls', text, fun before => hprints (.buffer before), hprints .silent⟩

/-- The second of three sources fails after it has printed. -/
theorem output_write_only_failure :
    let s := Session.new ⟨"", some 8, false⟩ (.buffer "")
    let texts := ["let f = func(n int) int \x7b print(n); return n; \x7d; print(f(1), 2);",
      "println(f(3)); set f->x = f(4); print(5);", "print(\"six\");"]
    s.printedBy 9 texts = ["112", "33\n4", "six"] ∧
      ∃ results t, s.runAll 9 texts = some (results, t) ∧
        t.output = "" ++ String.join (s.printedBy 9 texts) := by
  intro s texts
  have hends : (s.runAll 9 texts).isSome = true := by decide +kernel
  obtain ⟨⟨results, t⟩, hruns⟩ := Option.isSome_iff_exists.mp hends
  refine ⟨by decide +kernel, results, t, hruns, ?_⟩
  exact ((output_write_only false 9).2 s t texts results "" rfl hruns).1

end StructScript
