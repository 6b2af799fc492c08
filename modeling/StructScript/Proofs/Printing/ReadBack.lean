import StructScript.Proofs.Evaluation.Judgement
import StructScript.Proofs.Printing.Readable

/-!
# Printed values read back

The text of a readable value, returned by a program, is read as the expression of that value
(`Value.toTree`), and evaluating that expression gives the value again: types are instantiated as the
value was, and fields are given in the order of their names. The one exception is the least integer,
whose digits without the sign write no integer; a value with it fails for that literal.

Main result: `Session.run_return_text`.
-/

namespace StructScript

open ParseTree (Separated)
open ParseTree.Separated (commas)

/-! ### Numbers -/

/-- The digits of a number are read as the number. -/
theorem Decimal.readNat?_repr (n : Nat) : readNat? n.repr.toList = some n := by
  have hvalue : Nat.ofDigitChars 10 (Nat.toDigits 10 n) 0 = n :=
    Nat.ofDigitChars_toDigits (by decide) (by decide)
  rw [readNat?_of_digits (Spelled.matches_repr n), Nat.repr_eq_ofList_toDigits,
    String.toList_ofList, hvalue]

namespace Value

/-- A number that fits is read from its digits. -/
theorem ofLiteral_repr {n : Nat} (h : (n : Int) ≤ Int64.maxValue.toInt) :
    ofLiteral .int n.repr = .ok (int (Int64.ofNat n)) := by
  simp only [ofLiteral, Decimal.readNat?_repr, h, if_true]

/-- A number that does not fit is no literal. -/
theorem ofLiteral_repr_of_lt {n : Nat} (h : Int64.maxValue.toInt < n) :
    ofLiteral .int n.repr = .error (.invalidLiteral n.repr) := by
  have hnot : ¬ (n : Int) ≤ Int64.maxValue.toInt := Int.not_le.mpr h
  simp only [ofLiteral, Decimal.readNat?_repr, hnot, if_false]

/-- The least integer is in the value. -/
inductive HoldsMinimum : Value → Prop where
  | int : HoldsMinimum (int Int64.minValue)
  | struct {record : Record Value} {field : String × Value} (hfield : field ∈ record.fields)
      (h : field.2.HoldsMinimum) : HoldsMinimum (struct record)

/-- An integer holds the least one if it is that. -/
theorem holdsMinimum_int_iff {n : Int64} : (int n).HoldsMinimum ↔ n = Int64.minValue := by
  constructor
  · rintro ⟨⟩
    rfl
  · rintro rfl
    exact .int

/-- A struct holds the least integer if one of its fields does. -/
theorem holdsMinimum_struct_iff {record : Record Value} :
    (struct record).HoldsMinimum ↔ ∃ field ∈ record.fields, field.2.HoldsMinimum := by
  constructor
  · rintro ⟨⟩
    exact ⟨_, ‹_›, ‹_›⟩
  · rintro ⟨field, hfield, h⟩
    exact .struct hfield h

end Value

/-! ### Computations that read back -/

namespace Eval

/-- The computation leaves the machine `s` as it is and ends in `a`, unless the least integer is
there: then it fails for its digits. -/
structure ReadsBack {α : Type} (m : Eval α) (s : Machine) (minimum : Prop) (a : α) : Prop where
  ends : ¬ minimum → m s = some (.ok a, s)
  fails : minimum → ∃ e, m s = some (.error e, s) ∧
    e.cause = .invalidLiteral "9223372036854775808"

namespace ReadsBack

variable {α β : Type} {m : Eval α} {f : α → Eval β} {s : Machine} {p q : Prop} {a : α} {b : β}

/-- A computation that gives the value and leaves the machine reads it back. -/
theorem of_eq (h : m s = some (.ok a, s)) : ReadsBack m s False a := ⟨fun _ => h, False.elim⟩

/-- The condition for failing may be replaced by an equivalent one. -/
theorem congr (h : ReadsBack m s p a) (hpq : p ↔ q) : ReadsBack m s q a := by
  rwa [← propext hpq]

/-- A sequence fails if one of its parts does. -/
theorem bind (hm : ReadsBack m s p a) (hf : ¬ p → ReadsBack (f a) s q b) :
    ReadsBack (m >>= f) s (p ∨ q) b := by
  refine ⟨fun h => ?_, fun h => ?_⟩
  · obtain ⟨hp, hq⟩ := not_or.mp h
    rw [Bounded.bind_apply, hm.ends hp]
    exact (hf hp).ends hq
  · by_cases hp : p
    · obtain ⟨e, he, hcause⟩ := hm.fails hp
      exact ⟨e, by rw [Bounded.bind_apply, he], hcause⟩
    · obtain ⟨e, he, hcause⟩ := (hf hp).fails (h.resolve_left hp)
      exact ⟨e, by rw [Bounded.bind_apply, hm.ends hp]; exact he, hcause⟩

/-- What follows does not fail. -/
theorem bind_eq (hm : ReadsBack m s p a) (hf : f a s = some (.ok b, s)) :
    ReadsBack (m >>= f) s p b :=
  (hm.bind fun _ => of_eq hf).congr (by simp)

/-- What came before has not failed. -/
theorem of_bind_eq (hm : m s = some (.ok a, s)) (hf : ReadsBack (f a) s p b) :
    ReadsBack (m >>= f) s p b :=
  ((of_eq hm).bind fun _ => hf).congr (by simp)

/-- Giving an error its place does not matter. -/
theorem locate (h : ReadsBack m s p a) (span : Span) : ReadsBack (Eval.locate span m) s p a := by
  refine ⟨fun hp => Bounded.mapError_eq_ok_iff.mpr (h.ends hp), fun hp => ?_⟩
  obtain ⟨e, he, hcause⟩ := h.fails hp
  exact ⟨e.locate span, Bounded.mapError_eq_error_iff.mpr ⟨e, he, rfl⟩, by simpa using hcause⟩

end ReadsBack

end Eval

open Eval (ReadsBack)

/-! ### Evaluating the expression of a value -/

/-- Binding a name behind all others. -/
theorem NameMap.insert_eq_append {α : Type} {m : NameMap α} {name : String} (a : α)
    (h : ∀ entry ∈ m, entry.1 < name) : insert name a m = m ++ [(name, a)] := by
  induction m with
  | nil => rfl
  | cons entry rest ih =>
      obtain ⟨key, b⟩ := entry
      obtain ⟨hkey, hrest⟩ := List.forall_mem_cons.mp h
      have hlt : ¬ name < key := String.lt_asymm hkey
      have hne : name ≠ key := fun heq => String.lt_irrefl key (heq ▸ hkey)
      rw [insert, if_neg hlt, if_neg hne, ih hrest, List.cons_append]

/-- The first initialiser of a list with commas. -/
theorem ParseTree.Expr.initsToAst_commas_cons (n : Nat) (init : ParseTree.FieldInit)
    (rest : List ParseTree.FieldInit) :
    Expr.initsToAst n (commas (init :: rest)) =
      ⟨identOf init.name, init.value.toAst n, init.name.span.join (init.value.toAst n).span⟩ ::
        Expr.initsToAst n (commas rest) := by
  obtain ⟨name, colon, value⟩ := init
  cases rest <;> rw [commas, Expr.initsToAst]
  simp [commas, Expr.initsToAst]

namespace Value

variable {rules : Rules} {scope : ScopeId} {s : Machine} (n : Nat)

/-- A literal reads back the value that it stands for. -/
theorem readsBack_literal {kind : LiteralKind} {token : Token} {v : Value}
    (h : ofLiteral kind token.lexeme = .ok v) :
    ReadsBack (((ParseTree.Expr.literal kind token).toAst n).eval rules scope) s False v := by
  refine .of_eq ?_
  simp only [ParseTree.Expr.toAst, Ast.Expr.eval, Ast.Node.eval, h]
  rfl

/-- The digits of a number give the number, unless they are those of the least integer. -/
theorem readsBack_digits {i : Nat} (hi : i ≤ 9223372036854775808) :
    ReadsBack (((ParseTree.Expr.literal .int (.sample .int i.repr)).toAst n).eval rules scope) s
      (i = 9223372036854775808) (int (Int64.ofNat i)) := by
  have hmax : Int64.maxValue.toInt = 9223372036854775807 := rfl
  by_cases hleast : i = 9223372036854775808
  · subst hleast
    have hliteral := ofLiteral_repr_of_lt (n := 9223372036854775808) (by rw [hmax]; decide)
    refine ⟨fun h => absurd rfl h, fun _ => ?_⟩
    simp only [ParseTree.Expr.toAst, Ast.Expr.eval, Ast.Node.eval, Token.sample, hliteral]
    exact ⟨_, rfl, rfl⟩
  · have hliteral := ofLiteral_repr (n := i) (by omega)
    refine (readsBack_literal n hliteral).congr ?_
    exact ⟨False.elim, hleast⟩

/-- The expression of an integer gives the integer, unless it is the least one. -/
theorem readsBack_int (k : Int64) : ReadsBack (((integerTree k.toInt).toAst n).eval rules scope) s
    (int k).HoldsMinimum (int k) := by
  have hlow := k.le_toInt
  have hhigh := k.toInt_lt
  have hk : Int64.ofInt k.toInt = k := Int64.ofInt_toInt k
  have hmin : (int k).HoldsMinimum ↔ k.toInt = -9223372036854775808 := by
    rw [holdsMinimum_int_iff, ← Int64.toInt_inj]
    exact Iff.rfl
  rw [hmin]
  generalize k.toInt = z at hlow hhigh hk
  subst hk
  cases z with
  | ofNat i =>
      rw [Int.ofNat_eq_natCast] at hlow hhigh ⊢
      rw [Int64.ofInt_eq_ofNat]
      refine (readsBack_digits n (by omega)).congr ?_
      omega
  | negSucc i =>
      -- the sign is read as an operator, so the digits alone must be an integer
      have hneg := Int.negSucc_eq i
      rw [hneg] at hlow
      have hoperand : ReadsBack (((ParseTree.Expr.literal .int
          (.sample .int (i + 1).repr)).toAst n).eval rules scope) s (i + 1 = 9223372036854775808)
            (int (Int64.ofNat (i + 1))) := readsBack_digits n (by omega)
      simp only [integerTree, ParseTree.Expr.toAst, Ast.Expr.eval, Ast.Node.eval] at hoperand ⊢
      have hleast : (i + 1 = 9223372036854775808 ∨ False) ↔
          -((i : Int) + 1) = -9223372036854775808 := by
        rw [or_false]
        omega
      rw [hneg]
      refine .locate ((hoperand.bind (q := False) fun hne => .of_eq ?_).congr hleast) _
      have htoInt : (Int64.ofNat (i + 1)).toInt = i + 1 := by
        rw [← Int64.ofInt_eq_ofNat, Int64.toInt_ofInt_of_le] <;> omega
      have hrange : Int64.minValue.toInt ≤ -(Int64.ofNat (i + 1)).toInt ∧
          -(Int64.ofNat (i + 1)).toInt ≤ Int64.maxValue.toInt := by
        have hleast : Int64.minValue.toInt = -9223372036854775808 := rfl
        have hgreatest : Int64.maxValue.toInt = 9223372036854775807 := rfl
        omega
      rw [applyUnary, ofInt, if_pos hrange, htoInt]
      rfl

/-- The written fields of a struct value, in the order of their names, are added to those given so
far. -/
theorem readsBack_inits {typeName : String} {declared : NameMap TypeName}
    {given fields : NameMap Value} (hsorted : NameMap.Sorted (given ++ fields))
    (hdeclared : ∀ field ∈ fields, ∃ type,
      declared.find? field.1 = some type ∧ field.2.typeName = type.name)
    (hfields : ∀ field ∈ fields,
      ReadsBack ((field.2.toTree.toAst n).eval rules scope) s field.2.HoldsMinimum field.2) :
    ReadsBack (Ast.Node.evalInits rules scope typeName declared given
        (ParseTree.Expr.initsToAst n (commas (fields.map fieldTree)))) s
      (∃ field ∈ fields, field.2.HoldsMinimum) (given ++ fields) := by
  induction fields generalizing given with
  | nil =>
      rw [List.append_nil]
      refine ReadsBack.congr (.of_eq rfl) ?_
      simp
  | cons field rest ih =>
      obtain ⟨name, v⟩ := field
      obtain ⟨⟨type, hfind, htype⟩, hdeclaredRest⟩ := List.forall_mem_cons.mp hdeclared
      obtain ⟨hv, hrest⟩ := List.forall_mem_cons.mp hfields
      have hinsert : given.insert name v = given ++ [(name, v)] :=
        NameMap.insert_eq_append v fun entry hentry =>
          (List.pairwise_append.mp hsorted).2.2 entry hentry _ List.mem_cons_self
      rw [List.append_cons, ← hinsert] at hsorted ⊢
      have hlexeme : (ParseTree.identOf (Token.word name)).name = name := rfl
      rw [List.map_cons, ParseTree.Expr.initsToAst_commas_cons]
      simp only [Ast.Node.evalInits, fieldTree, hlexeme, hfind]
      have hall : (v.HoldsMinimum ∨ ∃ field ∈ rest, field.2.HoldsMinimum) ↔
          ∃ field ∈ (name, v) :: rest, field.2.HoldsMinimum := by
        simp
      refine (hv.bind fun _ => ?_).congr hall
      rw [if_pos htype]
      exact ih hsorted hdeclaredRest hrest

/-- The type of a struct value is the one that its written type names. -/
theorem instantiate_toTree {record : Record Value} {template : StructType} {inst : Instantiation}
    (htemplate : s.store.lookupType scope record.type.name = some template)
    (hinst : template.instantiate record.type.args = .ok inst) :
    Eval.instantiate scope record.type.toTree.toAst s = some (.ok inst, s) := by
  have htype := TypeName.ofExpr_toTree record.type
  have hname : record.type.toTree.toAst.name.name = record.type.name := by
    rw [← TypeName.name_ofExpr, htype]
  unfold Eval.instantiate
  rw [Bounded.bind_apply]
  simp only [Bounded.state, hname, htemplate, htype, hinst]
  rfl

/-- The expression of a readable value gives the value, unless the least integer is in it. -/
theorem Readable.readsBack {v : Value} (hv : v.Readable s.store scope)
    (hstrict : rules.strict = false) :
    ReadsBack ((v.toTree.toAst n).eval rules scope) s v.HoldsMinimum v := by
  induction hv with
  | int k => exact readsBack_int n k
  | bool b => cases b <;> exact (readsBack_literal n rfl).congr (iff_of_false nofun nofun)
  | nil => exact (readsBack_literal n rfl).congr (iff_of_false nofun nofun)
  | @str text htext =>
      have hliteral : ofLiteral .string (Token.sample .string (Quoted.text text)).lexeme =
          .ok (.str text) :=
        congrArg (fun text => Except.ok (Value.str text)) (Escape.value_quoted htext)
      exact (readsBack_literal n hliteral).congr (iff_of_false nofun nofun)
  | @struct record template inst _ _ htemplate hinst hparams hfieldTypes hsorted _ hdeclared _ ih =>
      rw [hfieldTypes] at hdeclared
      have hinits : ReadsBack (Ast.Node.evalInits rules scope record.type.toTree.toAst.name.name
          inst.type.fields [] (ParseTree.Expr.initsToAst n (commas (record.fields.map fieldTree)))) s
            (∃ field ∈ record.fields, field.2.HoldsMinimum) ([] ++ record.fields) :=
        readsBack_inits n hsorted hdeclared ih
      have hbuild : Eval.buildStruct rules.strict record.type.toTree.toAst inst record.fields =
          .ok (.struct record) := by
        simp [Eval.buildStruct, hstrict, TypeName.ofExpr_toTree, ← hparams, ← hfieldTypes]
      rw [toTree_struct, ParseTree.Expr.toAst, Ast.Expr.eval, Ast.Node.eval]
      refine .locate ?_ _
      refine .of_bind_eq (instantiate_toTree htemplate hinst) ?_
      refine (hinits.bind_eq ?_).congr holdsMinimum_struct_iff.symm
      rw [List.nil_append, hbuild]
      rfl

/-! ### Readable values up to positions -/

/-- No position is in a value without parts. -/
theorem Plain.eq_of_eqUpToPlaces {v w : Value} (hv : v.Plain) (h : EqUpToPlaces w v) : w = v := by
  rw [EqUpToPlaces, hv.relocate_eq] at h
  cases w with
  | struct record =>
      rw [relocate_struct] at h
      exact absurd hv (h ▸ id)
  | func f => exact absurd hv (h ▸ id)
  | _ => exact h

/-- Fields with equal values have no positions in them. -/
theorem fields_eq_of_eqUpToPlaces {fields others : NameMap Value}
    (hvalues : ∀ field ∈ fields, ∀ {w : Value}, EqUpToPlaces w field.2 → w = field.2)
    (h : EqUpToPlaces others fields) : others = fields := by
  induction fields generalizing others with
  | nil => exact List.map_eq_nil_iff.mp h
  | cons field rest ih =>
      obtain ⟨hfield, hrest⟩ := List.forall_mem_cons.mp hvalues
      cases others with
      | nil => cases h
      | cons other others =>
          obtain ⟨hhead, htail⟩ := List.cons.inj h
          have hname : other.1 = field.1 := (congrArg Prod.fst hhead :)
          have hvalue : other.2 = field.2 := hfield (congrArg Prod.snd hhead :)
          exact congrArg₂ List.cons (Prod.ext hname hvalue) (ih hrest htail)

/-- Readable values hold no code, so they hold no positions. -/
theorem Readable.eq_of_eqUpToPlaces {s : Store} {v w : Value} (hv : v.Readable s scope)
    (h : EqUpToPlaces w v) : w = v := by
  induction hv generalizing w with
  | int k => exact Plain.eq_of_eqUpToPlaces trivial h
  | bool b => exact Plain.eq_of_eqUpToPlaces trivial h
  | nil => exact Plain.eq_of_eqUpToPlaces trivial h
  | str htext => exact Plain.eq_of_eqUpToPlaces trivial h
  | @struct record _ _ _ _ _ _ _ _ _ _ _ _ ih =>
      rw [EqUpToPlaces, relocate_struct] at h
      cases w with
      | struct record' =>
          rw [relocate_struct] at h
          have hrecord := Value.struct.inj h
          have htype : record'.type = record.type := (congrArg Record.type hrecord :)
          have hparams : record'.params = record.params := (congrArg Record.params hrecord :)
          have hfieldTypes : record'.fieldTypes = record.fieldTypes :=
            (congrArg Record.fieldTypes hrecord :)
          have hfields : record'.fields = record.fields :=
            fields_eq_of_eqUpToPlaces (fun field hfield => ih field hfield)
              (congrArg Record.fields hrecord :)
          calc Value.struct record'
              = .struct ⟨record'.type, record'.params, record'.fieldTypes, record'.fields⟩ := rfl
            _ = .struct ⟨record.type, record.params, record.fieldTypes, record.fields⟩ := by
                rw [htype, hparams, hfieldTypes, hfields]
      | _ => cases h

end Value

/-! ### Returning a printed value -/

/-- The program that returns a value. -/
def Value.returning (v : Value) : ParseTree.Program :=
  ⟨[.ret (.word "return") (some v.toTree) (.symbol .semicolon ';')], some (.sample .eof "")⟩

namespace Value.Readable

variable {v : Value}

/-- The text that returns a readable value belongs to the grammar. -/
theorem wellFormed_returning {s : Store} {scope : ScopeId} (hv : v.Readable s scope) :
    v.returning.WellFormed .standard := by
  refine ⟨List.forall_mem_singleton.mpr (.ret rfl ?_ rfl), ?_⟩
  · rintro _ ⟨⟩
    exact hv.wellFormed_toTree
  · rintro _ ⟨⟩
    rfl

/-- The text that returns a value is read as the program that returns it. -/
theorem exists_tree {s : Store} {scope : ScopeId} (hv : v.Readable s scope) (file : String) :
    ∃ tokens tree, Token.scan ("return " ++ v.text ++ ";") file = .ok tokens ∧
      ParseTree.Program.ofTokens (Token.dropComments tokens) .standard = .ok tree ∧
      EqUpToPlaces v.returning tree := by
  have hspells := hv.spelled_text.returning
  obtain ⟨tokens, hscan, htokens⟩ := Token.scan_of_spells hspells file
  have hyield : v.returning.yield =
      .word "return" :: (v.toTree.yield ++ [.symbol .semicolon ';']) ++ [.sample .eof ""] := by
    simp [returning, ParseTree.Program.yield, ParseTree.Stmt.listYield, ParseTree.Stmt.yield]
  rw [← hyield] at htokens
  obtain ⟨tree, htree, hsame⟩ := ParseTree.Program.exists_of_eqUpToPlaces htokens.symm
    (ParseTree.Program.ofTokens_yield hv.wellFormed_returning)
  exact ⟨tokens, tree, hscan, htree, hsame⟩

/-- The program that returns a readable value returns it, unless the least integer is in it. -/
theorem readsBack_run {s : Machine} {scope : ScopeId} (hv : v.Readable s.store scope)
    (bound n : Nat) : ReadsBack (Machine.run false bound scope (v.returning.toAst n).stmts) s
      v.HoldsMinimum (.returned v) := by
  have heval : ReadsBack ((v.toTree.toAst n).eval ⟨false, Closure.call false bound⟩ scope) s
      v.HoldsMinimum v := hv.readsBack n rfl
  have hreturn : ReadsBack (((ParseTree.Stmt.ret (.word "return") (some v.toTree)
      (.symbol .semicolon ';')).toAst n).exec ⟨false, Closure.call false bound⟩ scope) s
        v.HoldsMinimum (.returned v) := heval.bind_eq rfl
  exact hreturn.bind_eq rfl

end Value.Readable

namespace Session

/-- **Printed values read back.** In a session that is not strict, the text that returns a readable
value returns that value, unless the least integer is in it: then it fails for the digits of that
integer, which are read without the sign. -/
theorem run_return_text {s : Session} (hstrict : s.config.strict = false) {v : Value}
    (hv : v.Readable s.machine.store s.root) (bound : Nat) :
    (¬ v.HoldsMinimum → ∃ t, s.run bound ("return " ++ v.text ++ ";") = some (.ok (some v), t)) ∧
      (v.HoldsMinimum → ∃ e t,
        s.run bound ("return " ++ v.text ++ ";") = some (.error (.eval e), t) ∧
          e.cause = .invalidLiteral "9223372036854775808") := by
  obtain ⟨tokens, tree, hscan, htree, hsame⟩ := hv.exists_tree s.config.file
  have hread : Ast.Program.ofSource (s.sources + 1) s.config.file ("return " ++ v.text ++ ";") =
      .ok (tree.toAst (s.sources + 1)) := by
    simp only [Ast.Program.ofSource, hscan, htree]
  -- the text and the sample tokens of the tree have the same words, in different places
  have hstmts := ParseTree.Program.eqUpToPlaces_stmts hsame (s.sources + 1)
  have hrun := Machine.eqUpToPlaces_run hstmts false bound s.root s.machine
  have hreads := hv.readsBack_run bound (s.sources + 1)
  rw [run, runIn_of_read hread, hstrict]
  refine ⟨fun hmin => ?_, fun hmin => ?_⟩
  · rw [hreads.ends hmin] at hrun
    obtain ⟨outcome, m, hends, hsameOutcome⟩ := hrun.exists_ok
    have hvalue : EqUpToPlaces (some v) outcome.returned? :=
      hsameOutcome.map (Outcome.returned?_relocate _)
    rcases hvalue.option_cases with ⟨hnone, -⟩ | ⟨_, w, hsome, hreturned, hw⟩
    · cases hnone
    · cases hsome
      rw [hv.eq_of_eqUpToPlaces hw.symm] at hreturned
      refine ⟨{ s with sources := s.sources + 1, machine := m }, ?_⟩
      rw [hends, ← hreturned]
      rfl
  · obtain ⟨e, he, hcause⟩ := hreads.fails hmin
    rw [he] at hrun
    obtain ⟨e', m, hfails, hsameError⟩ := hrun.exists_error
    have hsameCause : e.cause = e'.cause := hsameError.eq fun _ => rfl
    refine ⟨e', { s with sources := s.sources + 1, machine := m }, ?_, hsameCause ▸ hcause⟩
    rw [hfails]
    rfl

/-- A struct with a negative number and a string that has to be escaped, and the same struct with the
least integer. -/
theorem run_return_text_struct :
    let pair : StructType := ⟨"Pair", ["T"], [("left", .mk "T" []), ("note", .mk "string" [])]⟩
    let root := Store.empty.addRoot
    let s := ofStore {} (.buffer "") root.1 (root.2.defineType root.1 "Pair" pair)
    let v := fun n => Value.struct ⟨.mk "Pair" [.mk "int" []], [("T", .mk "int" [])],
      [("left", .mk "int" []), ("note", .mk "string" [])],
      [("left", .int n), ("note", .str "a \"b\"\n")]⟩
    (v (-7)).text = "Pair[int]\x7bleft: -7, note: \"a \\\"b\\\"\\n\"\x7d" ∧
      (∃ t, s.run 9 ("return " ++ (v (-7)).text ++ ";") = some (.ok (some (v (-7))), t)) ∧
      ∃ e t, s.run 9 ("return " ++ (v Int64.minValue).text ++ ";") = some (.error (.eval e), t) ∧
        e.cause = .invalidLiteral "9223372036854775808" := by
  intro pair root s v
  have hpair : IsIdentifier "Pair" := ⟨Pattern.name_of_all (by decide) (by decide), by decide⟩
  have hint : IsIdentifier "int" := ⟨Pattern.name_of_all (by decide) (by decide), by decide⟩
  have hleft : IsIdentifier "left" := ⟨Pattern.name_of_all (by decide) (by decide), by decide⟩
  have hnote : IsIdentifier "note" := ⟨Pattern.name_of_all (by decide) (by decide), by decide⟩
  have hplain (c : Char) (hc : c ∈ "a \"b\"\n".toList) : IsPlainChar c := by
    have hall : ("a \"b\"\n".toList.all fun c => decide (IsPlainChar c)) = true := by decide
    exact of_decide_eq_true (List.all_eq_true.mp hall c hc)
  have hv (n : Int64) : (v n).Readable s.machine.store s.root := by
    have htemplate : s.machine.store.lookupType s.root "Pair" = some pair := rfl
    refine .struct hpair (List.forall_mem_singleton.mpr (.mk (.inl hint) nofun)) htemplate rfl rfl
      rfl ?_ ?_ ?_ ?_
    · have hbefore : "left" < "note" := by decide
      exact List.pairwise_pair.mpr hbefore
    · exact List.forall_mem_cons.mpr ⟨hleft, List.forall_mem_singleton.mpr hnote⟩
    · exact List.forall_mem_cons.mpr ⟨⟨_, rfl, rfl⟩, List.forall_mem_singleton.mpr ⟨_, rfl, rfl⟩⟩
    · exact List.forall_mem_cons.mpr ⟨.int n, List.forall_mem_singleton.mpr (.str hplain)⟩
  have hnone : ¬ (v (-7)).HoldsMinimum := by
    rw [Value.holdsMinimum_struct_iff]
    rintro ⟨field, hfield, h⟩
    rcases List.mem_cons.mp hfield with rfl | hfield
    · exact absurd (Value.holdsMinimum_int_iff.mp h) (by decide)
    · obtain rfl := List.mem_singleton.mp hfield
      cases h
  have hleast : (v Int64.minValue).HoldsMinimum := .struct List.mem_cons_self .int
  exact ⟨by decide +kernel, (run_return_text rfl (hv (-7)) 9).1 hnone,
    (run_return_text rfl (hv Int64.minValue) 9).2 hleast⟩

end Session

end StructScript
