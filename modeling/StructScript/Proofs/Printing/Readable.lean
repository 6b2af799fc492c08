import StructScript.Proofs.Printing.Quotation

/-!
# Values with an expression

The text of a value is an expression of the language if the value is *readable*: it has no floats and
no functions in it, its strings are plain text, and its structs are such as the types in a scope
declare (`Value.Readable`). The tree of that expression is `Value.toTree`; it belongs to the grammar
(`Value.Readable.wellFormed_toTree`), and the text of the value spells its tokens
(`Value.Readable.spelled_text`).
-/

namespace StructScript

open ParseTree (Separated)
open ParseTree.Separated (commas)

/-- The text is a name and no keyword. -/
structure IsIdentifier (name : String) : Prop where
  isName : Pattern.name.Matches name.toList
  notKeyword : TokenKind.keyword? name = none

/-- An identifier as a word is one. -/
theorem IsIdentifier.kind_word {name : String} (h : IsIdentifier name) :
    (Token.word name).kind = .ident := by
  change (TokenKind.keyword? name).getD .ident = .ident
  rw [h.notKeyword]
  rfl

/-! ### Types -/

namespace TypeName

/-- All names in the type are identifiers or nil. -/
inductive Readable : TypeName → Prop where
  | mk {name : String} {args : List TypeName} (hname : IsIdentifier name ∨ name = "nil")
      (hargs : ∀ arg ∈ args, arg.Readable) : Readable (mk name args)

/-- The tree of a type. -/
def toTree : TypeName → ParseTree.TypeRef
  | mk name args =>
    if args.isEmpty then .plain (.word name)
    else .applied (.word name) (.symbol .lbracket '[') (commas (argTrees args))
      (.symbol .rbracket ']')
where
  /-- The arguments in turn. -/
  argTrees : List TypeName → List ParseTree.TypeRef
    | [] => []
    | type :: rest => type.toTree :: argTrees rest

/-- The trees of type arguments. -/
theorem argTrees_eq (args : List TypeName) : toTree.argTrees args = args.map toTree := by
  induction args with
  | nil => rfl
  | cons type rest ih => rw [toTree.argTrees, ih, List.map_cons]

/-- The texts of type arguments. -/
theorem argTexts_eq (args : List TypeName) : text.argTexts args = args.map text := by
  induction args with
  | nil => rfl
  | cons type rest ih => rw [text.argTexts, ih, List.map_cons]

/-- A type without arguments is its name. -/
theorem toTree_of_nil (name : String) : (mk name []).toTree = .plain (.word name) := by
  simp [toTree]

/-- A type with arguments has them between brackets, with commas. -/
theorem toTree_of_cons (name : String) (arg : TypeName) (args : List TypeName) :
    (mk name (arg :: args)).toTree = .applied (.word name) (.symbol .lbracket '[')
      (commas ((arg :: args).map toTree)) (.symbol .rbracket ']') := by
  simp [toTree, argTrees_eq]

/-- The tree of a type begins with the name of the type. -/
@[simp] theorem name_toTree (type : TypeName) : type.toTree.name = .word type.name := by
  obtain ⟨name, _ | ⟨arg, args⟩⟩ := type
  · rw [toTree_of_nil]
    rfl
  · rw [toTree_of_cons]
    rfl

/-- The type that the tree of a type writes. -/
theorem ofExpr_toTree : (type : TypeName) → ofExpr type.toTree.toAst = type
  | mk name [] => by
      rw [toTree_of_nil]
      rfl
  | mk name (arg :: args) => by
      have hargs := ofExprs_argTrees (arg :: args)
      rw [toTree_of_cons, ParseTree.TypeRef.toAst, ofExpr, ParseTree.TypeRef.argsToAst_eq,
        Separated.values_commas, ← argTrees_eq, hargs]
      rfl
where
  /-- The arguments in turn. -/
  ofExprs_argTrees : (args : List TypeName) →
      ofExpr.ofExprs ((toTree.argTrees args).map ParseTree.TypeRef.toAst) = args
    | [] => rfl
    | type :: rest => by
        rw [toTree.argTrees, List.map_cons, ofExpr.ofExprs, ofExpr_toTree type,
          ofExprs_argTrees rest]

namespace Readable

variable {type : TypeName}

/-- Names of types are written as names. -/
theorem matches_name {name : String} (h : IsIdentifier name ∨ name = "nil") :
    Pattern.name.Matches name.toList := by
  rcases h with h | rfl
  · exact h.isName
  · exact Pattern.name_of_all (by decide) (by decide)

/-- As words they may name a type. -/
theorem isTypeName_word {name : String} (h : IsIdentifier name ∨ name = "nil") :
    ParseTree.IsTypeName (.word name) := by
  rcases h with h | rfl
  · exact .inl h.kind_word
  · exact .inr rfl

/-- The tree of a readable type belongs to the grammar. -/
theorem wellFormed_toTree (h : type.Readable) : type.toTree.WellFormed := by
  induction h with
  | @mk name args hname hargs ih =>
      cases args with
      | nil =>
          rw [toTree_of_nil]
          exact .plain (isTypeName_word hname)
      | cons arg args =>
          rw [toTree_of_cons]
          refine .applied (isTypeName_word hname) rfl (Separated.punctuated_commas _ _) ?_ ?_ rfl
          · intro hnil
            have hvalues := congrArg Separated.values hnil
            rw [Separated.values_commas] at hvalues
            cases hvalues
          · rw [Separated.values_commas]
            exact List.forall_mem_map.mpr ih

/-- The text of a readable type spells the tokens of its tree. -/
theorem spelled_text (h : type.Readable) : Spelled type.text.toList type.toTree.yield := by
  induction h with
  | @mk name args hname hargs ih =>
      have hword := Spelled.word (matches_name hname)
      cases args with
      | nil =>
          rw [toTree_of_nil]
          simpa [text, ParseTree.TypeRef.yield] using hword
      | cons arg args =>
          intro cs us hcs hus
          have hclose := hus.symbol .rbracket ']' (by decide)
          have hgaps : ∀ c ∈ ([] : List Char), isGap c = true := List.forall_mem_nil _
          have hitems := Separated.spelled_commas (fun type => type.text.toList) hgaps (arg :: args)
            ih _ _ (.cons (by decide) (by decide) _) hclose
          have hopen := hitems.symbol .lbracket '[' (by decide)
          have hwhole := hword _ _ (.cons (by decide) (by decide) _) hopen
          rw [toTree_of_cons]
          simpa [text, argTexts_eq, ParseTree.TypeRef.yield, ParseTree.TypeRef.argsYield_eq,
            String.toList_intercalate, Function.comp_def] using hwhole

end Readable

end TypeName

/-! ### Strings -/

/-- The character is a visible one of ASCII, or one of the controls that have a letter. -/
def IsPlainChar (c : Char) : Prop :=
  (0x20 ≤ c.toNat ∧ c.toNat ≤ 0x7e) ∨ c = '\x00' ∨ c = '\t' ∨ c = '\n' ∨ c = '\r'

instance : DecidablePred IsPlainChar := fun _ => inferInstanceAs (Decidable (_ ∨ _))

/-- The visible characters among the first 128 are shown as they are. -/
theorem not_isHidden_of_visible : ∀ n < 0x7f, 0x20 ≤ n → Quoted.isHidden (Char.ofNat n) = false := by
  decide +kernel

/-- A plain character is not written as its code point. -/
theorem IsPlainChar.hexEscaped_eq_false {c : Char} (h : IsPlainChar c) :
    Quoted.hexEscaped c = false := by
  rcases h with ⟨hlow, hhigh⟩ | rfl | rfl | rfl | rfl
  · have hhidden := not_isHidden_of_visible c.toNat (by omega) hlow
    rw [Char.ofNat_toNat] at hhidden
    rw [Quoted.hexEscaped, hhidden, Bool.and_false]
  all_goals rfl

/-- The lexeme of plain text has the text as its value. -/
theorem Escape.value_quoted {s : String} (h : ∀ c ∈ s.toList, IsPlainChar c) :
    value (Quoted.text s) = s :=
  Quoted.value_text_eq_iff.mpr fun c hc => (h c hc).hexEscaped_eq_false

/-! ### Values -/

namespace Value

/-- The tree of an integer. A negative one is a minus before a literal. -/
def integerTree : Int → ParseTree.Expr
  | .ofNat n => .literal .int (.sample .int n.repr)
  | .negSucc n =>
    .unary .neg (.symbol .minus '-') (.literal .int (.sample .int (n + 1).repr))

mutual

/-- The tree of a value. Values without an expression stand as nil. -/
def toTree : Value → ParseTree.Expr
  | int n => integerTree n.toInt
  | bool true => .literal .true (.word "true")
  | bool false => .literal .false (.word "false")
  | str s => .literal .string (.sample .string (Quoted.text s))
  | struct ⟨type, _, _, fields⟩ =>
    .struct type.toTree (.symbol .lbrace '\x7b') (commas (fieldTrees fields))
      (.symbol .rbrace '\x7d')
  | nil | float _ | func _ => .literal .nil (.word "nil")

/-- The fields of a struct value in turn. -/
def fieldTrees : List (String × Value) → List ParseTree.FieldInit
  | [] => []
  | (name, v) :: rest => ⟨.word name, .symbol .colon ':', v.toTree⟩ :: fieldTrees rest

end

/-- The tree of a field. -/
def fieldTree (field : String × Value) : ParseTree.FieldInit :=
  ⟨.word field.1, .symbol .colon ':', field.2.toTree⟩

/-- The trees of the fields of a struct value. -/
theorem fieldTrees_eq (fields : List (String × Value)) :
    fieldTrees fields = fields.map fieldTree := by
  induction fields with
  | nil => rfl
  | cons field rest ih => exact congrArg (_ :: ·) ih

/-- The tree of a struct value: its type, and its fields between braces, with commas. -/
theorem toTree_struct (record : Record Value) : (struct record).toTree =
    .struct record.type.toTree (.symbol .lbrace '\x7b') (commas (record.fields.map fieldTree))
      (.symbol .rbrace '\x7d') := by
  obtain ⟨type, params, fieldTypes, fields⟩ := record
  rw [toTree, fieldTrees_eq]

/-- The value can be written as an expression: its strings are plain text, and each of its structs
is of a type that the scope knows, with the parameters and the field types of that type applied to
the written arguments, and with readable values of the declared types in declared fields. The fields
are a map, so they are in the order of their names; not all declared ones have to be given. -/
inductive Readable (s : Store) (scope : ScopeId) : Value → Prop where
  | int (n : Int64) : Readable s scope (int n)
  | bool (b : Bool) : Readable s scope (bool b)
  | nil : Readable s scope nil
  | str {text : String} (htext : ∀ c ∈ text.toList, IsPlainChar c) : Readable s scope (str text)
  | struct {record : Record Value} {template : StructType} {inst : Instantiation}
      (hname : IsIdentifier record.type.name) (hargs : ∀ arg ∈ record.type.args, arg.Readable)
      (htemplate : s.lookupType scope record.type.name = some template)
      (hinst : template.instantiate record.type.args = .ok inst)
      (hparams : record.params = inst.bindings) (hfieldTypes : record.fieldTypes = inst.type.fields)
      (hsorted : NameMap.Sorted record.fields)
      (hfieldNames : ∀ field ∈ record.fields, IsIdentifier field.1)
      (hdeclared : ∀ field ∈ record.fields, ∃ type,
        record.fieldTypes.find? field.1 = some type ∧ field.2.typeName = type.name)
      (hfields : ∀ field ∈ record.fields, field.2.Readable s scope) :
      Readable s scope (struct record)

namespace Readable

variable {s : Store} {scope : ScopeId} {v : Value}

/-- A type is readable if its name and its arguments are. -/
theorem readable_type {record : Record Value} (hname : IsIdentifier record.type.name)
    (hargs : ∀ arg ∈ record.type.args, arg.Readable) : record.type.Readable := by
  obtain ⟨⟨name, args⟩, params, fieldTypes, fields⟩ := record
  exact .mk (.inl hname) hargs

/-- The expression of a readable value belongs to the grammar. -/
theorem wellFormed_toTree (h : v.Readable s scope) : v.toTree.WellFormed .standard := by
  induction h with
  | int n =>
      rw [toTree]
      cases n.toInt with
      | ofNat n => exact .literal rfl rfl
      | negSucc n => exact .unary rfl rfl (.literal rfl rfl) nofun
  | bool b => cases b <;> exact .literal rfl rfl
  | nil => exact .literal rfl rfl
  | str htext => exact .literal rfl rfl
  | @struct record _ _ hname hargs _ _ _ _ _ hfieldNames _ _ ih =>
      have htype := (readable_type hname hargs).wellFormed_toTree
      rw [toTree_struct]
      refine .struct rfl ?_ htype rfl (Separated.punctuated_commas _ _) ?_ rfl
      · rw [TypeName.name_toTree]
        exact hname.kind_word
      · rw [Separated.values_commas]
        refine List.forall_mem_map.mpr fun field hfield => ?_
        exact .mk (hfieldNames field hfield).kind_word rfl (ih field hfield)

/-- The text of a readable value spells the tokens of its expression. -/
theorem spelled_text (h : v.Readable s scope) : Spelled v.text.toList v.toTree.yield := by
  induction h with
  | int n =>
      rw [toTree, text]
      cases n.toInt with
      | ofNat n => exact Spelled.natural n
      | negSucc n =>
          have htext : (toString (Int.negSucc n)).toList = '-' :: (n + 1).repr.toList := by
            change ("-" ++ (n + 1).repr).toList = _
            rw [String.toList_append]
            rfl
          rw [htext]
          exact Spelled.negative (n + 1)
  | bool b => cases b <;> exact Spelled.word (Pattern.name_of_all (by decide) (by decide))
  | nil => exact Spelled.word (Pattern.name_of_all (by decide) (by decide))
  | @str text htext => exact Spelled.quoted (Quoted.matches_text text)
  | @struct record _ _ hname hargs _ _ _ _ _ hfieldNames _ _ ih =>
      have htype := (readable_type hname hargs).spelled_text
      -- a field is its name, a colon, a space and its value
      have hfield (field : String × Value) (hfield : field ∈ record.fields) :
          Spelled (field.1 ++ ": " ++ field.2.text).toList (fieldTree field).yield := by
        intro cs us hcs hus
        have hvalue := (ih field hfield cs us hcs hus).gap (c := ' ') (by decide)
        have hcolon := hvalue.symbol .colon ':' (by decide)
        have hword := Spelled.word (hfieldNames field hfield).isName
        have hwhole := hword _ _ (.cons (by decide) (by decide) _) hcolon
        simpa [fieldTree, ParseTree.FieldInit.yield] using hwhole
      intro cs us hcs hus
      have hclose := hus.symbol .rbrace '\x7d' (by decide)
      have hgaps : ∀ c ∈ [' '], isGap c = true := List.forall_mem_singleton.mpr rfl
      have hitems := Separated.spelled_commas _ hgaps record.fields hfield _ _
        (.cons (by decide) (by decide) _) hclose
      have hopen := hitems.symbol .lbrace '\x7b' (by decide)
      have hwhole := htype _ _ (.cons (by decide) (by decide) _) hopen
      rw [text_struct, toTree_struct]
      simpa [ParseTree.Expr.yield, ParseTree.Expr.initsYield_eq, String.toList_intercalate,
        Function.comp_def] using hwhole

end Readable

end Value

end StructScript
