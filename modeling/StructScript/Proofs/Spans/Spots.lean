import StructScript.Proofs.Evaluation.Regime
import StructScript.Proofs.Spans.Outline

/-!
# The spots of code

An evaluation places its errors at nodes of the code that runs. The *spots* of a piece of code are
the spans of its nodes of five kinds, statements, expressions, names, types and initialisers, and
the spans of what its calls call (`Ast.Part.Spot`). All of them are spans of nodes of its outline,
and the spots of a piece are spots of all code in which the piece stands.
-/

namespace StructScript

namespace Outline

variable {α : Type} {a label : α} {parts : List (Outline α)}

/-- A node has its own label and those of its parts. -/
theorem has_node_iff : (node label parts).Has a ↔ a = label ∨ ∃ part ∈ parts, part.Has a := by
  constructor
  · intro h
    cases h with
    | root => exact .inl rfl
    | part hmem h => exact .inr ⟨_, hmem, h⟩
  · rintro (rfl | ⟨part, hmem, h⟩)
    · exact .root parts
    · exact .part hmem h label

section

variable [DecidableEq α]

mutual

/-- Look for a label in an outline. -/
def decideHas (a : α) : (o : Outline α) → Decidable (o.Has a)
  | node label parts =>
    have := decideHasAny a parts
    decidable_of_iff (a = label ∨ ∃ part ∈ parts, part.Has a) has_node_iff.symm

/-- Look for a label in some outlines. -/
def decideHasAny (a : α) : (parts : List (Outline α)) → Decidable (∃ part ∈ parts, part.Has a)
  | [] => .isFalse (by simp)
  | part :: parts =>
    have := decideHas a part
    have := decideHasAny a parts
    decidable_of_iff (part.Has a ∨ ∃ part ∈ parts, part.Has a) (by simp)

end

instance (a : α) (o : Outline α) : Decidable (o.Has a) := decideHas a o

end

end Outline

namespace Ast

/-! ### The names in a place -/

namespace Place

/-- A place has the name of the variable that it starts from. -/
theorem has_root (p : Place) : p.outline.Has ⟨.ident, some p.root.span⟩ := by
  induction p with
  | var name => exact .root []
  | field base name span ih =>
      rw [outline]
      exact .part List.mem_cons_self ih _

/-- A place has the names of the fields on the way. -/
theorem has_path (p : Place) {name : Ident} (h : name ∈ p.path) :
    p.outline.Has ⟨.ident, some name.span⟩ := by
  induction p with
  | var _ => cases h
  | field base field span ih =>
      rw [outline]
      rcases List.mem_append.mp h with h | h
      · exact .part List.mem_cons_self (ih h) _
      · rw [List.mem_singleton.mp h]
        exact .part (List.mem_cons_of_mem _ List.mem_cons_self) (.root []) _

/-- The outermost node of a place has its span. -/
theorem has_span (p : Place) : ∃ kind, p.outline.Has ⟨kind, some p.span⟩ := by
  cases p with
  | var name => exact ⟨.ident, .root []⟩
  | field base name span =>
      rw [outline]
      exact ⟨.place, .root _⟩

end Place

/-- A type has its own span. -/
theorem TypeExpr.has_span (type : TypeExpr) : type.outline.Has ⟨.type, some type.span⟩ := by
  cases type
  exact .root _

/-- The parts of an initialiser are its name and its value. -/
theorem FieldInit.outline_eq (i : FieldInit) :
    i.outline = .node ⟨.init, some i.span⟩ [i.name.outline, i.value.outline] := by
  cases i
  rw [outline]

/-- The parts of a function are its parameters, its result type and the statements of its body. -/
theorem FuncDef.outline_eq (f : FuncDef) :
    f.outline = .node ⟨.func, some f.span⟩ (f.params.map Param.outline ++
      (f.result.toList.map TypeExpr.outline ++ f.body.map Stmt.outline)) := by
  cases f
  rw [outline, Stmt.outlines_eq]

namespace Part

/-- The outline of a piece of code. -/
def outline : Part → Outline Mark
  | .stmt s => s.outline
  | .expr e => e.outline
  | .init i => i.outline
  | .func f => f.outline

/-- An expression has what its parts have. -/
theorem has_of_mem_expr {node : Node} {part : Outline Mark} {mark : Mark}
    (hmem : part ∈ node.outlines) (h : part.Has mark) (span : Span) :
    (Part.expr ⟨node, span⟩).outline.Has mark := by
  rw [outline, Expr.outline]
  exact .part hmem h _

/-- The nodes of a piece are nodes of the code in which it stands. -/
theorem ChildOf.has {part whole : Part} (h : part.ChildOf whole) {mark : Mark}
    (hmark : part.outline.Has mark) : whole.outline.Has mark := by
  cases h with
  | init hmem type span =>
      refine has_of_mem_expr ?_ hmark span
      rw [Node.outlines, Node.initsOutlines_eq]
      exact List.mem_cons_of_mem _ (List.mem_map_of_mem hmem)
  | arg hmem callee span =>
      refine has_of_mem_expr ?_ hmark span
      rw [Node.outlines, Node.argsOutlines_eq]
      exact List.mem_cons_of_mem _ (List.mem_map_of_mem hmem)
  | body hmem =>
      rw [outline, FuncDef.outline_eq]
      refine .part ?_ hmark _
      exact List.mem_append_right _ (List.mem_append_right _ (List.mem_map_of_mem hmem))
  | operand op e span => exact has_of_mem_expr (by simp [Node.outlines, outline]) hmark span
  | left op a b span => exact has_of_mem_expr (by simp [Node.outlines, outline]) hmark span
  | right op a b span => exact has_of_mem_expr (by simp [Node.outlines, outline]) hmark span
  | func f span => exact has_of_mem_expr (by simp [Node.outlines, outline]) hmark span
  | initValue i =>
      rw [outline, FieldInit.outline_eq]
      exact .part (by simp [outline]) hmark _
  | statement e =>
      rw [outline, Stmt.outline]
      exact hmark
  | _ =>
      -- the value of a definition, an assignment or a return
      rw [outline, Stmt.outline]
      exact .part (by simp [outline]) hmark _

/-- Code has what the pieces that stand in it have, however deep. -/
theorem In.has {part whole : Part} (h : part.In whole) {mark : Mark}
    (hmark : part.outline.Has mark) : whole.outline.Has mark := by
  induction h with
  | refl => exact hmark
  | tail _ hchild ih => exact hchild.has ih

end Part

/-- The kinds of nodes whose spans are spots. -/
def NodeKind.spots : List NodeKind := [.stmt, .expr, .ident, .type, .init]

namespace Part

/-- The span is one of a statement, an expression, a name, a type or an initialiser in the code, or
of what a call in the code calls. -/
inductive Spot (part : Part) (span : Span) : Prop where
  | node (kind : NodeKind) (hkind : kind ∈ NodeKind.spots)
      (h : part.outline.Has ⟨kind, some span⟩)
  | callee {callee : Place} {args : List Expr} {site : Span}
      (h : In (.expr ⟨.call callee args, site⟩) part) (hspan : callee.span = span)

variable {part whole : Part} {span : Span}

/-- The spots of a piece are spots of the code in which it stands. -/
theorem Spot.of_child (h : part.Spot span) (hchild : part.ChildOf whole) : whole.Spot span := by
  cases h with
  | node kind hkind h => exact .node kind hkind (hchild.has h)
  | callee h hspan => exact .callee (h.tail hchild) hspan

/-- A spot is the span of a node. -/
theorem Spot.has (h : part.Spot span) : ∃ kind, part.outline.Has ⟨kind, some span⟩ := by
  cases h with
  | node kind _ h => exact ⟨kind, h⟩
  | @callee callee args site h hspan =>
      subst hspan
      obtain ⟨kind, hkind⟩ := callee.has_span
      have hcallee : callee.outline ∈ (Node.call callee args).outlines := List.mem_cons_self
      exact ⟨kind, h.has (has_of_mem_expr hcallee hkind site)⟩

/-! ### The spots at which errors are placed -/

namespace Spot

/-- The name of a node is a spot. -/
theorem name {i : Ident} (h : part.outline.Has ⟨.ident, some i.span⟩) : part.Spot i.span :=
  .node .ident (by decide) h

/-- The span of an expression is a spot. -/
theorem expr (node : Node) (span : Span) : (Part.expr ⟨node, span⟩).Spot span := by
  refine .node .expr (by decide) ?_
  rw [outline, Expr.outline]
  exact .root _

/-- The variable that a place begins with, where the place stands in an expression. -/
theorem root {p : Place} {node : Node} (h : p.outline ∈ node.outlines) (span : Span) :
    (Part.expr ⟨node, span⟩).Spot p.root.span :=
  name (has_of_mem_expr h p.has_root span)

/-- The type of a struct literal is a spot. -/
theorem type (type : TypeExpr) (inits : List FieldInit) (span : Span) :
    (Part.expr ⟨.struct type inits, span⟩).Spot type.span :=
  .node .type (by decide) (has_of_mem_expr List.mem_cons_self type.has_span span)

/-- The span of an initialiser is a spot. -/
theorem init (i : FieldInit) : (Part.init i).Spot i.span := by
  refine .node .init (by decide) ?_
  rw [outline, FieldInit.outline_eq]
  exact .root _

/-- The name of an initialiser is a spot. -/
theorem initName (i : FieldInit) : (Part.init i).Spot i.name.span := by
  apply name
  rw [outline, FieldInit.outline_eq]
  exact .part List.mem_cons_self (.root []) _

/-- The span of an assignment is a spot. -/
theorem assign (target : Place) (value : Expr) (span : Span) :
    (Part.stmt (.assign target value span)).Spot span := by
  refine .node .stmt (by decide) ?_
  rw [outline, Stmt.outline]
  exact .root _

/-- A name in the place that is assigned. -/
theorem target {target : Place} {i : Ident} (h : target.outline.Has ⟨.ident, some i.span⟩)
    (value : Expr) (span : Span) : (Part.stmt (.assign target value span)).Spot i.span := by
  apply name
  rw [outline, Stmt.outline]
  exact .part List.mem_cons_self h _

end Spot

/-- What the code can run has its spots among `places`. A function literal is run as its body. -/
def SpotsIn (places : Span → Prop) : Part → Prop
  | .func f => ∀ stmt ∈ f.body, ∀ span, (Part.stmt stmt).Spot span → places span
  | part => ∀ span, part.Spot span → places span

/-- The spots of a part are spots of the whole. -/
theorem SpotsIn.child {places : Span → Prop} (hchild : part.ChildOf whole)
    (h : whole.SpotsIn places) : part.SpotsIn places := by
  cases hchild with
  | body hmem => exact h _ hmem
  | func f site =>
      intro stmt hmem place hspot
      exact h place ((hspot.of_child (.body hmem)).of_child (.func f site))
  | _ => exact fun place hspot => h place (hspot.of_child (by constructor <;> assumption))

end Part

end Ast

end StructScript
