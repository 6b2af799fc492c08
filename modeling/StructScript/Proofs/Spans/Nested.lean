import StructScript.Proofs.Spans.Stretch

/-!
# Spans are nested and ordered

Where the offsets of tokens ascend, the spans of abstract syntax are nested as its nodes are and
ordered as its siblings are (`Outline.Nested`).

This comes from how a node is laid over its tokens (`Outline.Laid`): its span runs from the first to
the last of some of its tokens, and among these are those of its parts, part by part in order. For
most nodes these are all tokens of the node. The value of an initialiser may be a group, whose
parentheses its span does not cover.

Main result: `Outline.Laid.nested`.
-/

namespace StructScript

/-- The offsets of the tokens ascend. -/
def Token.Ascending (tokens : List Token) : Prop :=
  tokens.Pairwise fun t u => t.position.offset < u.position.offset

namespace Outline

open ParseTree (Stretch)

/-- The tokens of the outermost node. -/
def tokens (o : Outline Stretch) : List Token := o.label.tokens

/-- A node of the outline has the span. -/
def HasSpan (o : Outline Stretch) (span : Span) : Prop :=
  ∃ stretch, o.Has stretch ∧ stretch.mark.span = some span

/-- Every node of the outline that has a span has one between two of its own tokens, in order, and
within it are all spans of nodes inside it. Of any two parts of one node, every span in the first
one ends before every span in the second one starts. -/
inductive Nested : Outline Stretch → Prop where
  | node {stretch : Stretch} {parts : List (Outline Stretch)}
      (hends : ∀ span, stretch.mark.span = some span →
        (∃ t ∈ stretch.tokens, t.position = span.start) ∧
        (∃ t ∈ stretch.tokens, t.position = span.stop) ∧ span.start.offset ≤ span.stop.offset)
      (hwithin : ∀ span, stretch.mark.span = some span → ∀ part ∈ parts, ∀ inner,
        part.HasSpan inner →
          span.start.offset ≤ inner.start.offset ∧ inner.stop.offset ≤ span.stop.offset)
      (hordered : parts.Pairwise fun part other => ∀ span span', part.HasSpan span →
        other.HasSpan span' → span.stop.offset < span'.start.offset)
      (hparts : ∀ part ∈ parts, part.Nested) : Nested (.node stretch parts)

/-- How a node is laid over its tokens: its span runs from the first to the last of the tokens
`covered`, among which those of its parts stand one part after the other. -/
inductive Laid : Outline Stretch → Prop where
  | node {stretch : Stretch} {parts : List (Outline Stretch)} (covered : List Token)
      (hcovered : covered.Sublist stretch.tokens)
      (hinside : (parts.flatMap tokens).Sublist covered)
      (hspan : ∀ span, stretch.mark.span = some span →
        (∃ first ∈ covered.head?, first.position = span.start) ∧
        ∃ last ∈ covered.getLast?, last.position = span.stop)
      (hparts : ∀ part ∈ parts, part.Laid) : Laid (.node stretch parts)

end Outline

/-! ### Ascending tokens -/

namespace Token.Ascending

variable {tokens us : List Token}

/-- Tokens that ascend do so with some left out. -/
theorem sublist (h : Ascending tokens) (hus : us.Sublist tokens) : Ascending us :=
  List.Pairwise.sublist hus h

/-- No token stands before the first one. -/
theorem head_le (h : Ascending tokens) {first t : Token} (hfirst : first ∈ tokens.head?)
    (ht : t ∈ tokens) : first.position.offset ≤ t.position.offset := by
  cases tokens with
  | nil => cases ht
  | cons head rest =>
      cases hfirst
      rcases List.mem_cons.mp ht with rfl | ht
      · exact Nat.le_refl _
      · exact Nat.le_of_lt (List.rel_of_pairwise_cons h ht)

/-- No token stands behind the last one. -/
theorem le_getLast (h : Ascending tokens) {last t : Token} (hlast : last ∈ tokens.getLast?)
    (ht : t ∈ tokens) : t.position.offset ≤ last.position.offset := by
  obtain ⟨rest, rfl⟩ := List.getLast?_eq_some_iff.mp hlast
  rcases List.mem_append.mp ht with ht | ht
  · exact Nat.le_of_lt ((List.pairwise_append.mp h).2.2 t ht last (by simp))
  · cases List.mem_singleton.mp ht
    exact Nat.le_refl _

end Token.Ascending

namespace Outline

open ParseTree (Stretch)

/-- A span in an outline is that of its outermost node or stands in a part. -/
theorem HasSpan.cases_of_node {stretch : Stretch} {parts : List (Outline Stretch)} {span : Span}
    (h : (node stretch parts).HasSpan span) :
    stretch.mark.span = some span ∨ ∃ part ∈ parts, part.HasSpan span := by
  obtain ⟨other, hhas, hspan⟩ := h
  cases hhas with
  | root => exact .inl hspan
  | part hmem hpart => exact .inr ⟨_, hmem, other, hpart, hspan⟩

namespace Laid

/-- All spans run between tokens of the outermost node. -/
theorem ends {o : Outline Stretch} (h : o.Laid) {span : Span} (hspan : o.HasSpan span) :
    (∃ t ∈ o.tokens, t.position = span.start) ∧ ∃ t ∈ o.tokens, t.position = span.stop := by
  induction h with
  | @node stretch parts covered hcovered hinside hown hparts ih =>
      rcases hspan.cases_of_node with hspan | ⟨part, hpart, hspan⟩
      · obtain ⟨⟨first, hfirst, hstart⟩, last, hlast, hstop⟩ := hown span hspan
        exact ⟨⟨first, hcovered.subset (List.mem_of_mem_head? hfirst), hstart⟩,
          last, hcovered.subset (List.mem_of_mem_getLast? hlast), hstop⟩
      · have htokens : ∀ t ∈ part.tokens, t ∈ stretch.tokens := by
          intro t ht
          exact hcovered.subset (hinside.subset (List.mem_flatMap.mpr ⟨part, hpart, ht⟩))
        obtain ⟨⟨t, ht, hstart⟩, u, hu, hstop⟩ := ih part hpart hspan
        exact ⟨⟨t, htokens t ht, hstart⟩, u, htokens u hu, hstop⟩

/-- Nodes that are laid over ascending tokens have nested and ordered spans. -/
theorem nested {o : Outline Stretch} (h : o.Laid) (hascending : Token.Ascending o.tokens) :
    o.Nested := by
  induction h with
  | @node stretch parts covered hcovered hinside hown hparts ih =>
      -- the tokens of the parts ascend because all those that the node covers do
      have hcoveredAscending : Token.Ascending covered := hascending.sublist hcovered
      have hinsideAscending := hcoveredAscending.sublist hinside
      have hmem : ∀ part ∈ parts, ∀ t ∈ part.tokens, t ∈ covered := by
        intro part hpart t ht
        exact hinside.subset (List.mem_flatMap.mpr ⟨part, hpart, ht⟩)
      have hpartAscending : ∀ part ∈ parts, Token.Ascending part.tokens := by
        intro part hpart
        exact (List.pairwise_flatMap.mp hinsideAscending).1 part hpart
      refine .node ?_ ?_ ?_ fun part hpart => ih part hpart (hpartAscending part hpart)
      · intro span hspan
        obtain ⟨⟨first, hfirst, hstart⟩, last, hlast, hstop⟩ := hown span hspan
        have hlastMem := List.mem_of_mem_getLast? hlast
        refine ⟨⟨first, hcovered.subset (List.mem_of_mem_head? hfirst), hstart⟩,
          ⟨last, hcovered.subset hlastMem, hstop⟩, ?_⟩
        rw [← hstart, ← hstop]
        exact hcoveredAscending.head_le hfirst hlastMem
      · intro span hspan part hpart inner hinner
        obtain ⟨⟨first, hfirst, hstart⟩, last, hlast, hstop⟩ := hown span hspan
        obtain ⟨⟨t, ht, hinnerStart⟩, u, hu, hinnerStop⟩ := (hparts part hpart).ends hinner
        rw [← hstart, ← hstop, ← hinnerStart, ← hinnerStop]
        exact ⟨hcoveredAscending.head_le hfirst (hmem part hpart t ht),
          hcoveredAscending.le_getLast hlast (hmem part hpart u hu)⟩
      · have hordered := (List.pairwise_flatMap.mp hinsideAscending).2
        refine List.Pairwise.imp_of_mem ?_ hordered
        intro part other hpart hother hbefore span span' hspan hspan'
        obtain ⟨-, t, ht, hstop⟩ := (hparts part hpart).ends hspan
        obtain ⟨⟨u, hu, hstart⟩, -⟩ := (hparts other hother).ends hspan'
        rw [← hstop, ← hstart]
        exact hbefore t ht u hu

end Laid

/-! ### Nodes that follow one another -/

/-- The nodes are laid over some of the tokens, one node after the other. -/
structure LaidOver (parts : List (Outline Stretch)) (ts : List Token) : Prop where
  inside : (parts.flatMap tokens).Sublist ts
  laid : ∀ part ∈ parts, part.Laid

namespace LaidOver

variable {parts others : List (Outline Stretch)} {ts us : List Token}

/-- No parts lie over any tokens. -/
theorem nil : LaidOver [] ts := ⟨List.nil_sublist _, nofun⟩

/-- A token may belong to none of the nodes. -/
theorem skip (token : Token) (h : LaidOver parts ts) : LaidOver parts (token :: ts) :=
  ⟨h.inside.cons token, h.laid⟩

/-- More tokens may stand behind those of the nodes. -/
theorem behind (h : LaidOver parts ts) (us : List Token) : LaidOver parts (ts ++ us) :=
  ⟨h.inside.trans (List.sublist_append_left ts us), h.laid⟩

/-- Parts over some tokens and parts over the tokens behind them lie over both. -/
theorem append (h : LaidOver parts ts) (h' : LaidOver others us) :
    LaidOver (parts ++ others) (ts ++ us) := by
  constructor
  · rw [List.flatMap_append]
    exact h.inside.append h'.inside
  · intro part hpart
    rcases List.mem_append.mp hpart with hpart | hpart
    · exact h.laid part hpart
    · exact h'.laid part hpart

/-- A node without a span. -/
theorem unmarked {kind : Ast.NodeKind} (h : LaidOver parts ts) :
    LaidOver [node ⟨ts, kind, none⟩ parts] ts := by
  constructor
  · simp [tokens, label]
  · intro part hpart
    rw [List.mem_singleton.mp hpart]
    exact .node ts (.refl _) h.inside nofun h.laid

/-- A node whose span runs from the first to the last of some of its tokens. -/
theorem spanning {kind : Ast.NodeKind} {span : Span} {covered : List Token}
    (hcovered : covered.Sublist ts) (h : LaidOver parts covered)
    (hstart : ∃ first ∈ covered.head?, first.position = span.start)
    (hstop : ∃ last ∈ covered.getLast?, last.position = span.stop) :
    LaidOver [node ⟨ts, kind, some span⟩ parts] ts := by
  constructor
  · simp [tokens, label]
  · intro part hpart
    rw [List.mem_singleton.mp hpart]
    refine .node covered hcovered h.inside (fun other hother => ?_) h.laid
    cases hother
    exact ⟨hstart, hstop⟩

/-- A node whose span runs from the first to the last of its tokens. -/
theorem whole {kind : Ast.NodeKind} {first last : Token} (hfirst : ts.head? = some first)
    (hlast : ts.getLast? = some last) (h : LaidOver parts ts) :
    LaidOver [node ⟨ts, kind, some (first.spanTo last)⟩ parts] ts :=
  spanning (.refl ts) h ⟨first, hfirst, rfl⟩ ⟨last, hlast, rfl⟩

/-- A name, and what follows it. -/
theorem name (name : Token) (h : LaidOver parts ts) :
    LaidOver (ParseTree.nameOutline name :: parts) (name :: ts) := by
  have hname : LaidOver [ParseTree.nameOutline name] [name] := whole rfl rfl nil
  exact hname.append h

end LaidOver

end Outline

end StructScript
