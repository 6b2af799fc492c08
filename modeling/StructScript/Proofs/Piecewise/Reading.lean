import StructScript.Proofs.Grammar.Exactness
import StructScript.Proofs.Layout.Invariance
import StructScript.Proofs.Scanning.Gaps

/-!
# Reading one text behind another

If a text can be read, then what is read from it does not depend on a text that follows on the next
line, and what is read from that text depends on the first in its positions alone:

* a lexeme is the same before a newline as before the end of the text, since gaps end tokens
  (`Cut.append_newline`), so the tokens of the second text follow those of the first
  (`Token.scan_append_newline`);
* a statement ends with its semicolon, so the statements of the second text follow those of the
  first (`ParseTree.Program.ofTokens_append`).
-/

namespace StructScript

/-! ### Tokens -/

/-- A lexeme of a text is one of the text with more lines behind it. -/
theorem Lexeme.append_newline {kind : TokenKind} {text cs : List Char}
    (h : Lexeme kind text (text ++ cs)) (ds : List Char) :
    Lexeme kind text (text ++ (cs ++ '\n' :: ds)) := by
  rw [← List.append_nil cs] at h
  exact h.append_of_ends (.newline kind ds)

/-- Texts on lines of their own are cut one after the other. -/
theorem Cut.append_newline {cs ds rest end' : List Char} {pieces pieces' : List Piece}
    (h : Cut cs pieces end') (hend : end' = []) (h' : Cut ds pieces' rest) :
    Cut (cs ++ '\n' :: ds) (pieces ++ .gap '\n' :: pieces') rest := by
  induction h with
  | nil =>
      subst hend
      exact .gap rfl h'
  | gap hc hcut ih => exact .gap hc (ih hend)
  | lexeme hlexeme hcut ih =>
      rw [List.append_assoc]
      exact .lexeme (hlexeme.append_newline ds) (ih hend)

/-- Where pieces begin does not change the kinds and lexemes of their tokens. -/
theorem Piece.map_tokens (p q : Position) (pieces : List Piece) :
    (tokens p pieces).map (fun t => (t.kind, t.lexeme)) =
      (tokens q pieces).map fun t => (t.kind, t.lexeme) := by
  induction pieces generalizing p q with
  | nil => rfl
  | cons piece rest ih =>
      cases piece with
      | gap c => exact ih _ _
      | lexeme kind text => exact congrArg (_ :: ·) (ih _ _)

namespace Token

/-- The token `eof` ends a text, and none of the tokens `ts` does. -/
structure Closes (eof : Token) (ts : List Token) : Prop where
  last : eof.kind = .eof
  before : ∀ t ∈ ts, t.kind ≠ .eof

/-- What ends a text is no comment. -/
theorem Closes.dropComments_append {eof : Token} {ts : List Token} (h : eof.Closes ts) :
    dropComments (ts ++ [eof]) = dropComments ts ++ [eof] ∧ eof.Closes (dropComments ts) := by
  have hlast : dropComments [eof] = [eof] := by simp [dropComments, h.last]
  refine ⟨?_, h.last, fun t ht => h.before t (List.mem_filter.mp ht).1⟩
  rw [dropComments, List.filter_append]
  exact congrArg _ hlast

/-- Comments can be dropped before or after relocation. -/
theorem dropComments_relocate (g : Relocation) (ts : List Token) :
    dropComments (relocate g ts) = relocate g (dropComments ts) := List.filter_map

/-- The tokens of two texts that can be split into tokens, one below the other, are those of the
first, without its end, and those of the second at other places. -/
theorem scan_append_newline {a b file : String} {ts us : List Token}
    (ha : scan a file = .ok ts) (hb : scan b file = .ok us) :
    ∃ before eof vs eof', ts = before ++ [eof] ∧ eof.Closes before ∧
      EqUpToPlaces us (vs ++ [eof']) ∧ eof'.Closes vs ∧
      scan (a ++ "\n" ++ b) file = .ok (before ++ (vs ++ [eof'])) := by
  obtain ⟨pieces, hcut, rfl⟩ := exists_cut_of_scan ha
  obtain ⟨pieces', hcut', rfl⟩ := exists_cut_of_scan hb
  have hjoined : Cut (a ++ "\n" ++ b).toList (pieces ++ .gap '\n' :: pieces') [] := by
    have htext : (a ++ "\n" ++ b).toList = a.toList ++ '\n' :: b.toList := by
      simp [String.toList_append]
    rw [htext]
    exact hcut.append_newline rfl hcut'
  let p := ((Position.start file).after (Piece.join pieces)).next '\n'
  let eof' : Token := ⟨.eof, "", (Position.start file).after (a ++ "\n" ++ b).toList⟩
  refine ⟨_, _, Piece.tokens p pieces', eof', rfl, ⟨rfl, hcut.kind_ne_eof _⟩, ?_,
    ⟨rfl, hcut'.kind_ne_eof p⟩, ?_⟩
  · apply eqUpToPlaces_of_map_eq
    rw [List.map_append, List.map_append, Piece.map_tokens _ p]
    rfl
  · rw [scan_of_cut hjoined, Piece.tokens_append, Piece.tokens, List.append_assoc]

end Token

/-! ### Statements -/

namespace ParseTree.Program

/-- A program read from a buffer whose only closing token is its last is made of the statements
before that token. -/
theorem eq_mk_of_ofTokens {ts : List Token} {eof : Token} {p : Program}
    (heof : eof.Closes ts) (h : ofTokens (ts ++ [eof]) .standard = .ok p) :
    (∀ s ∈ p.stmts, s.WellFormed .standard) ∧ Stmt.listYield p.stmts = ts ∧ p.eof = some eof := by
  obtain ⟨hp, rest, htokens, hend⟩ := wellFormed_of_ofTokens h
  refine ⟨hp.stmts, ?_⟩
  obtain ⟨stmts, _ | token⟩ := p
  · -- a program without a closing token would end with the semicolon of a statement
    rw [hend rfl, List.append_nil] at htokens
    change ts ++ [eof] = Stmt.listYield stmts ++ [] at htokens
    rw [List.append_nil] at htokens
    rcases stmts.eq_nil_or_concat with rfl | ⟨init, last, rfl⟩
    · exact absurd htokens (by simp [Stmt.listYield])
    · obtain ⟨us, semicolon, hlast, hkind⟩ := (hp.stmts last (by simp)).ends
      rw [List.concat_eq_append, Stmt.listYield_append, Stmt.listYield, hlast, Stmt.listYield,
        List.append_nil, ← List.append_assoc] at htokens
      obtain rfl : eof = semicolon := by simpa using (List.append_inj' htokens rfl).2
      exact absurd heof.last (by rw [hkind]; decide)
  · change ts ++ [eof] = Stmt.listYield stmts ++ [token] ++ rest at htokens
    rcases rest.eq_nil_or_concat with rfl | ⟨us, last, rfl⟩
    · rw [List.append_nil] at htokens
      obtain ⟨hyield, hlast⟩ := List.append_inj' htokens rfl
      exact ⟨hyield.symm, congrArg some (List.cons.inj hlast).1.symm⟩
    · rw [List.concat_eq_append, ← List.append_assoc] at htokens
      have hmem : token ∈ ts := by
        rw [(List.append_inj' htokens rfl).1]
        simp
      exact absurd (hp.eof token rfl) (heof.before token hmem)

/-- What is read before a closing token is read before more tokens as well: statements do not depend
on what stands behind their last semicolon. -/
theorem ofTokens_append {ts us : List Token} {eof eof' : Token} {p q : Program}
    (heof : eof.Closes ts) (hp : ofTokens (ts ++ [eof]) .standard = .ok p)
    (heof' : eof'.Closes us) (hq : ofTokens (us ++ [eof']) .standard = .ok q) :
    ofTokens (ts ++ (us ++ [eof'])) .standard = .ok ⟨p.stmts ++ q.stmts, some eof'⟩ := by
  obtain ⟨hpstmts, rfl, -⟩ := eq_mk_of_ofTokens heof hp
  obtain ⟨hqstmts, rfl, -⟩ := eq_mk_of_ofTokens heof' hq
  have hwellFormed : (⟨p.stmts ++ q.stmts, some eof'⟩ : Program).WellFormed .standard := by
    refine ⟨List.forall_mem_append.mpr ⟨hpstmts, hqstmts⟩, fun token htoken => ?_⟩
    exact Option.some.inj htoken ▸ heof'.last
  have hyield : Stmt.listYield p.stmts ++ (Stmt.listYield q.stmts ++ [eof']) =
      (⟨p.stmts ++ q.stmts, some eof'⟩ : Program).yield := by
    rw [yield, Stmt.listYield_append, List.append_assoc]
    rfl
  rw [hyield]
  exact ofTokens_yield hwellFormed

end ParseTree.Program

/-- Statements in two parts are read part by part. -/
theorem ParseTree.Stmt.listToAst_append (n : Nat) (stmts others : List ParseTree.Stmt) :
    listToAst n (stmts ++ others) = listToAst n stmts ++ listToAst n others := by
  induction stmts with
  | nil => simp [listToAst]
  | cons stmt rest ih => simp [listToAst, ih]

end StructScript
