import StructScript.Proofs.Scanning.Exactness

/-!
# Gaps end tokens

Nothing that is declared goes on behind a gap but strings and comments: a string ends at its quote
wherever it stands, and a comment at a newline. So what follows a gap has no say in the token before
it (`Lexeme.append_of_ends`), and neither has what preceded that token.

The tokens of a text can therefore be written out with gaps between them, whatever stood between
them before, and scanned again (`Token.scan_written`).
-/

namespace StructScript

/-- A token of the kind does not go on into the characters: nothing is left, or a gap is first, which
has to be a newline behind a comment. -/
def Ends (kind : TokenKind) (cs : List Char) : Prop :=
  ∀ c rest, cs = c :: rest → isGap c = true ∧ (kind = .comment → c = '\n')

namespace Ends

/-- At the end of the text every lexeme ends. -/
theorem nil (kind : TokenKind) : Ends kind [] := nofun

/-- In front of a newline every lexeme ends. -/
theorem newline (kind : TokenKind) (cs : List Char) : Ends kind ('\n' :: cs) := by
  intro c rest h
  obtain ⟨rfl, -⟩ := List.cons.inj h
  exact ⟨rfl, fun _ => rfl⟩

/-- In front of a space every lexeme but a comment ends. -/
theorem space {kind : TokenKind} (h : kind ≠ .comment) (cs : List Char) : Ends kind (' ' :: cs) := by
  intro c rest hc
  obtain ⟨rfl, -⟩ := List.cons.inj hc
  exact ⟨rfl, fun hcomment => absurd hcomment h⟩

end Ends

namespace Rule

/-- What a comment matches is named a comment. -/
theorem names_comment {text : List Char} (h : Pattern.comment.Matches text) : Names .comment text :=
  ⟨⟨.comment, .comment⟩, by decide, rfl, h, nofun⟩

/-- A declared text that goes on behind a gap is a string, or the gap is part of a comment. -/
theorem Declared.cases_of_append_gap {text behind : List Char} {c : Char}
    (h : Declared (text ++ c :: behind)) (hne : text ≠ []) (hgap : isGap c = true) :
    (∃ inside, text = '"' :: inside) ∨ Pattern.comment.Matches text ∧ c ≠ '\n' := by
  obtain ⟨first, text, rfl⟩ := List.exists_cons_of_ne_nil hne
  rcases h.cases_of_gap (by simp) hgap with ⟨_, hstring⟩ | ⟨body, hbody, hcomment⟩
  · obtain rfl : first = '"' := (List.cons.inj hstring).1
    exact .inl ⟨text, rfl⟩
  · obtain ⟨rfl, htail⟩ := List.cons.inj hcomment
    cases text with
    | nil =>
        obtain rfl : c = '/' := (List.cons.inj htail).1
        exact absurd hgap (by decide)
    | cons second line =>
        obtain ⟨rfl, rfl⟩ := List.cons.inj htail
        refine .inr ⟨.comment fun hmem => hbody (List.mem_append_left _ hmem), ?_⟩
        rintro rfl
        exact hbody (List.mem_append_right _ List.mem_cons_self)

end Rule

namespace Lexeme

/-- A lexeme does not depend on what stands behind a gap: it is the same before other characters if
these are the ones that followed it up to a place where its kind ends. -/
theorem append_of_ends {kind : TokenKind} {text between before behind : List Char}
    (h : Lexeme kind text (text ++ (between ++ before))) (hends : Ends kind behind) :
    Lexeme kind text (text ++ (between ++ behind)) := by
  refine ⟨List.prefix_append _ _, h.names, fun other hother hdeclared => ?_⟩
  have hkept {us : List Char} (hus : us <+: text ++ between) (hdeclared : Rule.Declared us) :
      us.length ≤ text.length := by
    refine h.longest us (hus.trans ?_) hdeclared
    rw [← List.append_assoc]
    exact List.prefix_append _ _
  have hbegins : other <+: text ++ between ++ behind := by rwa [List.append_assoc]
  rcases List.prefix_or_prefix_of_prefix hbegins (List.prefix_append _ _) with hinside | ⟨us, rfl⟩
  · exact hkept hinside hdeclared
  · cases us with
    | nil => exact hkept (by simp) hdeclared
    | cons c inside =>
        -- It takes the gap, so it is a string or a comment, and so is the lexeme.
        obtain ⟨rest, rfl⟩ := (List.prefix_append_right_inj _).mp hbegins
        obtain ⟨hgap, hnewline⟩ := hends c _ rfl
        rcases hdeclared.cases_of_append_gap (by simp [h.ne_nil]) hgap with
          ⟨_, hstring⟩ | ⟨hcomment, hc⟩
        · obtain ⟨first, text, rfl⟩ := List.exists_cons_of_ne_nil h.ne_nil
          obtain rfl : first = '"' := (List.cons.inj hstring).1
          obtain ⟨rule, hrule, -, hmatch, -⟩ := h.names
          rw [Rule.quoted_of_matches hrule hmatch] at hmatch
          exact hdeclared.length_le_of_quoted hmatch hother
        · obtain ⟨rule, hrule, -, hmatch, -⟩ := Rule.names_comment hcomment
          have hlength := hkept (List.prefix_refl _) (.inl ⟨rule, hrule, hmatch⟩)
          obtain rfl : between = [] :=
            List.eq_nil_of_length_eq_zero (by rw [List.length_append] at hlength; omega)
          rw [List.append_nil] at hcomment
          exact absurd (hnewline (h.names.unique (Rule.names_comment hcomment))) hc

end Lexeme

namespace Token

/-- What is written between a token and those behind it: a newline behind a comment, and else a space
unless the token is the last one. -/
def gapBehind (t : Token) (rest : List Token) : String :=
  if t.kind = .comment then "\n" else if rest = [] then "" else " "

/-- The lexemes of the tokens, written one behind the other with gaps between them. -/
def written : List Token → String
  | [] => ""
  | t :: rest => t.lexeme ++ (gapBehind t rest ++ written rest)

/-- The gap before other tokens ends the token, and the text behind it is cut as it was. -/
theorem exists_cut_gapBehind (t : Token) {rest : List Token} {pieces : List Piece}
    (h : Cut (written rest).toList pieces []) :
    ∃ pieces', Cut (gapBehind t rest ++ written rest).toList pieces' [] ∧
      Ends t.kind (gapBehind t rest ++ written rest).toList ∧
      ∀ p, ∃ q, Piece.tokens p pieces' = Piece.tokens q pieces := by
  rw [String.toList_append]
  unfold gapBehind
  split
  · exact ⟨.gap '\n' :: pieces, .gap rfl h, .newline _ _, fun p => ⟨_, rfl⟩⟩
  · rename_i hkind
    split
    · rename_i hrest
      subst hrest
      exact ⟨pieces, h, .nil _, fun p => ⟨p, rfl⟩⟩
    · exact ⟨.gap ' ' :: pieces, .gap rfl h, .space hkind _, fun p => ⟨_, rfl⟩⟩

/-- Tokens written out are cut into their lexemes. -/
theorem exists_cut_written {ts : List Token}
    (h : ∀ t ∈ ts, ∃ behind, Lexeme t.kind t.lexeme.toList (t.lexeme.toList ++ behind)) :
    ∃ pieces, Cut (written ts).toList pieces [] ∧
      ∀ p, (Piece.tokens p pieces).map (fun t => (t.kind, t.lexeme)) =
        ts.map fun t => (t.kind, t.lexeme) := by
  induction ts with
  | nil => exact ⟨[], .nil [], fun p => rfl⟩
  | cons t rest ih =>
      obtain ⟨⟨before, hlexeme⟩, hrest⟩ := List.forall_mem_cons.mp h
      obtain ⟨pieces, hcut, hpieces⟩ := ih hrest
      obtain ⟨pieces', hcut', hends, htokens⟩ := exists_cut_gapBehind t hcut
      rw [← List.nil_append before] at hlexeme
      refine ⟨.lexeme t.kind t.lexeme.toList :: pieces', ?_, fun p => ?_⟩
      · rw [written, String.toList_append]
        exact .lexeme (hlexeme.append_of_ends hends) hcut'
      · obtain ⟨q, hq⟩ := htokens (p.after t.lexeme.toList)
        rw [Piece.tokens, hq, List.map_cons, List.map_cons, hpieces, String.ofList_toList]

/-- **Tokens can be written out and scanned again.** If a text is scanned, then so is the one in which
its tokens are written with nothing but a space between them and a newline behind each comment, and
there the tokens have the same kinds and lexemes. -/
theorem scan_written {source file : String} {tokens : List Token}
    (h : scan source file = .ok tokens) (file' : String) :
    ∃ tokens', scan (written (tokens.filter (·.kind ≠ .eof))) file' = .ok tokens' ∧
      tokens'.map (fun t => (t.kind, t.lexeme)) = tokens.map fun t => (t.kind, t.lexeme) := by
  obtain ⟨pieces, hcut, rfl⟩ := exists_cut_of_scan h
  obtain ⟨pieces', hcut', hpieces'⟩ := exists_cut_written (hcut.exists_lexeme (Position.start file))
  have hfilter : (Piece.tokens (Position.start file) pieces ++
      [(⟨.eof, "", (Position.start file).after source.toList⟩ : Token)]).filter (·.kind ≠ .eof) =
      Piece.tokens (Position.start file) pieces := by
    rw [List.filter_append, List.filter_eq_self.mpr]
    · simp
    · simpa using hcut.kind_ne_eof (Position.start file)
  rw [hfilter]
  refine ⟨_, scan_of_cut hcut' file', ?_⟩
  rw [List.map_append, hpieces', List.map_append]
  rfl

/-- Tokens that stand without gaps between them, and a comment at the end. -/
theorem scan_written_dense :
    ∃ tokens tokens', scan "a->1.5.b\"//\"//c" "" = .ok tokens ∧
      written (tokens.filter (·.kind ≠ .eof)) = "a -> 1.5 . b \"//\" //c\n" ∧
      scan "a -> 1.5 . b \"//\" //c\n" "" = .ok tokens' ∧
      tokens'.map (fun t => (t.kind, t.lexeme)) = tokens.map fun t => (t.kind, t.lexeme) := by
  obtain ⟨tokens, h, hwritten⟩ : ∃ tokens, scan "a->1.5.b\"//\"//c" "" = .ok tokens ∧
      written (tokens.filter (·.kind ≠ .eof)) = "a -> 1.5 . b \"//\" //c\n" :=
    ⟨_, rfl, by decide +kernel⟩
  obtain ⟨tokens', h', hsame⟩ := scan_written h ""
  rw [hwritten] at h'
  exact ⟨tokens, tokens', h, hwritten, h', hsame⟩

end Token

end StructScript
