import StructScript.Proofs.Scanning.Gaps
import StructScript.Proofs.Scanning.Positions

/-!
# Comments are gaps

A parser is given the tokens of a text without its comments (`Token.dropComments`). These are the
tokens of the text in which every character of a comment is replaced by a space
(`Token.blankComments`): to leave out what a comment says comes to the same before and after scanning.

A cut of the one text becomes a cut of the other if spaces take the place of each comment
(`Cut.blank`). What stands before a comment ends there still, since a gap ends a token; what stands
behind it is on a line and in a column that no character of the comment has a say in, since a comment
does not go beyond its line. Only offsets count bytes, and a space has one.

Main result: `Token.scan_blankComments`.
-/

namespace StructScript

/-! ### The text without its comments -/

/-- A space for each of the characters. -/
def spaces (cs : List Char) : List Char := cs.map fun _ => ' '

namespace Token

/-- Whether the byte at the offset belongs to a comment. -/
def commentAt (tokens : List Token) (offset : Nat) : Bool :=
  tokens.any fun t => t.kind = .comment ∧ t.position.offset ≤ offset ∧
    offset < t.position.offset + t.lexeme.utf8ByteSize

/-- The characters, the first of which stands at the offset, with a space for each one that belongs to
a comment. -/
def blankFrom (tokens : List Token) (offset : Nat) : List Char → List Char
  | [] => []
  | c :: rest =>
    (if commentAt tokens offset then ' ' else c) :: blankFrom tokens (offset + c.utf8Size) rest

/-- The source text with a space for each character that belongs to a comment. -/
def blankComments (tokens : List Token) (source : String) : String :=
  String.ofList (blankFrom tokens 0 source.toList)

end Token

namespace Piece

/-- A comment becomes spaces. -/
def blank : Piece → List Piece
  | gap c => [gap c]
  | lexeme kind text => if kind = .comment then (spaces text).map gap else [lexeme kind text]

/-- The pieces with spaces for each comment. -/
def blankAll (pieces : List Piece) : List Piece := pieces.flatMap blank

/-- There is nothing to blank. -/
@[simp] theorem blankAll_nil : blankAll [] = [] := rfl

/-- A comment becomes as many gaps as it has characters. -/
theorem blankAll_comment (text : List Char) (rest : List Piece) :
    blankAll (lexeme .comment text :: rest) = (spaces text).map gap ++ blankAll rest := rfl

/-- Other lexemes stay. -/
theorem blankAll_lexeme {kind : TokenKind} (h : kind ≠ .comment) (text : List Char)
    (rest : List Piece) : blankAll (lexeme kind text :: rest) = lexeme kind text :: blankAll rest := by
  simp [blankAll, blank, h]

/-- The text of gaps is their characters. -/
@[simp] theorem join_map_gap (cs : List Char) : join (cs.map gap) = cs := by
  induction cs with
  | nil => rfl
  | cons c rest ih => simp [text, ih]

end Piece

/-! ### The cut without its comments -/

namespace Cut

/-- Gaps before a text that is cut. -/
theorem gaps {cs rest : List Char} {pieces : List Piece} (h : Cut cs pieces rest) {between : List Char}
    (hbetween : ∀ c ∈ between, isGap c = true) :
    Cut (between ++ cs) (between.map .gap ++ pieces) rest := by
  induction between with
  | nil => exact h
  | cons c between ih =>
      obtain ⟨hc, hrest⟩ := List.forall_mem_cons.mp hbetween
      exact .gap hc (ih hrest)

/-- Up to the first comment nothing changes, and a space there ends the token before it. -/
theorem exists_common {cs rest : List Char} {pieces : List Piece} (h : Cut cs pieces rest) :
    ∃ between before behind, cs = between ++ before ∧
      Piece.join (Piece.blankAll pieces) ++ rest = between ++ behind ∧
      ∀ kind, kind ≠ .comment → Ends kind behind := by
  induction h with
  | nil cs => exact ⟨cs, [], [], by simp, by simp, fun kind _ => .nil kind⟩
  | @gap c cs rest pieces hc hcut ih =>
      obtain ⟨between, before, behind, rfl, hblank, hends⟩ := ih
      exact ⟨c :: between, before, behind, rfl, congrArg (c :: ·) hblank, hends⟩
  | @lexeme kind text cs rest pieces hlexeme hcut ih =>
      by_cases hkind : kind = .comment
      · subst hkind
        obtain ⟨c, text, rfl⟩ := List.exists_cons_of_ne_nil hlexeme.ne_nil
        exact ⟨[], _, _, rfl, rfl, fun kind hkind => .space hkind _⟩
      · obtain ⟨between, before, behind, rfl, hblank, hends⟩ := ih
        refine ⟨text ++ between, before, behind, (List.append_assoc _ _ _).symm, ?_, hends⟩
        rw [Piece.blankAll_lexeme hkind, Piece.join_cons, List.append_assoc, hblank,
          List.append_assoc]
        rfl

/-- The pieces with spaces for each comment are a cut. -/
theorem blank {cs rest : List Char} {pieces : List Piece} (h : Cut cs pieces rest) :
    Cut (Piece.join (Piece.blankAll pieces) ++ rest) (Piece.blankAll pieces) rest := by
  induction h with
  | nil cs => exact .nil cs
  | gap hc hcut ih => exact .gap hc ih
  | @lexeme kind text cs rest pieces hlexeme hcut ih =>
      by_cases hkind : kind = .comment
      · subst hkind
        rw [Piece.blankAll_comment, Piece.join_append, Piece.join_map_gap, List.append_assoc]
        refine ih.gaps fun c hc => ?_
        obtain ⟨_, -, rfl⟩ := List.mem_map.mp hc
        rfl
      · obtain ⟨between, before, behind, rfl, hblank, hends⟩ := hcut.exists_common
        rw [hblank] at ih
        rw [Piece.blankAll_lexeme hkind, Piece.join_cons, List.append_assoc, hblank]
        exact .lexeme (hlexeme.append_of_ends (hends kind hkind)) ih

end Cut

/-! ### Which characters belong to comments -/

namespace Token

/-- Before some pieces stands none of their comments. -/
theorem commentAt_tokens_of_lt (pieces : List Piece) {p : Position} {offset : Nat}
    (h : offset < p.offset) : commentAt (Piece.tokens p pieces) offset = false := by
  refine List.any_eq_false.mpr fun t ht => ?_
  obtain ⟨before, -, -, hposition⟩ := Piece.exists_position_eq_after ht
  have hle := offset_le_after p before
  rw [← hposition] at hle
  simp only [decide_eq_true_eq]
  omega

/-- The bytes of the first lexeme belong to a comment if it is one. -/
theorem commentAt_lexeme {kind : TokenKind} {text : List Char} {pieces : List Piece} {p : Position}
    {offset : Nat} (hle : p.offset ≤ offset) (hlt : offset < (p.after text).offset) :
    commentAt (Piece.tokens p (.lexeme kind text :: pieces)) offset = decide (kind = .comment) := by
  have hbehind := commentAt_tokens_of_lt pieces hlt
  rw [offset_after] at hlt
  rw [commentAt] at hbehind
  rw [commentAt, Piece.tokens, List.any_cons, hbehind, Bool.or_false]
  simp [hle, hlt]

/-- The bytes behind the first lexeme belong to the same comments without it. -/
theorem commentAt_behind {kind : TokenKind} {text : List Char} {pieces : List Piece} {p : Position}
    {offset : Nat} (hle : (p.after text).offset ≤ offset) :
    commentAt (Piece.tokens p (.lexeme kind text :: pieces)) offset =
      commentAt (Piece.tokens (p.after text) pieces) offset := by
  rw [offset_after] at hle
  have hnot : ¬ offset < p.offset + (String.ofList text).utf8ByteSize := Nat.not_lt.mpr hle
  rw [commentAt, Piece.tokens, List.any_cons]
  simp only [hnot, and_false, decide_false, Bool.false_or]
  rfl

/-- Text is blanked from left to right, each part from the byte where it begins. -/
theorem blankFrom_append (tokens : List Token) (p : Position) (cs ds : List Char) :
    blankFrom tokens p.offset (cs ++ ds) =
      blankFrom tokens p.offset cs ++ blankFrom tokens (p.after cs).offset ds := by
  induction cs generalizing p with
  | nil => rfl
  | cons c cs ih =>
      rw [List.cons_append, blankFrom, blankFrom, ← offset_next, ih]
      rfl

/-- Characters that belong to comments become spaces, and those that belong to none stay. -/
theorem blankFrom_eq {tokens : List Token} {b : Bool} {p : Position} {cs : List Char}
    (h : ∀ offset, p.offset ≤ offset → offset < (p.after cs).offset → commentAt tokens offset = b) :
    blankFrom tokens p.offset cs = if b then spaces cs else cs := by
  induction cs generalizing p with
  | nil => simp [blankFrom, spaces]
  | cons c cs ih =>
      have hfirst := h p.offset (Nat.le_refl _) (offset_lt_after p (by simp))
      have hrest := ih (p := p.next c) fun offset hle =>
        h offset (Nat.le_trans (offset_le_after p [c]) hle)
      rw [blankFrom, hfirst, ← offset_next, hrest]
      cases b <;> rfl

/-- The text of some pieces with spaces for the characters of their comments is the text of the pieces
with spaces for each comment. -/
theorem blankFrom_join {tokens : List Token} {pieces : List Piece} {p : Position}
    (h : ∀ offset, p.offset ≤ offset →
      commentAt tokens offset = commentAt (Piece.tokens p pieces) offset) :
    blankFrom tokens p.offset (Piece.join pieces) = Piece.join (Piece.blankAll pieces) := by
  induction pieces generalizing p with
  | nil => rfl
  | cons piece pieces ih =>
      rw [Piece.join_cons, blankFrom_append]
      cases piece with
      | gap c =>
          have hgap : blankFrom tokens p.offset [c] = [c] := by
            refine blankFrom_eq (b := false) fun offset hle hlt => ?_
            rw [h offset hle]
            exact commentAt_tokens_of_lt pieces hlt
          have hrest := ih (p := p.next c) fun offset hle =>
            h offset (Nat.le_trans (offset_le_after p [c]) hle)
          exact congr (congrArg (· ++ ·) hgap) hrest
      | lexeme kind text =>
          have htext : blankFrom tokens p.offset text = Piece.join (Piece.lexeme kind text).blank := by
            rw [blankFrom_eq fun offset hle hlt => (h offset hle).trans (commentAt_lexeme hle hlt)]
            by_cases hkind : kind = .comment
            · simp [Piece.blank, hkind]
            · simp [Piece.blank, hkind, Piece.text]
          have hrest := ih (p := p.after text) fun offset hle => by
            rw [h offset (Nat.le_trans (offset_le_after p text) hle), commentAt_behind hle]
          rw [Piece.text, htext, hrest, ← Piece.join_append]
          rfl

end Token

/-! ### Where the tokens stand -/

namespace Position

/-- What `f` tells of a position behind a text depends on no more than what it told of the one before
if that is so for one character. -/
theorem after_congr {α : Type} {f : Position → α}
    (hnext : ∀ {p q : Position}, f p = f q → ∀ c, f (p.next c) = f (q.next c)) {p q : Position}
    (h : f p = f q) (cs : List Char) : f (p.after cs) = f (q.after cs) := by
  induction cs generalizing p q with
  | nil => exact h
  | cons c cs ih => exact ih (hnext h c)

/-- The file, the line and the column: what a position says but for the bytes before it. -/
def spot (p : Position) : String × UInt32 × UInt32 := (p.file, p.line, p.col)

/-- Characters that both are newlines, or both are not, lead to the same lines and columns. -/
theorem spot_next {p q : Position} (h : p.spot = q.spot) {c d : Char}
    (hcd : c = '\n' ↔ d = '\n') : (p.next c).spot = (q.next d).spot := by
  obtain ⟨hfile, hline, hcol⟩ : p.file = q.file ∧ p.line = q.line ∧ p.col = q.col := by
    simpa [spot] using h
  by_cases hc : c = '\n'
  · simp [next, spot, hc, hcd.mp hc, hfile, hline]
  · have hd : d ≠ '\n' := fun hd => hc (hcd.mpr hd)
    simp [next, spot, hc, hd, hfile, hline, hcol]

/-- On one line, a space takes as much room as any other character. -/
theorem spot_after_spaces {p q : Position} (h : p.spot = q.spot) {cs : List Char}
    (hcs : '\n' ∉ cs) : (p.after cs).spot = (q.after (spaces cs)).spot := by
  induction cs generalizing p q with
  | nil => exact h
  | cons c cs ih =>
      rw [List.mem_cons, not_or] at hcs
      refine ih (spot_next h ?_) hcs.2
      exact iff_of_false (Ne.symm hcs.1) (show ' ' ≠ '\n' by decide)

/-- A space has one byte, as each of the first 128 characters has. -/
theorem after_spaces (p : Position) {cs : List Char} (hcs : '\n' ∉ cs)
    (hascii : ∀ c ∈ cs, c.toNat < 128) : p.after cs = p.after (spaces cs) := by
  induction cs generalizing p with
  | nil => rfl
  | cons c cs ih =>
      rw [List.mem_cons, not_or] at hcs
      obtain ⟨hc, hrest⟩ := List.forall_mem_cons.mp hascii
      have hle : c.val ≤ 127 := UInt32.le_iff_toNat_le.mpr (Nat.le_of_lt_succ hc)
      have hsize : c.utf8Size = ' '.utf8Size := Char.utf8Size_eq_one_iff.mpr hle
      have hnext : p.next c = p.next ' ' := by simp [next, Ne.symm hcs.1, hsize]
      rw [after_cons, hnext]
      exact ih (p.next ' ') hcs.2 hrest

end Position

/-- A comment does not go beyond its line. -/
theorem Lexeme.newline_not_mem {text cs : List Char} (h : Lexeme .comment text cs) :
    '\n' ∉ text := by
  have hpattern : ∀ rule ∈ Rule.all, rule.kind = .comment → rule.pattern = .comment := by decide
  obtain ⟨rule, hrule, hkind, hmatch, -⟩ := h.names
  rw [hpattern rule hrule hkind] at hmatch
  cases hmatch with
  | comment hbody => simp [hbody]

namespace Piece

/-- The tokens of some pieces and the one for the end of their text. -/
def allTokens (p : Position) (pieces : List Piece) : List Token :=
  tokens p pieces ++ [⟨.eof, "", p.after (join pieces)⟩]

/-- The first lexeme is the first token, and the others stand behind it. -/
theorem allTokens_lexeme (p : Position) (kind : TokenKind) (text : List Char) (rest : List Piece) :
    allTokens p (lexeme kind text :: rest) =
      ⟨kind, String.ofList text, p⟩ :: allTokens (p.after text) rest := by
  rw [allTokens, join_cons, Position.after_append]
  rfl

/-- Gaps in front are no tokens. -/
theorem allTokens_map_gap (p : Position) (cs : List Char) (rest : List Piece) :
    allTokens p (cs.map gap ++ rest) = allTokens (p.after cs) rest := by
  induction cs generalizing p with
  | nil => rfl
  | cons c cs ih => exact ih (p.next c)

/-- The tokens of some pieces, but for the comments, and those of the pieces with spaces for each
comment have the same kinds and lexemes in the same order. If what `f` tells of a position depends on
no more than what it told of the one before, and if it cannot tell a comment from spaces, then it
tells the same of their places. -/
theorem map_allTokens_blankAll {α : Type} {f : Position → α}
    (hnext : ∀ {p q : Position}, f p = f q → ∀ c, f (p.next c) = f (q.next c))
    {pieces : List Piece} {p q : Position} (hpq : f p = f q)
    (hspaces : ∀ t ∈ tokens p pieces, t.kind = .comment → ∀ {p q : Position}, f p = f q →
      f (p.after t.lexeme.toList) = f (q.after (spaces t.lexeme.toList))) :
    (allTokens q (blankAll pieces)).map (fun t => (t.kind, t.lexeme, f t.position)) =
      (Token.dropComments (allTokens p pieces)).map fun t => (t.kind, t.lexeme, f t.position) := by
  induction pieces generalizing p q with
  | nil => exact congrArg (fun place => [(TokenKind.eof, "", place)]) hpq.symm
  | cons piece pieces ih =>
      cases piece with
      | gap c => exact ih (hnext hpq c) hspaces
      | lexeme kind text =>
          obtain ⟨hfirst, hrest⟩ := List.forall_mem_cons.mp hspaces
          rw [String.toList_ofList] at hfirst
          rw [allTokens_lexeme, Token.dropComments]
          by_cases hkind : kind = .comment
          · subst hkind
            rw [List.filter_cons_of_neg (by simp), blankAll_comment, allTokens_map_gap]
            exact ih (hfirst rfl hpq) hrest
          · rw [List.filter_cons_of_pos (by simpa using hkind), blankAll_lexeme hkind,
              allTokens_lexeme, List.map_cons, List.map_cons,
              ih (Position.after_congr hnext hpq text) hrest, hpq]
            rfl

end Piece

namespace Cut

variable {cs rest : List Char} {pieces : List Piece}

/-- No comment of a text goes beyond its line. -/
theorem newline_not_mem_comment (h : Cut cs pieces rest) {p : Position} {t : Token}
    (ht : t ∈ Piece.tokens p pieces) (hkind : t.kind = .comment) : '\n' ∉ t.lexeme.toList := by
  obtain ⟨behind, hlexeme⟩ := h.exists_lexeme p t ht
  rw [hkind] at hlexeme
  exact hlexeme.newline_not_mem

/-- With spaces for the comments, the other tokens are on the same lines and in the same columns. -/
theorem map_spot_blankAll (h : Cut cs pieces rest) (p : Position) :
    (Piece.allTokens p (Piece.blankAll pieces)).map (fun t => (t.kind, t.lexeme, t.position.spot)) =
      (Token.dropComments (Piece.allTokens p pieces)).map
        fun t => (t.kind, t.lexeme, t.position.spot) := by
  refine Piece.map_allTokens_blankAll (f := Position.spot) ?_ rfl ?_
  · exact fun hspot c => Position.spot_next hspot Iff.rfl
  · intro t ht hkind p q hspot
    exact Position.spot_after_spaces hspot (h.newline_not_mem_comment ht hkind)

/-- If each character of the comments has one byte, the other tokens are the same. -/
theorem allTokens_blankAll (h : Cut cs pieces rest) (p : Position)
    (hascii : ∀ t ∈ Piece.tokens p pieces, t.kind = .comment →
      ∀ c ∈ t.lexeme.toList, c.toNat < 128) :
    Piece.allTokens p (Piece.blankAll pieces) = Token.dropComments (Piece.allTokens p pieces) := by
  have hsame : (Piece.allTokens p (Piece.blankAll pieces)).map
      (fun t => (t.kind, t.lexeme, t.position)) =
      (Token.dropComments (Piece.allTokens p pieces)).map
        fun t => (t.kind, t.lexeme, t.position) := by
    refine Piece.map_allTokens_blankAll (f := fun p => p) ?_ rfl ?_
    · rintro p _ rfl c
      rfl
    · rintro t ht hkind p _ rfl
      exact Position.after_spaces p (h.newline_not_mem_comment ht hkind) (hascii t ht hkind)
  refine List.map_injective_iff.mpr ?_ hsame
  rintro ⟨kind, lexeme, position⟩ ⟨_, _, _⟩ heq
  obtain ⟨rfl, rfl, rfl⟩ : kind = _ ∧ lexeme = _ ∧ position = _ := by simpa using heq
  rfl

end Cut

/-! ### Scanning without comments -/

namespace Token

/-- **Leaving comments out is the same before and after scanning.** If a text is scanned, then so is
the one with a space for each character of its comments, and there it has no comments. The tokens are
those of the text but for the comments: of the same kinds and lexemes, on the same lines and in the
same columns. They are the same, offsets included, if the comments have no characters but the first
128. -/
theorem scan_blankComments {source file : String} {tokens : List Token}
    (h : scan source file = .ok tokens) :
    ∃ tokens', scan (blankComments tokens source) file = .ok tokens' ∧
      (∀ t ∈ tokens', t.kind ≠ .comment) ∧
      tokens'.map (fun t => (t.kind, t.lexeme, t.position.spot)) =
        (dropComments tokens).map (fun t => (t.kind, t.lexeme, t.position.spot)) ∧
      ((∀ t ∈ tokens, t.kind = .comment → ∀ c ∈ t.lexeme.toList, c.toNat < 128) →
        tokens' = dropComments tokens) := by
  obtain ⟨pieces, hcut, rfl⟩ := exists_cut_of_scan h
  have hjoin := hcut.join_append
  have hblank := hcut.blank
  rw [List.append_nil] at hjoin hblank
  rw [← hjoin]
  let p := Position.start file
  change ∃ tokens', scan (blankComments (Piece.allTokens p pieces) source) file = .ok tokens' ∧ _
  -- the text with its comments blanked is cut like the text, piece by piece
  have hsource : (blankComments (Piece.allTokens p pieces) source).toList =
      Piece.join (Piece.blankAll pieces) := by
    rw [blankComments, String.toList_ofList, ← hjoin]
    refine blankFrom_join (p := p) fun offset _ => ?_
    simp [commentAt, Piece.allTokens]
  have hscan := scan_of_cut (hsource ▸ hblank) file
  rw [hsource] at hscan
  have hspots := hcut.map_spot_blankAll p
  refine ⟨Piece.allTokens p (Piece.blankAll pieces), hscan, fun t ht => ?_, hspots, fun hascii => ?_⟩
  · have hmem := List.mem_map_of_mem (f := fun t => (t.kind, t.lexeme, t.position.spot)) ht
    rw [hspots] at hmem
    obtain ⟨u, hu, heq⟩ := List.mem_map.mp hmem
    have hkind : u.kind = t.kind := congrArg Prod.fst heq
    rw [← hkind]
    simpa using (List.mem_filter.mp hu).2
  · exact hcut.allTokens_blankAll p fun t ht => hascii t (List.mem_append_left _ ht)

/-- A comment with a character of two bytes, behind a string with two slashes: the name on the next line
stays where it is but for one byte. -/
theorem scan_blankComments_bytes :
    ∃ tokens tokens', scan "\"//\" // é\n b" "" = .ok tokens ∧
      blankComments tokens "\"//\" // é\n b" = "\"//\"     \n b" ∧
      scan "\"//\"     \n b" "" = .ok tokens' ∧
      tokens.map (·.position.offset) = [0, 5, 12, 13] ∧
      tokens'.map (·.position.offset) = [0, 11, 12] ∧
      tokens'.map (fun t => (t.kind, t.lexeme, t.position.spot)) =
        (dropComments tokens).map fun t => (t.kind, t.lexeme, t.position.spot) := by
  obtain ⟨tokens, h, hblank, hoffsets⟩ : ∃ tokens, scan "\"//\" // é\n b" "" = .ok tokens ∧
      blankComments tokens "\"//\" // é\n b" = "\"//\"     \n b" ∧
      tokens.map (·.position.offset) = [0, 5, 12, 13] :=
    ⟨_, rfl, by decide +kernel, by decide +kernel⟩
  obtain ⟨tokens', h', -, hsame, -⟩ := scan_blankComments h
  rw [hblank] at h'
  have hoffsets' : tokens'.map (·.position.offset) = [0, 11, 12] := by
    have hscan : (scan "\"//\"     \n b" "").map (·.map (·.position.offset)) =
        .ok [0, 11, 12] := by decide +kernel
    rw [h'] at hscan
    exact Except.ok.inj hscan
  exact ⟨tokens, tokens', h, hblank, h', hoffsets, hoffsets', hsame⟩

end Token

end StructScript
